import StatementCache.Binary64.Basic
import StatementCache.Json.Reader

/-! Numbers in JSON text. A significand holds as many digits as fit in 64 bits; what lies beyond
them moves the exponent before the point and is dropped after it. -/
namespace StatementCache.Json

inductive Numeral where
  | natural (n : Nat)
  | negative (i : Int)
  | float (x : Binary64)

namespace Reader

def accumulate : Nat → List Nat → Nat × Nat
  | significand, [] => (significand, 0)
  | significand, d :: rest =>
    if significand * 10 + d < UInt64.size then
      let (total, taken) := accumulate (significand * 10 + d) rest
      (total, taken + 1)
    else (significand, 0)

/-- Division by ten to a power beyond the range of powers goes in steps; after three of them no
significand of 64 bits is left. -/
def shrink : Nat → Binary64 → Nat → Binary64
  | 0, _, _ => .zero
  | fuel + 1, x, power =>
    if power ≤ 308 then x.quotient (.ofNat (Nat.pow 10 power))
    else shrink fuel (x.quotient (.ofNat (Nat.pow 10 308))) (power - 308)

def assemble (significand : Nat) (exponent : Int) : Reader Binary64 :=
  let x := Binary64.ofNat significand
  if 0 ≤ exponent then
    if 308 < exponent then
      if significand = 0 then pure .zero else fail .malformed
    else
      let y := x.product (.ofNat (Nat.pow 10 exponent.toNat))
      if y.isInfinite then fail .malformed else pure y
  else pure (shrink 4 x exponent.natAbs)

def signed (positive : Bool) (x : Binary64) : Binary64 := if positive then x else x.neg

/-- The exponent part, from its letter on. A power that does not fit in 32 bits leaves only
zero. -/
def exponentPart (significand : Nat) (start : Int) : Reader Binary64 := do
  advance
  let ascending ← (do
    match ← peek with
    | some '+' => advance; pure true
    | some '-' => advance; pure false
    | _ => pure true)
  match ← peek with
  | none => fail .truncated
  | some c =>
    if c.isDigit then
      let power : Nat := (← digits).foldl (fun n d => 10 * n + d) 0
      if 0x80000000 ≤ power then
        if significand ≠ 0 ∧ ascending then fail .malformed else pure .zero
      else assemble significand (if ascending then start + (power : Int) else start - (power : Int))
    else fail .malformed

def scaled (significand : Nat) (exponent : Int) : Reader Binary64 := do
  match ← peek with
  | some 'e' | some 'E' => exponentPart significand exponent
  | _ => assemble significand exponent

def fraction (significand : Nat) (exponent : Int) : Reader Binary64 := do
  advance
  let ds ← digits
  if ds.isEmpty then
    match ← peek with
    | none => fail .truncated
    | some _ => fail .malformed
  else
    let (total, taken) := accumulate significand ds
    scaled total (exponent - (taken : Int))

def unsigned (positive : Bool) : Reader Numeral := do
  match ← peek with
  | none => fail .truncated
  | some c =>
    if !c.isDigit then fail .malformed
    else
      let ds ← digits
      if c = '0' ∧ ds.length ≠ 1 then fail .malformed
      else
        let (significand, taken) := accumulate 0 ds
        let excess : Int := (ds.length : Int) - (taken : Int)
        match ← peek with
        | some '.' => return .float (signed positive (← fraction significand excess))
        | some 'e' | some 'E' => return .float (signed positive (← exponentPart significand excess))
        | _ =>
          if excess ≠ 0 then return .float (signed positive (← assemble significand excess))
          else if positive then return .natural significand
          else if significand = 0 ∨ 0x8000000000000000 < significand then
            return .float (signed false (.ofNat significand))
          else return .negative (-(significand : Int))

def numeral : Reader Numeral := do
  match ← peek with
  | some '-' => advance; unsigned false
  | _ => unsigned true

end Reader
end StatementCache.Json
