import StatementCache.Binary64.Basic

/-! The shortest decimal that reads back as a given double, and of those of that length the one
nearest to it. -/
namespace StatementCache

/-- The number `digits · 10 ^ exponent`. -/
structure Decimal where
  digits : Nat
  exponent : Int
  deriving DecidableEq

namespace Decimal

def text (d : Decimal) : List Char := Nat.toDigits 10 d.digits

def leading (d : Decimal) : Int := d.text.length + d.exponent - 1

def strip : Nat → Decimal → Decimal
  | 0, d => d
  | fuel + 1, d =>
    if d.digits % 10 = 0 ∧ d.digits ≠ 0 then strip fuel ⟨d.digits / 10, d.exponent + 1⟩ else d

end Decimal

namespace Binary64

/-- `num / den` measures a coefficient of `10 ^ exponent` in quarters of 2⁻¹⁰⁷⁴. -/
def quarters (d : Decimal) : Nat × Nat :=
  if 0 ≤ d.exponent then (d.digits * Nat.pow 10 d.exponent.toNat * Nat.pow 2 1076, 1)
  else (d.digits * Nat.pow 2 1076, Nat.pow 10 (-d.exponent).toNat)

def leadingExponent (x : Binary64) : Int :=
  (Nat.toDigits 10 (x.magnitude * Nat.pow 10 400 / Nat.pow 2 1074)).length - 401

/-- Whether a decimal lies in the interval of reals that round to the positive number `x`: half a
step on each side, a quarter below a power of two, ends included for an even significand. -/
def readsBack (x : Binary64) (d : Decimal) : Bool :=
  let step := Nat.pow 2 x.scale
  let value := 4 * x.magnitude
  let low := value - (if x.fractionField = 0 ∧ 1 < x.exponentField then step else 2 * step)
  let high := value + 2 * step
  let (num, den) := quarters d
  if x.significand % 2 = 0 then decide (low * den ≤ num) && decide (num ≤ high * den)
  else decide (low * den < num) && decide (num < high * den)

/-- The lower neighbour of `x` among the multiples of `10 ^ exponent`, and the tie-breaking
choice between it and the next one when both read back. -/
def onGrid (tie : Tie) (x : Binary64) (exponent : Int) : Option Decimal :=
  let (num, den) := quarters ⟨1, exponent⟩
  let value := 4 * x.magnitude * den
  let below : Decimal := ⟨value / num, exponent⟩
  let above : Decimal := ⟨value / num + 1, exponent⟩
  match readsBack x below, readsBack x above with
  | true, true => some ⟨tie.roundDiv value num, exponent⟩
  | true, false => some below
  | false, true => some above
  | false, false => none

/-- The shortest decimal for a finite number that is not zero, without its sign. Seventeen
digits always suffice, so the last alternative is the exact seventeen-digit rounding. -/
def shortest (tie : Tie) (x : Binary64) : Decimal :=
  let lead := x.leadingExponent
  let grids := (List.range 17).map fun (n : Nat) => lead - n
  ((grids.findSome? (onGrid tie x)).getD
    (let (num, den) := quarters ⟨1, lead - 16⟩
     ⟨tie.roundDiv (4 * x.magnitude * den) num, lead - 16⟩)).strip 17

end Binary64
end StatementCache
