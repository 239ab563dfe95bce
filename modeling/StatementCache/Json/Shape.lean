import StatementCache.Json.Number
import StatementCache.Json.Quoted

/-! Readers for the shapes that a text is expected to have: scalars of a type, arrays, and objects
whose members are collected into a draft. -/
namespace StatementCache.Json.Reader

/-- Refuses what stands here in place of the expected shape. A scalar is read first, and its own
problems win. -/
def mismatch {α : Type} : Reader α := do
  match ← look with
  | none => fail .truncated
  | some 'n' => advance; keyword ['u', 'l', 'l']; fail .mismatched
  | some 't' => advance; keyword ['r', 'u', 'e']; fail .mismatched
  | some 'f' => advance; keyword ['a', 'l', 's', 'e']; fail .mismatched
  | some '"' => advance; discard stringBody; fail .mismatched
  | some '[' | some '\x7b' => fail .mismatched
  | some c =>
    if c = '-' ∨ c.isDigit then do discard numeral; fail .mismatched else fail .malformed

def number : Reader Numeral := do
  match ← look with
  | some c => if c = '-' ∨ c.isDigit then numeral else mismatch
  | none => mismatch

def integer (low high : Int) : Reader Int := do
  match ← number with
  | .natural n => if low ≤ n ∧ n ≤ high then pure (n : Int) else fail .mismatched
  | .negative i => if low ≤ i ∧ i ≤ high then pure i else fail .mismatched
  | .float _ => fail .mismatched

def int64 : Reader Int64 := return Int64.ofInt (← integer (-0x8000000000000000) 0x7fffffffffffffff)

def word : Reader UInt64 := return UInt64.ofNat (← integer 0 0xffffffffffffffff).toNat

def byte : Reader UInt8 := return UInt8.ofNat (← integer 0 255).toNat

def double : Reader Binary64 := do
  match ← number with
  | .natural n => pure (.ofNat n)
  | .negative i => pure (.ofInt i)
  | .float x => pure x

def bool : Reader Bool := do
  match ← look with
  | some 't' => advance; keyword ['r', 'u', 'e']; pure true
  | some 'f' => advance; keyword ['a', 'l', 's', 'e']; pure false
  | _ => mismatch

def string : Reader String := do
  match ← look with
  | some '"' => advance; stringBody
  | _ => mismatch

def null : Reader Unit := do
  match ← look with
  | some 'n' => advance; keyword ['u', 'l', 'l']
  | _ => mismatch

def optional {α : Type} (item : Reader α) : Reader (Option α) := do
  match ← look with
  | some 'n' => advance; keyword ['u', 'l', 'l']; pure none
  | _ => return some (← item)

def position {α : Type} (first : Bool) (item : Reader α) : Reader (Option α) := do
  match ← look with
  | none => fail .truncated
  | some ']' => pure none
  | some c =>
    if first then return some (← item)
    else if c = ',' then
      advance
      match ← look with
      | none => fail .truncated
      | some ']' => fail .malformed
      | some _ => return some (← item)
    else fail .malformed

def positions {α : Type} (item : Reader α) : Nat → Bool → Reader (List α)
  | 0, _ => fail .truncated
  | fuel + 1, first => do
    match ← position first item with
    | none => advance; pure []
    | some a => return a :: (← positions item fuel false)

def items {α : Type} (item : Reader α) : Reader (List α) := do
  let s ← get
  positions item (s.length + 1) true

def closeArray : Reader Unit := punctuation ']'

def array {α : Type} (item : Reader α) : Reader (List α) := do
  match ← look with
  | some '[' => advance; items item
  | _ => mismatch

/-- The name that begins a member. In its place nothing but a string is well formed, so no other
value is read there. -/
def quotedName : Reader String := do
  match ← look with
  | none => fail .truncated
  | some '"' => advance; stringBody
  | some _ => fail .malformed

def memberName (first : Bool) : Reader (Option String) := do
  match ← look with
  | none => fail .truncated
  | some '\x7d' => pure none
  | some c =>
    if first then return some (← quotedName)
    else if c = ',' then
      advance
      return some (← quotedName)
    else fail .malformed

def membersFrom {σ : Type} (member : String → σ → Reader σ) : Nat → Bool → σ → Reader σ
  | 0, _, _ => fail .truncated
  | fuel + 1, first, draft => do
    match ← memberName first with
    | none => advance; pure draft
    | some name => membersFrom member fuel false (← member name draft)

def members {σ : Type} (member : String → σ → Reader σ) (draft : σ) : Reader σ := do
  let s ← get
  membersFrom member (s.length + 1) true draft

def memberValue {α : Type} (item : Reader α) : Reader α := do
  punctuation ':'
  item

/-- A member that may occur once. A second occurrence is refused before its value is read. -/
def once {α : Type} (slot : Option α) (item : Reader α) : Reader (Option α) :=
  match slot with
  | some _ => fail .mismatched
  | none => return some (← memberValue item)

def required {α : Type} : Option α → Reader α
  | some a => pure a
  | none => fail .mismatched

end StatementCache.Json.Reader
