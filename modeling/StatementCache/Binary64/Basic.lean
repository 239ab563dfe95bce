/-! Double-precision numbers as bit patterns. Every finite number is an integer multiple of the
least positive one, 2⁻¹⁰⁷⁴, so comparison and rounding are exact integer arithmetic and a bit
pattern is never changed by being stored, compared or copied. -/
namespace StatementCache

/-- Two patterns are equal as data exactly when their bits agree; numeric equality is
`Binary64.numEq`. -/
structure Binary64 where
  bits : UInt64
  deriving DecidableEq, Inhabited

inductive Tie where
  | toEven
  | up
  deriving DecidableEq

def Tie.roundDiv (tie : Tie) (num den : Nat) : Nat :=
  let floor := num / den
  match compare (2 * (num % den)) den, tie with
  | .lt, _ => floor
  | .gt, _ => floor + 1
  | .eq, .up => floor + 1
  | .eq, .toEven => if floor % 2 = 0 then floor else floor + 1

namespace Binary64

def hiddenBit : Nat := 0x10000000000000

def negative (x : Binary64) : Bool := decide (0x8000000000000000 ≤ x.bits.toNat)

def exponentField (x : Binary64) : Nat := x.bits.toNat / hiddenBit % 2048

def fractionField (x : Binary64) : Nat := x.bits.toNat % hiddenBit

def isNaN (x : Binary64) : Bool := x.exponentField == 2047 && x.fractionField != 0

def isInfinite (x : Binary64) : Bool := x.exponentField == 2047 && x.fractionField == 0

def significand (x : Binary64) : Nat :=
  if x.exponentField = 0 then x.fractionField else hiddenBit + x.fractionField

/-- The number of doublings of the significand, counted from 2⁻¹⁰⁷⁴. -/
def scale (x : Binary64) : Nat := x.exponentField - 1

/-- The absolute value in units of 2⁻¹⁰⁷⁴; an infinity exceeds every finite number. -/
def magnitude (x : Binary64) : Nat := x.significand * Nat.pow 2 x.scale

def units (x : Binary64) : Int := if x.negative then -x.magnitude else x.magnitude

def compare? (x y : Binary64) : Option Ordering :=
  if x.isNaN || y.isNaN then none else some (compare x.units y.units)

/-- Numeric equality: NaN differs from itself and the two zeros agree. -/
def numEq (x y : Binary64) : Bool := !x.isNaN && !y.isNaN && x.units == y.units

theorem compare?_eq_some_eq_iff (x y : Binary64) : x.compare? y = some .eq ↔ x.numEq y = true := by
  cases hx : x.isNaN <;> cases hy : y.isNaN <;> simp [compare?, numEq, hx, hy]

def ofFields (neg : Bool) (rest : Nat) : Binary64 :=
  ⟨UInt64.ofNat (if neg then 0x8000000000000000 + rest else rest)⟩

def infinity (neg : Bool) : Binary64 := ofFields neg (2047 * hiddenBit)

def zero : Binary64 := ofFields false 0

/-- The number nearest to `num / den` (`0 < den`), ties to an even significand, an infinity when
the rounded result leaves the range. -/
def ofRatio (neg : Bool) (num den : Nat) : Binary64 :=
  let scaled := num * Nat.pow 2 1074
  let length := if scaled / den = 0 then 0 else (scaled / den).log2 + 1
  let scale := length - 53
  let rest := scale * hiddenBit + Tie.toEven.roundDiv scaled (den * Nat.pow 2 scale)
  if 2047 * hiddenBit ≤ rest then infinity neg else ofFields neg rest

def ofInt (i : Int) : Binary64 := ofRatio (decide (i < 0)) i.natAbs 1

def ofNat (n : Nat) : Binary64 := ofRatio false n 1

def quotient (x y : Binary64) : Binary64 := ofRatio false x.magnitude y.magnitude

def product (x y : Binary64) : Binary64 := ofRatio false (x.magnitude * y.magnitude) (Nat.pow 2 2148)

def neg (x : Binary64) : Binary64 := ⟨x.bits ^^^ 0x8000000000000000⟩

end Binary64
end StatementCache
