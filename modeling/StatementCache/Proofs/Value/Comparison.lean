import StatementCache.Proofs.Value.Rounding

/-! When a comparison says that two values are equal. It agrees with equality on all kinds that are
ordered; beside that, an integer compares equal to the float that it is rounded to, which it never
is equal to. -/
namespace StatementCache

namespace Binary64

theorem numEq_comm (x y : Binary64) : x.numEq y = y.numEq x := by
  rw [numEq, numEq, Bool.and_comm (!x.isNaN), Bool.beq_comm]

end Binary64

namespace Scalar

variable {n : Int64} {x : Binary64}

def isOrdered : Scalar → Bool
  | .null | .bytes _ => false
  | _ => true

def RoundsTo (a b : Scalar) : Prop :=
  ∃ n x, a = .integer n ∧ b = .float x ∧ Binary64.RoundsTo (Binary64.unitsOf n.toInt) x

theorem roundsTo_iff :
    RoundsTo (.integer n) (.float x) ↔ (Binary64.ofInt n.toInt).numEq x = true := by
  have small : n.toInt.natAbs < UInt64.size := by
    have low := n.le_toInt
    have high := n.toInt_lt
    simp only [UInt64.size]
    omega
  rw [← Binary64.roundsTo_unitsOf_iff small]
  constructor
  · rintro ⟨_, _, ⟨⟩, ⟨⟩, rounds⟩
    exact rounds
  · exact fun rounds => ⟨n, x, rfl, rfl, rounds⟩

theorem compare?_eq_some_eq_iff (a b : Scalar) : a.compare? b = some .eq ↔
    a.isOrdered = true ∧ a.equal b = true ∨ a.RoundsTo b ∨ b.RoundsTo a := by
  have bool (p q : Bool) : compare p.toNat q.toNat = .eq ↔ p = q := by
    cases p <;> cases q <;> decide
  cases a with
  | integer n =>
    cases b with
    | integer m => simp [compare?, isOrdered, equal, RoundsTo]
    | float x =>
      rw [roundsTo_iff, ← Binary64.compare?_eq_some_eq_iff]
      simp [compare?, equal, RoundsTo]
    | _ => simp [compare?, equal, RoundsTo]
  | float x =>
    cases b with
    | integer n =>
      rw [roundsTo_iff, Binary64.numEq_comm, ← Binary64.compare?_eq_some_eq_iff]
      simp [compare?, equal, RoundsTo]
    | float y => simp [compare?, isOrdered, equal, RoundsTo, Binary64.compare?_eq_some_eq_iff]
    | _ => simp [compare?, equal, RoundsTo]
  | bool p => cases b <;> simp [compare?, isOrdered, equal, RoundsTo, bool]
  | text s => cases b <;> simp [compare?, isOrdered, equal, RoundsTo]
  | timestamp t => cases b <;> simp [compare?, isOrdered, equal, RoundsTo]
  | bytes _ | null => cases b <;> simp [compare?, isOrdered, RoundsTo]

end Scalar

namespace Value

def isOrdered : Value → Bool
  | .scalar s => s.isOrdered
  | .list _ => false

def RoundsTo : Value → Value → Prop
  | .scalar a, .scalar b => a.RoundsTo b
  | _, _ => False

/-- No float in the value, however deep in lists, is NaN. -/
def NaNFree (v : Value) : Prop := ∀ x, Scalar.float x ∈ v.flatten → x.isNaN = false

/-- Two values compare equal where they are equal and of an ordered kind, or where one is an integer
and the other the float that it is rounded to. Values of the latter sort are never equal. -/
theorem compares_equal_iff (a b : Value) :
    (a.compare? b = some .eq ↔
      a.isOrdered = true ∧ a.equal b = true ∨ a.RoundsTo b ∨ b.RoundsTo a) ∧
    (a.RoundsTo b ∨ b.RoundsTo a → a.equal b = false) := by
  cases a with
  | list items => simp [compare?, isOrdered, RoundsTo]
  | scalar a =>
    cases b with
    | list items => simp [compare?, isOrdered, equal, RoundsTo]
    | scalar b =>
      refine ⟨?_, ?_⟩
      · simpa only [compare?, isOrdered, equal, RoundsTo] using Scalar.compare?_eq_some_eq_iff a b
      · rintro (⟨n, x, rfl, rfl, -⟩ | ⟨n, x, rfl, rfl, -⟩) <;> rfl

/-- The integer lies half way between two floats, and the float has the even significand. -/
example : (Value.integer 9007199254740993).compare? (.scalar (.float ⟨0x4340000000000000⟩)) =
    some .eq := by
  decide +kernel

/-- Nulls are equal and do not compare; the integer one compares equal to the float one, and they
are not equal. -/
theorem comparison_parts_from_equality :
    let one : Value := .integer 1
    let float : Value := .scalar (.float ⟨0x3ff0000000000000⟩)
    (null.NaNFree ∧ null.equal null = true ∧ null.compare? null = none) ∧
      (one.NaNFree ∧ float.NaNFree ∧ one.compare? float = some .eq ∧ one.equal float = false) := by
  intro one float
  have free : float.NaNFree := by
    intro x mem
    cases List.mem_singleton.mp mem
    decide
  refine ⟨⟨fun x mem => ?_, rfl, rfl⟩, fun x mem => ?_, free, by decide +kernel, rfl⟩
  · cases List.mem_singleton.mp mem
  · cases List.mem_singleton.mp mem

end Value
end StatementCache
