import Mathlib.Tactic.Ring
import StatementCache.Value.Basic

/-! Which float an integer is rounded to. No finite float is nearer to the integer, and of two that
are equally near it is the one with an even significand; that alone determines its value. -/
namespace StatementCache

/-- No multiple of `den` is nearer to `num` than `q * den`, and where another one is as near, `q` is
even. -/
structure Tie.RoundsEven (q num den : Nat) : Prop where
  above : 2 * (q * den) ≤ 2 * num + den
  below : 2 * num ≤ 2 * (q * den) + den
  even : 2 * (q * den) = 2 * num + den ∨ 2 * num = 2 * (q * den) + den → q % 2 = 0

namespace Tie

variable {q k num den : Nat}

theorem roundsEven_roundDiv (num : Nat) (positive : 0 < den) :
    RoundsEven (toEven.roundDiv num den) num den := by
  have split : num / den * den + num % den = num := Nat.div_add_mod' num den
  have small : num % den < den := Nat.mod_lt _ positive
  have next : (num / den + 1) * den = num / den * den + den := by ring
  cases side : compare (2 * (num % den)) den with
  | lt =>
    have near : 2 * (num % den) < den := compare_lt_iff_lt.mp side
    simp only [roundDiv, side]
    exact ⟨by omega, by omega, by omega⟩
  | gt =>
    have far : den < 2 * (num % den) := compare_gt_iff_gt.mp side
    simp only [roundDiv, side]
    exact ⟨by omega, by omega, by omega⟩
  | eq =>
    have middle : 2 * (num % den) = den := compare_eq_iff_eq.mp side
    simp only [roundDiv, side]
    split <;> exact ⟨by omega, by omega, by omega⟩

theorem RoundsEven.nearest (h : RoundsEven q num den) (k : Nat) :
    ((q * den : Nat) - num : Int).natAbs ≤ ((k * den : Nat) - num : Int).natAbs ∧
      (((k * den : Nat) - num : Int).natAbs = ((q * den : Nat) - num : Int).natAbs →
        k * den = q * den ∨ q % 2 = 0 ∧ k % 2 = 1) := by
  obtain ⟨above, below, even⟩ := h
  rcases Nat.lt_trichotomy k q with less | rfl | more
  · obtain ⟨d, rfl⟩ := Nat.exists_eq_add_of_lt less
    have far : (k + d + 1) * den = k * den + d * den + den := by ring
    rcases Nat.eq_zero_or_pos d with rfl | further
    · omega
    · have : den ≤ d * den := Nat.le_mul_of_pos_left den further
      omega
  · omega
  · obtain ⟨d, rfl⟩ := Nat.exists_eq_add_of_lt more
    have far : (q + d + 1) * den = q * den + d * den + den := by ring
    rcases Nat.eq_zero_or_pos d with rfl | further
    · omega
    · have : den ≤ d * den := Nat.le_mul_of_pos_left den further
      omega

theorem RoundsEven.le_of_lt {m : Nat} (h : RoundsEven q num den) (less : num < m * den) :
    q ≤ m := by
  have above := h.above
  by_contra more
  have : (m + 1) * den ≤ q * den := Nat.mul_le_mul_right den (Nat.not_le.mp more)
  have next : (m + 1) * den = m * den + den := by ring
  omega

theorem RoundsEven.ge_of_ge {m : Nat} (h : RoundsEven q num den) (positive : 0 < den)
    (more : m * den ≤ num) : m ≤ q := by
  have below := h.below
  by_contra less
  have : (q + 1) * den ≤ m * den := Nat.mul_le_mul_right den (Nat.not_le.mp less)
  have next : (q + 1) * den = q * den + den := by ring
  omega

end Tie

namespace Binary64

variable {x y : Binary64} {t : Int} {v s q : Nat}

def IsFinite (x : Binary64) : Prop := x.exponentField ≠ 2047

theorem significand_lt (x : Binary64) : x.significand < 2 * hiddenBit := by
  have : x.fractionField < hiddenBit := Nat.mod_lt _ (by decide)
  unfold significand
  split <;> omega

theorem hiddenBit_le_significand (shifted : x.scale ≠ 0) : hiddenBit ≤ x.significand := by
  unfold scale at shifted
  rw [significand, if_neg (by omega)]
  exact Nat.le_add_right _ _

theorem magnitude_lt_of_scale_lt (below : x.scale < s) : x.magnitude < hiddenBit * Nat.pow 2 s :=
  calc x.magnitude < 2 * hiddenBit * Nat.pow 2 x.scale :=
        Nat.mul_lt_mul_of_pos_right x.significand_lt (Nat.pow_pos (by decide))
    _ = hiddenBit * Nat.pow 2 (x.scale + 1) := by simp only [Nat.pow_eq, pow_succ]; ring
    _ ≤ hiddenBit * Nat.pow 2 s := Nat.mul_le_mul_left _ (Nat.pow_le_pow_right (by decide) below)

theorem magnitude_of_le_scale (above : s ≤ x.scale) :
    x.magnitude = x.significand * Nat.pow 2 (x.scale - s) * Nat.pow 2 s := by
  obtain ⟨j, more⟩ := Nat.exists_eq_add_of_le above
  rw [magnitude, more, Nat.add_sub_cancel_left]
  simp only [Nat.pow_eq, pow_add]
  ring

theorem significand_eq_of_magnitude_eq (same : x.magnitude = y.magnitude) :
    x.significand = y.significand ∧ x.scale = y.scale := by
  have notBelow {x y : Binary64} (same : x.magnitude = y.magnitude) : ¬x.scale < y.scale := by
    intro below
    have large : hiddenBit * Nat.pow 2 y.scale ≤ y.magnitude :=
      Nat.mul_le_mul_right _ (hiddenBit_le_significand (by omega))
    exact absurd (magnitude_lt_of_scale_lt below) (Nat.not_lt.mpr (same ▸ large))
  have level : x.scale = y.scale :=
    Nat.le_antisymm (Nat.not_lt.mp (notBelow same.symm)) (Nat.not_lt.mp (notBelow same))
  rw [magnitude, magnitude, level] at same
  exact ⟨Nat.eq_of_mul_eq_mul_right (Nat.pow_pos (by decide)) same, level⟩

theorem fields_ofFields (neg : Bool) {rest : Nat} (small : rest < 2047 * hiddenBit) :
    (ofFields neg rest).negative = neg ∧ (ofFields neg rest).exponentField = rest / hiddenBit ∧
      (ofFields neg rest).fractionField = rest % hiddenBit := by
  simp only [hiddenBit] at small
  cases neg with
  | false =>
    have bits : (ofFields false rest).bits.toNat = rest := by
      simp only [ofFields, Bool.false_eq_true, if_false, UInt64.toNat_ofNat']
      omega
    simp only [negative, exponentField, fractionField, bits, hiddenBit, decide_eq_false_iff_not]
    exact ⟨by omega, by omega, trivial⟩
  | true =>
    have bits : (ofFields true rest).bits.toNat = 0x8000000000000000 + rest := by
      simp only [ofFields, if_true, UInt64.toNat_ofNat']
      omega
    simp only [negative, exponentField, fractionField, bits, hiddenBit, decide_eq_true_eq]
    omega

/-- The significand is counted in one sum with the exponent, so one that is rounded up to the next
power of two moves the exponent. -/
theorem magnitude_of_fields (least : s = 0 ∨ hiddenBit ≤ q) (most : q ≤ 2 * hiddenBit)
    (exponent : x.exponentField = s + q / hiddenBit) (fraction : x.fractionField = q % hiddenBit) :
    x.magnitude = q * Nat.pow 2 s ∧ (q % 2 = 0 → x.significand % 2 = 0) := by
  rcases Nat.lt_or_ge q hiddenBit with subnormal | normal
  · obtain rfl : s = 0 := least.resolve_right (Nat.not_le.mpr subnormal)
    have zero : q / hiddenBit = 0 := Nat.div_eq_of_lt subnormal
    have same : q % hiddenBit = q := Nat.mod_eq_of_lt subnormal
    simp [magnitude, significand, scale, exponent, fraction, zero, same]
  · rcases Nat.lt_or_eq_of_le most with below | rfl
    · have one : q / hiddenBit = 1 := by simp only [hiddenBit] at *; omega
      have above : hiddenBit + q % hiddenBit = q := by simp only [hiddenBit] at *; omega
      simp [magnitude, significand, scale, exponent, fraction, one, above]
    · have two : 2 * hiddenBit / hiddenBit = 2 := by decide
      have none : 2 * hiddenBit % hiddenBit = 0 := by decide
      have even : hiddenBit % 2 = 0 := by decide
      have double : hiddenBit * 2 ^ (s + 1) = 2 * hiddenBit * 2 ^ s := by ring
      simp [magnitude, significand, scale, exponent, fraction, two, none, even, double]

def gridScale (v : Nat) : Nat := (if v = 0 then 0 else v.log2 + 1) - 53

theorem gridScale_spec (v : Nat) : v < 2 * hiddenBit * Nat.pow 2 (gridScale v) ∧
    (gridScale v = 0 ∨ hiddenBit * Nat.pow 2 (gridScale v) ≤ v) := by
  have hidden : hiddenBit = 2 ^ 52 := by decide
  have double (k : Nat) : 2 * hiddenBit * 2 ^ k = 2 ^ (k + 53) := by rw [hidden]; ring
  have single (k : Nat) : hiddenBit * 2 ^ k = 2 ^ (k + 52) := by rw [hidden]; ring
  simp only [Nat.pow_eq, double, single, gridScale]
  by_cases zero : v = 0
  · simp [zero]
  · simp only [zero, if_false]
    have low := Nat.log2_self_le zero
    have high := @Nat.lt_log2_self v
    rcases Nat.lt_or_ge 52 v.log2 with long | short
    · have digits : v.log2 + 1 - 53 + 52 = v.log2 := by omega
      rw [digits, ← Nat.add_assoc _ 52 1, digits]
      exact ⟨high, .inr low⟩
    · have none : v.log2 + 1 - 53 = 0 := by omega
      rw [none]
      exact ⟨Nat.lt_of_lt_of_le high (Nat.pow_le_pow_right (by decide) (by omega)), .inl rfl⟩

/-- Rounding to multiples of a power of two is rounding to any float, as long as what is rounded has
53 digits before them. -/
theorem nearest_of_roundsEven (rounded : Tie.RoundsEven q v (Nat.pow 2 s))
    (digits : s = 0 ∨ hiddenBit * Nat.pow 2 s ≤ v) (y : Binary64) :
    ((q * Nat.pow 2 s : Nat) - v : Int).natAbs ≤ (y.magnitude - v : Int).natAbs ∧
      ((y.magnitude - v : Int).natAbs = ((q * Nat.pow 2 s : Nat) - v : Int).natAbs →
        y.magnitude = q * Nat.pow 2 s ∨ q % 2 = 0 ∧ y.significand % 2 = 1) := by
  rcases Nat.lt_or_ge y.scale s with below | above
  · -- a number without room for the digits is farther away than the least one with room
    have short := magnitude_lt_of_scale_lt below
    have least := (rounded.nearest hiddenBit).1
    have : hiddenBit * Nat.pow 2 s ≤ v := digits.resolve_left (by omega)
    omega
  · have multiple := magnitude_of_le_scale above
    obtain ⟨near, tie⟩ := rounded.nearest (y.significand * Nat.pow 2 (y.scale - s))
    rw [multiple]
    refine ⟨near, fun equal => (tie equal).imp_right fun ⟨even, odd⟩ => ⟨even, ?_⟩⟩
    by_contra other
    have : (y.significand * Nat.pow 2 (y.scale - s)) % 2 = 0 := by
      rw [Nat.mul_mod, Nat.mod_two_ne_one.mp other, Nat.zero_mul, Nat.zero_mod]
    omega

def ofUnits (t : Int) : Binary64 :=
  let rest := gridScale t.natAbs * hiddenBit +
    Tie.toEven.roundDiv t.natAbs (Nat.pow 2 (gridScale t.natAbs))
  if 2047 * hiddenBit ≤ rest then infinity (decide (t < 0)) else ofFields (decide (t < 0)) rest

theorem ofUnits_spec (range : gridScale t.natAbs < 2045) :
    (ofUnits t).negative = decide (t < 0) ∧ (ofUnits t).IsFinite ∧
      ∃ q s, Tie.RoundsEven q t.natAbs (Nat.pow 2 s) ∧
        (s = 0 ∨ hiddenBit * Nat.pow 2 s ≤ t.natAbs) ∧
        (ofUnits t).magnitude = q * Nat.pow 2 s ∧
          (q % 2 = 0 → (ofUnits t).significand % 2 = 0) := by
  rw [ofUnits]
  generalize t.natAbs = v at range
  have positive : 0 < Nat.pow 2 (gridScale v) := Nat.pow_pos (by decide)
  obtain ⟨shorter, digits⟩ := gridScale_spec v
  have rounded := Tie.roundsEven_roundDiv v positive
  generalize Tie.toEven.roundDiv v (Nat.pow 2 (gridScale v)) = q at rounded
  have most : q ≤ 2 * hiddenBit := rounded.le_of_lt shorter
  have least : gridScale v = 0 ∨ hiddenBit ≤ q := digits.imp_right (rounded.ge_of_ge positive)
  have inside : gridScale v * hiddenBit + q < 2047 * hiddenBit := by
    simp only [hiddenBit] at most ⊢
    omega
  rw [if_neg (Nat.not_le.mpr inside)]
  obtain ⟨sign, exponent, fraction⟩ := fields_ofFields (decide (t < 0)) inside
  have field : (gridScale v * hiddenBit + q) / hiddenBit = gridScale v + q / hiddenBit := by
    rw [Nat.add_comm, Nat.add_mul_div_right _ _ (by decide), Nat.add_comm]
  rw [field] at exponent
  rw [Nat.add_comm, Nat.add_mul_mod_self_right, Nat.add_comm] at fraction
  refine ⟨sign, ?_, q, gridScale v, rounded, digits,
    magnitude_of_fields least most exponent fraction⟩
  rw [IsFinite, exponent]
  simp only [hiddenBit] at most ⊢
  omega

def distance (t : Int) (x : Binary64) : Nat := (x.units - t).natAbs

/-- The float is what the number is rounded to: it is finite, no finite float is nearer to the
number, and where another one is as near its significand is even. -/
structure RoundsTo (t : Int) (x : Binary64) : Prop where
  finite : x.IsFinite
  nearest : ∀ y : Binary64, y.IsFinite → distance t x ≤ distance t y
  even : ∀ y : Binary64, y.IsFinite → distance t y = distance t x →
    y.units = x.units ∨ x.significand % 2 = 0

theorem distance_ofUnits (range : gridScale t.natAbs < 2045) (y : Binary64) :
    distance t (ofUnits t) ≤ distance t y ∧ (distance t y = distance t (ofUnits t) →
      y.units = (ofUnits t).units ∨ (ofUnits t).significand % 2 = 0 ∧ y.significand % 2 = 1) := by
  obtain ⟨sign, -, q, s, rounded, digits, magnitude, even⟩ := ofUnits_spec range
  obtain ⟨near, tie⟩ := nearest_of_roundsEven rounded digits y
  have zero := (rounded.nearest 0).1
  rw [← magnitude] at near tie zero
  simp only [distance, units, sign, decide_eq_true_eq]
  generalize (ofUnits t).magnitude = m at near tie zero
  generalize y.magnitude = n at near tie
  split <;> split <;> omega

theorem roundsTo_ofUnits (range : gridScale t.natAbs < 2045) : RoundsTo t (ofUnits t) where
  finite := (ofUnits_spec range).2.1
  nearest y _ := (distance_ofUnits range y).1
  even y _ near := ((distance_ofUnits range y).2 near).imp_right And.left

theorem units_ofUnits (range : gridScale t.natAbs < 2045) (h : RoundsTo t x) :
    x.units = (ofUnits t).units := by
  have spec := roundsTo_ofUnits range
  have level : distance t x = distance t (ofUnits t) :=
    Nat.le_antisymm (h.nearest _ spec.finite) (spec.nearest _ h.finite)
  rcases (distance_ofUnits range x).2 level with same | ⟨-, odd⟩
  · exact same
  · rcases h.even _ spec.finite level.symm with same | even
    · exact same.symm
    · omega

theorem RoundsTo.congr (h : RoundsTo t x) (same : y.units = x.units) : RoundsTo t y := by
  have magnitude : y.magnitude = x.magnitude := by
    simp only [units] at same
    split at same <;> split at same <;> omega
  obtain ⟨significand, scale⟩ := significand_eq_of_magnitude_eq magnitude
  have distances : distance t y = distance t x := by rw [distance, distance, same]
  refine ⟨?_, fun z hz => distances ▸ h.nearest z hz, fun z hz near => ?_⟩
  · have finite := h.finite
    unfold IsFinite Binary64.scale at *
    omega
  · rw [same, significand]
    exact h.even z hz (near.trans distances)

theorem not_isNaN (h : x.IsFinite) : x.isNaN = false := by
  simp [isNaN, beq_false_of_ne h]

/-- The rule of rounding leaves one value, that of `ofUnits`. -/
theorem roundsTo_iff (range : gridScale t.natAbs < 2045) :
    RoundsTo t x ↔ (ofUnits t).numEq x = true := by
  have spec := roundsTo_ofUnits range
  have number := not_isNaN spec.finite
  constructor
  · intro h
    simp [numEq, number, not_isNaN h.finite, units_ofUnits range h]
  · intro equal
    simp only [numEq, number, Bool.and_eq_true, beq_iff_eq] at equal
    exact spec.congr equal.2.symm

def unitPlaces : Nat := 1074

def unitsOf (i : Int) : Int := i * (Nat.pow 2 unitPlaces : Nat)

theorem natAbs_unitsOf (i : Int) : (unitsOf i).natAbs = i.natAbs * Nat.pow 2 unitPlaces := by
  rw [unitsOf, Int.natAbs_mul, Int.natAbs_natCast]

theorem unitsOf_neg_iff (i : Int) : unitsOf i < 0 ↔ i < 0 := by
  have scaled (k : Nat) : i * (Nat.pow 2 k : Nat) < 0 ↔ i < 0 := by
    have positive : 0 < ((Nat.pow 2 k : Nat) : Int) := Int.natCast_pos.mpr (Nat.pow_pos (by decide))
    refine ⟨fun below => ?_, fun below => Int.mul_neg_of_neg_of_pos below positive⟩
    by_contra above
    have := Int.mul_nonneg (Int.not_lt.mp above) (Int.le_of_lt positive)
    omega
  exact scaled unitPlaces

theorem ofInt_eq_ofUnits (i : Int) : ofInt i = ofUnits (unitsOf i) := by
  have places : 1074 = unitPlaces := rfl
  simp only [ofInt, ofRatio, ofUnits, gridScale, natAbs_unitsOf, unitsOf_neg_iff, places,
    Nat.div_one, Nat.one_mul]

theorem gridScale_unitsOf {i : Int} (small : i.natAbs < UInt64.size) :
    gridScale (unitsOf i).natAbs < 2045 := by
  have bound (k : Nat) : gridScale (i.natAbs * Nat.pow 2 k) < k + 12 := by
    rcases (gridScale_spec (i.natAbs * Nat.pow 2 k)).2 with zero | digits
    · omega
    · have less : 2 ^ (gridScale (i.natAbs * Nat.pow 2 k) + 52) < 2 ^ (k + 64) :=
        calc 2 ^ (gridScale (i.natAbs * Nat.pow 2 k) + 52)
            = hiddenBit * 2 ^ gridScale (i.natAbs * Nat.pow 2 k) := by
              rw [show hiddenBit = 2 ^ 52 by decide]; ring
          _ ≤ i.natAbs * 2 ^ k := digits
          _ < UInt64.size * 2 ^ k := Nat.mul_lt_mul_of_pos_right small (Nat.pow_pos (by decide))
          _ = 2 ^ (k + 64) := by rw [show UInt64.size = 2 ^ 64 by decide]; ring
      have := (Nat.pow_lt_pow_iff_right (by decide)).mp less
      omega
  rw [natAbs_unitsOf]
  exact Nat.lt_trans (bound unitPlaces) (by decide)

theorem roundsTo_unitsOf_iff {i : Int} (small : i.natAbs < UInt64.size) :
    RoundsTo (unitsOf i) x ↔ (ofInt i).numEq x = true := by
  rw [ofInt_eq_ofUnits]
  exact roundsTo_iff (gridScale_unitsOf small)

end Binary64
end StatementCache
