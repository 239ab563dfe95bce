/-! Finite maps as lists of pairs with distinct keys, in the order in which the keys came. -/
namespace StatementCache

structure Table (κ ν : Type) where
  entries : List (κ × ν)
  distinct : (entries.map (·.1)).Nodup

namespace Table

variable {κ ν : Type}

def empty : Table κ ν := ⟨[], .nil⟩

def keys (t : Table κ ν) : List κ := t.entries.map (·.1)

def values (t : Table κ ν) : List ν := t.entries.map (·.2)

def size (t : Table κ ν) : Nat := t.entries.length

variable [DecidableEq κ]

def find (k : κ) : List (κ × ν) → Option ν
  | [] => none
  | (k', v) :: rest => if k' = k then some v else find k rest

def get? (t : Table κ ν) (k : κ) : Option ν := find k t.entries

def contains (t : Table κ ν) (k : κ) : Bool := (t.get? k).isSome

def put (k : κ) (v : ν) : List (κ × ν) → List (κ × ν)
  | [] => [(k, v)]
  | (k', v') :: rest => if k' = k then (k, v) :: rest else (k', v') :: put k v rest

def drop (k : κ) : List (κ × ν) → List (κ × ν)
  | [] => []
  | (k', v) :: rest => if k' = k then rest else (k', v) :: drop k rest

theorem find_eq_none_iff {k : κ} {entries : List (κ × ν)} :
    find k entries = none ↔ k ∉ entries.map (·.1) := by
  induction entries with
  | nil => simp [find]
  | cons e rest ih =>
    simp only [find, List.map_cons, List.mem_cons, not_or]
    split
    · rename_i h; simp [h]
    · rename_i h; simp [ih, Ne.symm h]

theorem find_put {k j : κ} {v : ν} {entries : List (κ × ν)} :
    find j (put k v entries) = if k = j then some v else find j entries := by
  induction entries with
  | nil => simp [put, find]
  | cons e rest ih =>
    simp only [put]
    split
    · rename_i h; subst h; simp only [find]; split <;> rfl
    · rename_i h
      simp only [find, ih]
      by_cases hj : e.1 = j
      · subst hj; simp [Ne.symm h]
      · simp [hj]

theorem put_put {k : κ} {v v' : ν} {entries : List (κ × ν)} :
    put k v' (put k v entries) = put k v' entries := by
  induction entries with
  | nil => simp [put]
  | cons e rest ih =>
    simp only [put]
    split
    · simp [put]
    · rename_i h
      simp only [put, h, if_false, ih]

theorem put_of_find {k : κ} {v : ν} {entries : List (κ × ν)} (h : find k entries = some v) :
    put k v entries = entries := by
  induction entries with
  | nil => cases h
  | cons e rest ih =>
    simp only [find] at h
    simp only [put]
    split
    · rename_i same
      rw [if_pos same, Option.some.injEq] at h
      rw [← same, ← h]
    · rename_i other
      rw [if_neg other] at h
      rw [ih h]

theorem find_drop_of_ne {k j : κ} {entries : List (κ × ν)} (h : k ≠ j) :
    find j (drop k entries) = find j entries := by
  induction entries with
  | nil => rfl
  | cons e rest ih =>
    simp only [drop]
    split
    · rename_i hk; simp [find, hk, h]
    · simp only [find, ih]

theorem keys_put_of_mem {k : κ} {v : ν} {entries : List (κ × ν)} (h : k ∈ entries.map (·.1)) :
    (put k v entries).map (·.1) = entries.map (·.1) := by
  induction entries with
  | nil => simp at h
  | cons e rest ih =>
    simp only [put]
    split
    · rename_i hk; simp [hk]
    · rename_i hk
      simp only [List.map_cons, List.mem_cons] at h ⊢
      rw [ih (h.resolve_left (Ne.symm hk))]

theorem keys_put_of_not_mem {k : κ} {v : ν} {entries : List (κ × ν)}
    (h : k ∉ entries.map (·.1)) : (put k v entries).map (·.1) = entries.map (·.1) ++ [k] := by
  induction entries with
  | nil => rfl
  | cons e rest ih =>
    simp only [List.map_cons, List.mem_cons, not_or] at h
    simp [put, Ne.symm h.1, ih h.2]

theorem keys_drop {k : κ} {entries : List (κ × ν)} :
    (drop k entries).map (·.1) = (entries.map (·.1)).erase k := by
  induction entries with
  | nil => rfl
  | cons e rest ih =>
    simp only [drop, List.map_cons, List.erase_cons, beq_iff_eq]
    split
    · rfl
    · simp [ih]

def filter (t : Table κ ν) (keep : κ → Bool) : Table κ ν where
  entries := t.entries.filter fun e => keep e.1
  distinct := (List.filter_sublist.map _).nodup t.distinct

/-- The key keeps its place when it is there already, and goes to the end otherwise. -/
def insert (t : Table κ ν) (k : κ) (v : ν) : Table κ ν where
  entries := put k v t.entries
  distinct := by
    by_cases h : k ∈ t.entries.map (·.1)
    · rw [keys_put_of_mem h]; exact t.distinct
    · rw [keys_put_of_not_mem h]
      exact List.nodup_append.mpr ⟨t.distinct, by simp,
        fun a ha b hb => by rintro rfl; exact h (List.mem_singleton.mp hb ▸ ha)⟩

def erase (t : Table κ ν) (k : κ) : Table κ ν where
  entries := drop k t.entries
  distinct := by rw [keys_drop]; exact t.distinct.erase k

theorem insert_insert (t : Table κ ν) (k : κ) (v v' : ν) :
    (t.insert k v).insert k v' = t.insert k v' := by
  simp only [insert, put_put]

theorem insert_of_get? {t : Table κ ν} {k : κ} {v : ν} (h : t.get? k = some v) :
    t.insert k v = t := by
  unfold insert
  congr 1
  exact put_of_find h

theorem get?_insert (t : Table κ ν) (k j : κ) (v : ν) :
    (t.insert k v).get? j = if k = j then some v else t.get? j := find_put

theorem get?_erase (t : Table κ ν) (k j : κ) :
    (t.erase k).get? j = if k = j then none else t.get? j := by
  split
  · rename_i h
    subst h
    refine find_eq_none_iff.mpr ?_
    change k ∉ ((drop k t.entries).map (·.1))
    rw [keys_drop]
    exact t.distinct.not_mem_erase
  · rename_i h; exact find_drop_of_ne h

@[simp] theorem get?_empty (k : κ) : (empty : Table κ ν).get? k = none := rfl

@[simp] theorem keys_erase (t : Table κ ν) (k : κ) : (t.erase k).keys = t.keys.erase k := keys_drop

theorem get?_eq_some_iff (t : Table κ ν) (k : κ) (v : ν) :
    t.get? k = some v ↔ (k, v) ∈ t.entries := by
  have distinct := t.distinct
  simp only [get?]
  generalize t.entries = entries at distinct ⊢
  induction entries with
  | nil => simp [find]
  | cons e rest ih =>
    obtain ⟨head, tail⟩ := List.nodup_cons.mp distinct
    simp only [find, List.mem_cons]
    split
    · rename_i same
      have absent : (k, v) ∉ rest := fun h => head (List.mem_map.mpr ⟨_, h, same.symm⟩)
      simp [absent, Prod.ext_iff, same, eq_comm]
    · rename_i other
      simp [ih tail, Prod.ext_iff, Ne.symm other]

theorem mem_keys_iff (t : Table κ ν) (k : κ) : k ∈ t.keys ↔ t.get? k ≠ none := by
  rw [get?, ne_eq, find_eq_none_iff, Classical.not_not]; rfl

end Table
end StatementCache
