import StatementCache.Proofs.Contents.Demand
import StatementCache.Table

/-! What comes before what in a run, and the order in which steps mark keys. It is read off the run
itself; no bookkeeping occurs in it. -/
namespace StatementCache

namespace Table

variable {κ ν : Type} [DecidableEq κ]

def eraseAll (t : Table κ ν) (ks : List κ) : Table κ ν := ks.foldl erase t

@[simp] theorem eraseAll_nil (t : Table κ ν) : t.eraseAll [] = t := rfl

@[simp] theorem eraseAll_cons (t : Table κ ν) (k : κ) (ks : List κ) :
    t.eraseAll (k :: ks) = (t.erase k).eraseAll ks := rfl

theorem get?_eraseAll (t : Table κ ν) (ks : List κ) (k : κ) :
    (t.eraseAll ks).get? k = if k ∈ ks then none else t.get? k := by
  induction ks generalizing t with
  | nil => simp
  | cons j ks ih =>
    rw [eraseAll_cons, ih, get?_erase]
    by_cases same : k = j
    · subst same
      simp
    · simp [same, Ne.symm same]

theorem get?_of_erase {t : Table κ ν} {j k : κ} {v : ν} (h : (t.erase j).get? k = some v) :
    t.get? k = some v := by
  rw [get?_erase] at h
  split at h
  · cases h
  · exact h

theorem get?_of_eraseAll {t : Table κ ν} {ks : List κ} {k : κ} {v : ν}
    (h : (t.eraseAll ks).get? k = some v) : t.get? k = some v := by
  induction ks generalizing t with
  | nil => exact h
  | cons j ks ih => exact get?_of_erase (ih h)

theorem mem_keys_eraseAll {t : Table κ ν} {ks : List κ} {k : κ} :
    k ∈ (t.eraseAll ks).keys ↔ k ∈ t.keys ∧ k ∉ ks := by
  simp only [mem_keys_iff, get?_eraseAll]
  by_cases there : k ∈ ks <;> simp [there]

theorem mem_keys_iff_exists {t : Table κ ν} {k : κ} : k ∈ t.keys ↔ ∃ v, t.get? k = some v := by
  rw [mem_keys_iff]
  exact Option.ne_none_iff_exists'

theorem mem_keys_insert {t : Table κ ν} {j k : κ} {v : ν} :
    j ∈ (t.insert k v).keys ↔ j = k ∨ j ∈ t.keys := by
  simp only [mem_keys_iff, get?_insert]
  by_cases same : k = j
  · simp [same]
  · simp [same, Ne.symm same]

omit [DecidableEq κ] in
theorem size_eq_length {t : Table κ ν} {ks : List κ} (distinct : ks.Nodup)
    (same : ∀ k, k ∈ ks ↔ k ∈ t.keys) : t.size = ks.length := by
  have perm : t.keys.Perm ks := (List.perm_ext_iff_of_nodup t.distinct distinct).mpr fun k =>
    (same k).symm
  rw [← perm.length_eq]
  exact (List.length_map ..).symm

end Table

namespace Action

variable {ι σ α : Type} (step : ι → Action σ α) (start : σ)

theorem played_append (steps later : List ι) (s : σ) :
    played step (steps ++ later) s = played step later (played step steps s) :=
  List.foldl_append ..

def Occurs (P : ι → σ → Prop) (steps : List ι) (n : Nat) : Prop :=
  ∃ i, steps[n]? = some i ∧ P i (played step (steps.take n) start)

def Later (P Q : ι → σ → Prop) (steps : List ι) : Prop :=
  ∃ n, Occurs step start P steps n ∧ ∀ m, Occurs step start Q steps m → m < n

/-- The latest step that has `P`, after which no step has `Q`. -/
def Since (P Q : ι → Prop) (steps : List ι) : Prop :=
  ∃ before i after, steps = before ++ i :: after ∧ P i ∧ ∀ j ∈ after, ¬Q j

variable {step start} {P Q : ι → σ → Prop} {steps : List ι} {i : ι}

theorem occurs_concat {n : Nat} :
    Occurs step start P (steps ++ [i]) n ↔
      Occurs step start P steps n ∨ n = steps.length ∧ P i (played step steps start) := by
  obtain earlier | rfl | beyond := Nat.lt_trichotomy n steps.length
  · simp only [Occurs, List.getElem?_append_left earlier,
      List.take_append_of_le_length (Nat.le_of_lt earlier), Nat.ne_of_lt earlier, false_and,
      or_false]
  · simp [Occurs]
  · have out : (steps ++ [i])[n]? = none :=
      List.getElem?_eq_none (by simp only [List.length_append, List.length_singleton]; omega)
    have out' : steps[n]? = none := List.getElem?_eq_none (Nat.le_of_lt beyond)
    simp [Occurs, out, out', Nat.ne_of_gt beyond]

theorem Occurs.lt_length {n : Nat} (h : Occurs step start P steps n) : n < steps.length := by
  obtain ⟨i, there, -⟩ := h
  exact (List.getElem?_eq_some_iff.mp there).1

theorem Later.concat (h : Later step start P Q steps) (quiet : ¬Q i (played step steps start)) :
    Later step start P Q (steps ++ [i]) := by
  obtain ⟨n, at_n, after⟩ := h
  refine ⟨n, occurs_concat.mpr (.inl at_n), fun m at_m => ?_⟩
  obtain before | ⟨-, now⟩ := occurs_concat.mp at_m
  · exact after m before
  · exact absurd now quiet

theorem later_concat (now : P i (played step steps start))
    (quiet : ¬Q i (played step steps start)) : Later step start P Q (steps ++ [i]) := by
  refine ⟨steps.length, occurs_concat.mpr (.inr ⟨rfl, now⟩), fun m at_m => ?_⟩
  obtain before | ⟨-, now⟩ := occurs_concat.mp at_m
  · exact before.lt_length
  · exact absurd now quiet

theorem later_concat_iff : Later step start P Q (steps ++ [i]) ↔
    (P i (played step steps start) ∨ Later step start P Q steps) ∧
      ¬Q i (played step steps start) := by
  constructor
  · rintro ⟨n, at_n, after⟩
    have quiet : ¬Q i (played step steps start) := fun now => by
      have last := after steps.length (occurs_concat.mpr (.inr ⟨rfl, now⟩))
      have within := at_n.lt_length
      rw [List.length_append, List.length_singleton] at within
      omega
    obtain before | ⟨-, now⟩ := occurs_concat.mp at_n
    · exact ⟨.inr ⟨n, before, fun m at_m => after m (occurs_concat.mpr (.inl at_m))⟩, quiet⟩
    · exact ⟨.inl now, quiet⟩
  · rintro ⟨now | before, quiet⟩
    · exact later_concat now quiet
    · exact before.concat quiet

theorem since_concat {P Q : ι → Prop} :
    Since P Q (steps ++ [i]) ↔ P i ∨ Since P Q steps ∧ ¬Q i := by
  constructor
  · rintro ⟨before, j, after, split, done, untouched⟩
    obtain rfl | ⟨rest, last, rfl⟩ := after.eq_nil_or_concat
    · rw [List.append_inj_right' split rfl |> List.singleton_inj.mp]
      exact .inl done
    · rw [List.concat_eq_append] at split untouched
      rw [← List.cons_append, ← List.append_assoc] at split
      have same := List.singleton_inj.mp (List.append_inj_right' split rfl)
      refine .inr ⟨⟨before, j, rest, List.append_inj_left' split rfl, done, fun k there => ?_⟩, ?_⟩
      · exact untouched k (List.mem_append_left _ there)
      · rw [same]
        exact untouched last (List.mem_append_right _ List.mem_cons_self)
  · rintro (done | ⟨⟨before, j, after, rfl, done, untouched⟩, stays⟩)
    · exact ⟨steps, i, [], rfl, done, by simp⟩
    · refine ⟨before, j, after ++ [i], by simp, done, fun k there => ?_⟩
      obtain there | there := List.mem_append.mp there
      · exact untouched k there
      · exact List.mem_singleton.mp there ▸ stays

/-- What is brought about by `P` only and ended by `Q` has lasted since the latest `P`. -/
theorem since_of_run (step : ι → Action σ α) (start : σ) {P Q : ι → Prop} (holds : σ → Prop)
    (fresh : ¬holds start)
    (kept : ∀ steps i, holds (played step (steps ++ [i]) start) →
      P i ∨ holds (played step steps start) ∧ ¬Q i)
    (steps : List ι) (now : holds (played step steps start)) : Since P Q steps := by
  induction steps using List.reverseRecOn with
  | nil => exact absurd now fresh
  | append_singleton steps i ih =>
    exact since_concat.mpr ((kept steps i now).imp_right (.imp_left ih))

variable (step start) (marks : CacheKey → ι → σ → Prop)

def Precedes (steps : List ι) (j k : CacheKey) : Prop :=
  Later step start (marks k) (marks j) steps

variable {step start marks} {line rest : List CacheKey} {k : CacheKey}

theorem ordered_concat (order : line.Pairwise (Precedes step start marks steps))
    (shorter : rest.Sublist line) (quiet : ∀ j ∈ rest, ¬marks j i (played step steps start)) :
    rest.Pairwise (Precedes step start marks (steps ++ [i])) :=
  (order.sublist shorter).imp_of_mem fun there _ before => before.concat (quiet _ there)

theorem ordered_concat_marked (order : line.Pairwise (Precedes step start marks steps))
    (shorter : rest.Sublist line) (quiet : ∀ j ∈ rest, ¬marks j i (played step steps start))
    (now : marks k i (played step steps start)) :
    (rest ++ [k]).Pairwise (Precedes step start marks (steps ++ [i])) := by
  refine List.pairwise_append.mpr
    ⟨ordered_concat order shorter quiet, List.pairwise_singleton .., fun j there l last => ?_⟩
  rw [List.mem_singleton.mp last]
  exact later_concat now (quiet j there)

end Action

end StatementCache
