import StatementCache.Proofs.Contents.Invisible
import StatementCache.Proofs.Eviction.Followers

/-! How much of its capacity a tower of layers keeps in use, over all its runs. -/
namespace StatementCache

namespace Demand

def PutsOrGets (d : Demand) : Prop := (∃ k e, d = .put k e) ∨ ∃ k, d = .get k

def keysPut (past : List Demand) : Finset CacheKey := (past.filterMap putKey?).toFinset

theorem keysPut_concat (past : List Demand) (d : Demand) :
    keysPut (past ++ [d]) = keysPut past ∪ d.putKey?.toList.toFinset := by
  simp only [keysPut, List.filterMap_append, List.toFinset_append]
  cases d <;> rfl

end Demand

namespace Shelf

variable {room : Nat} {q : Shelf} {k : CacheKey} {keys : Finset CacheKey}

def Lists (room : Nat) (keys : Finset CacheKey) (q : Shelf) : Prop :=
  keys ⊆ q.line.toFinset ∨ q.line.length = room

theorem Lists.touch (h : q.Lists room keys) (k : CacheKey) : (q.touch k).Lists room keys := by
  unfold Lists
  rw [List.toFinset_eq_of_perm _ _ (touch_perm k q), (touch_perm k q).length_eq]
  exact h

theorem Lists.put (h : q.Lists room keys) (fits : q.Fits room) (positive : 1 ≤ room)
    (evicts : q.keeping ≠ .everything) (k : CacheKey) :
    (q.put room k).Lists room (insert k keys) := by
  obtain listed | full := h
  · obtain ⟨none, -⟩ | ⟨-, -, full, -⟩ := fits.leaving_cases positive k
    · refine .inl fun j mem => List.mem_toFinset.mpr (fits.mem_put.mpr ⟨?_, by simp [none]⟩)
      exact (Finset.mem_insert.mp mem).imp_right fun old => List.mem_toFinset.mp (listed old)
    · exact .inr (fits.length_put positive full evicts k)
  · exact .inr (fits.length_put positive full evicts k)

theorem Lists.room_le (h : q.Lists room keys) (fits : q.Fits room) (many : room ≤ keys.card) :
    room ≤ q.line.toFinset.card := by
  obtain listed | full := h
  · exact many.trans (Finset.card_le_card listed)
  · rw [List.toFinset_card_of_nodup fits.distinct, full]

end Shelf

namespace Tower

variable {room : Nat} {kinds : List Keeping} {t : Tower} {past : List Demand} {k : CacheKey}

def serve (room : Nat) (t : Tower) : Demand → Tower
  | .put k _ => t.put room k
  | .get k => t.map (·.touch k)
  | .remove _ | .clear | .size | .assign _ _ => t

def fresh (kinds : List Keeping) : Tower := (kinds ++ [Keeping.everything]).map (⟨·, []⟩)

structure Healthy (room : Nat) (kinds : List Keeping) (t : Tower) : Prop where
  keepings : t.map (·.keeping) = kinds ++ [.everything]
  ranked : Ranked room t
  sound : Sound room (sparse Shelf.keeping t)

theorem lag_concat (kinds : List Keeping) : lag (kinds ++ [.everything]) = lag kinds := by
  induction kinds using lag.induct with
  | case1 outer inner below ih => simpa [lag] using ih
  | case2 kinds short =>
    obtain _ | ⟨outer, _ | ⟨inner, below⟩⟩ := kinds
    · rfl
    · simp [lag, Shelf.lag]
    · exact (short outer inner below rfl).elim

namespace Healthy

theorem exists_floor (h : Healthy room kinds t) :
    ∃ above floor, t = above ++ [floor] ∧ above.map (·.keeping) = kinds ∧
      floor.keeping = .everything := by
  obtain ⟨above, rest, rfl, above_eq, rest_eq⟩ := List.map_eq_append_iff.mp h.keepings
  obtain ⟨floor, rfl, floor_eq⟩ := List.map_eq_singleton_iff.mp rest_eq
  exact ⟨above, floor, rfl, above_eq, floor_eq⟩

theorem held_sparse (h : Healthy room kinds t) : held (sparse Shelf.keeping t) = held t := by
  obtain ⟨above, floor, rfl, -, everything⟩ := h.exists_floor
  rw [sparse_concat (by simp [everything]), held_concat, held_concat]

theorem keepings_sparse (h : Healthy room kinds t) :
    (sparse Shelf.keeping t).map (·.keeping) = sparse id kinds ++ [.everything] := by
  have named : sparse id (t.map (·.keeping)) = (sparse Shelf.keeping t).map (·.keeping) :=
    sparse_map (fun _ => rfl) t
  rw [← named, h.keepings, sparse_concat (by simp)]

theorem ne_nil (h : Healthy room kinds t) : t ≠ [] := by
  rintro rfl
  exact absurd h.keepings (by simp)

theorem touch (h : Healthy room kinds t) (k : CacheKey) :
    Healthy room kinds (t.map (·.touch k)) where
  keepings := by simpa [Function.comp_def] using h.keepings
  ranked := h.ranked.touch k
  sound := by
    rw [sparse_map fun _ => Shelf.keeping_touch]
    exact h.sound.touch k

theorem put (h : Healthy room kinds t) (positive : 1 ≤ room) (k : CacheKey) :
    Healthy room kinds (t.put room k) where
  keepings := by simpa using h.keepings
  ranked := h.ranked.put positive k
  sound := by
    rw [h.ranked.sparse_put positive]
    exact h.sound.put positive k

theorem serve (h : Healthy room kinds t) (positive : 1 ≤ room) (d : Demand) :
    Healthy room kinds (t.serve room d) := by
  cases d with
  | put k _ => exact h.put positive k
  | get k => exact h.touch k
  | _ => exact h

end Healthy

theorem sound_fresh (room : Nat) (evicts : ∀ c ∈ kinds, c ≠ .everything) :
    Sound room (fresh kinds) := by
  have fits (c : Keeping) : Shelf.Fits room ⟨c, []⟩ := ⟨.nil, fun _ => Nat.zero_le _⟩
  induction kinds with
  | nil => exact .floor (fits _)
  | cons outer below ih =>
    have rest := ih fun c mem => evicts c (List.mem_cons_of_mem _ mem)
    have above (inner : Keeping) : Shelf.Above ⟨outer, []⟩ ⟨inner, []⟩ :=
      ⟨evicts outer List.mem_cons_self, List.Subset.refl _, Nat.zero_le _, fun _ => rfl⟩
    cases below with
    | nil => exact .above (fits _) (above _) rest
    | cons inner below => exact .above (fits _) (above _) rest

theorem healthy_fresh (room : Nat) (evicts : ∀ c ∈ kinds, c ≠ .everything) :
    Healthy room kinds (fresh kinds) where
  keepings := by simp [fresh, Function.comp_def]
  ranked :=
    { fit := by
        intro q mem
        obtain ⟨c, -, rfl⟩ := List.mem_map.mp mem
        exact ⟨.nil, fun _ => Nat.zero_le _⟩
      follows := List.pairwise_map.mpr (List.pairwise_of_forall fun _ _ _ _ => .refl _) }
  sound := by
    have same (c : Keeping) : Shelf.keeping ⟨c, []⟩ = id c := rfl
    have rest : Sound room (fresh (sparse id kinds)) :=
      sound_fresh room fun c mem => evicts c ((sparse_sublist id kinds).subset mem)
    rw [fresh, sparse_map same, sparse_concat (by simp)]
    exact rest

structure Kept (room : Nat) (kinds : List Keeping) (past : List Demand) (t : Tower) : Prop where
  healthy : Healthy room kinds t
  lists : ∀ q below, t = q :: below → q.Lists room (Demand.keysPut past)
  some : (Demand.keysPut past).Nonempty → held t ≠ []
  put : ∀ k ∈ held t, k ∈ Demand.keysPut past

theorem kept_fresh (room : Nat) (evicts : ∀ c ∈ kinds, c ≠ .everything) :
    Kept room kinds [] (fresh kinds) where
  healthy := healthy_fresh room evicts
  lists _ _ _ := .inl (Finset.empty_subset _)
  some put := absurd put (by simp [Demand.keysPut])
  put k there := by simp [fresh] at there

namespace Healthy

variable {q : Shelf} {below : Tower}

theorem evicts (h : Healthy room kinds (q :: below)) (nonempty : kinds ≠ [])
    (evicts : ∀ c ∈ kinds, c ≠ .everything) : q.keeping ≠ .everything := by
  have keepings := h.keepings
  cases kinds with
  | nil => exact absurd rfl nonempty
  | cons c rest =>
    rw [List.map_cons, List.cons_append, List.cons.injEq] at keepings
    exact keepings.1 ▸ evicts c List.mem_cons_self

theorem held_subset (h : Healthy room kinds (q :: below)) : held (q :: below) ⊆ q.line := by
  obtain ⟨rest, same⟩ := exists_sparse_cons Shelf.keeping q below
  have sound := h.sound
  rw [same] at sound
  rw [← h.held_sparse, same]
  exact sound.held_subset

theorem card_le (h : Healthy room kinds (q :: below)) :
    q.line.toFinset.card ≤ (held (q :: below)).length + lag (sparse id kinds) := by
  obtain ⟨rest, same⟩ := exists_sparse_cons Shelf.keeping q below
  have sound := h.sound
  rw [same] at sound
  have count := sound.card_le
  rw [← same, h.keepings_sparse, lag_concat, h.held_sparse] at count
  exact count

theorem length_held_le (h : Healthy room kinds t) (nonempty : kinds ≠ [])
    (evicts : ∀ c ∈ kinds, c ≠ .everything) : (held t).length ≤ room := by
  cases t with
  | nil => exact Nat.zero_le _
  | cons q below =>
    have fits := h.ranked.fit q List.mem_cons_self
    exact ((h.ranked.fit.distinct_held).subperm h.held_subset).length_le.trans
      (fits.bounded (h.evicts nonempty evicts))

end Healthy

namespace Kept

variable {d : Demand}

theorem serve (h : Kept room kinds past t) (positive : 1 ≤ room) (nonempty : kinds ≠ [])
    (evicts : ∀ c ∈ kinds, c ≠ .everything) (d : Demand) :
    Kept room kinds (past ++ [d]) (t.serve room d) := by
  have healthy := h.healthy.serve positive d
  refine ⟨healthy, fun q below same => ?_, fun put => ?_, fun j there => ?_⟩
  · rw [Demand.keysPut_concat]
    cases t with
    | nil => exact absurd rfl h.healthy.ne_nil
    | cons outer rest =>
      have lists := h.lists outer rest rfl
      cases d with
      | put k e =>
        obtain ⟨rfl, -⟩ := List.cons.inj same
        have fits := h.healthy.ranked.fit outer List.mem_cons_self
        have more := lists.put fits positive (h.healthy.evicts nonempty evicts) k
        rwa [Finset.insert_eq, Finset.union_comm] at more
      | get k =>
        obtain ⟨rfl, -⟩ := List.cons.inj same
        simpa [Demand.putKey?] using lists.touch k
      | _ =>
        obtain ⟨rfl, -⟩ := List.cons.inj same
        simpa [Demand.putKey?] using lists
  · rw [Demand.keysPut_concat] at put
    cases d with
    | put k e =>
      obtain ⟨outer, rest, rfl⟩ := List.exists_cons_of_ne_nil h.healthy.ne_nil
      exact List.ne_nil_of_mem (h.healthy.ranked.fit.mem_held_put k)
    | get k =>
      have some := h.some (by simpa [Demand.putKey?] using put)
      exact fun none => some ((held_touch_perm k t).symm.trans (.of_eq none)).eq_nil
    | _ => exact h.some (by simpa [Demand.putKey?] using put)
  · rw [Demand.keysPut_concat, Finset.mem_union]
    cases d with
    | put k e =>
      obtain rfl | old := List.mem_cons.mp (h.healthy.ranked.fit.held_put_subset there)
      · exact .inr (by simp [Demand.putKey?])
      · exact .inl (h.put j old)
    | get k => exact .inl (h.put j ((held_touch_perm k t).mem_iff.mp there))
    | _ => exact .inl (h.put j there)

theorem length_held_le (h : Kept room kinds past t) :
    (held t).length ≤ (Demand.keysPut past).card := by
  rw [← List.toFinset_card_of_nodup h.healthy.ranked.fit.distinct_held]
  exact Finset.card_le_card fun k there => h.put k (List.mem_toFinset.mp there)

theorem room_le (h : Kept room kinds past t) (many : room ≤ (Demand.keysPut past).card) :
    room ≤ (held t).length + lag (sparse id kinds) := by
  obtain ⟨q, below, rfl⟩ := List.exists_cons_of_ne_nil h.healthy.ne_nil
  exact ((h.lists q below rfl).room_le (h.healthy.ranked.fit q List.mem_cons_self) many).trans
    h.healthy.card_le

end Kept

theorem kept_served (positive : 1 ≤ room) (nonempty : kinds ≠ [])
    (evicts : ∀ c ∈ kinds, c ≠ .everything) (past : List Demand) :
    Kept room kinds past (past.foldl (serve room) (fresh kinds)) := by
  induction past using List.reverseRecOn with
  | nil => exact kept_fresh room evicts
  | append_singleton past d ih =>
    rw [List.foldl_concat]
    exact ih.serve positive nonempty evicts d

theorem Fit.length_held_put (h : Fit room t) (positive : 1 ≤ room) (nonempty : t ≠ [])
    (new : k ∉ held t) :
    (held (t.put room k)).length + ((held t).filter (· ∉ held (t.put room k))).length =
      (held t).length + 1 := by
  obtain ⟨q, below, rfl⟩ := List.exists_cons_of_ne_nil nonempty
  generalize left : held (Tower.put room k (q :: below)) = later
  have came (j : CacheKey) : j ∈ later ↔ j ∈ k :: (held (q :: below)).filter (· ∈ later) := by
    rw [List.mem_cons, List.mem_filter, decide_eq_true_eq, ← left]
    constructor
    · intro there
      exact (List.mem_cons.mp (h.held_put_subset there)).imp_right fun old => ⟨old, there⟩
    · rintro (rfl | ⟨-, there⟩)
      · exact h.mem_held_put j
      · exact there
  have distinct : (k :: (held (q :: below)).filter (· ∈ later)).Nodup :=
    List.nodup_cons.mpr ⟨fun there => new (List.mem_filter.mp there).1, h.distinct_held.filter _⟩
  have distinct' : later.Nodup := left ▸ (h.put positive k).distinct_held
  have count := ((List.perm_ext_iff_of_nodup distinct' distinct).mpr came).length_eq
  have parts := (List.filter_append_perm (· ∈ later) (held (q :: below))).length_eq
  simp only [List.length_append, ← decide_not] at parts
  rw [List.length_cons] at count
  omega

end Tower
end StatementCache
