import StatementCache.Proofs.Eviction.Recency

/-! A burst of writes under different keys, into a map from which the least recently used key goes.
Whatever was there before, of the burst there remain as many of the last writes as there is room
for, and the first ones are gone. -/
namespace StatementCache

open StatementCache.Action

namespace Recency

def puts (writes : List (CacheKey × Entry)) : List Demand := writes.map fun p => .put p.1 p.2

def survivors (room : Nat) (writes : List (CacheKey × Entry)) : List CacheKey :=
  (writes.map (·.1)).drop (writes.length - room)

/-- What a burst leaves of an index and of its map: the last writes stand at the end of the line,
and no write has another value than its own. -/
structure Burst (room : Nat) (writes : List (CacheKey × Entry)) (s : Recency × Entries) : Prop where
  keeps : policy.Keeps s.1 s.2
  capacity_eq : s.1.capacity = room
  behind : survivors room writes <:+ s.1.line
  wrote : ∀ p ∈ writes, ∀ e, s.2.get? p.1 = some e → e = p.2

variable {id : String} {room : Nat} {writes : List (CacheKey × Entry)} {s : Recency × Entries}
  {k : CacheKey} {line : List CacheKey}

theorem survivors_concat (positive : 1 ≤ room) (e : Entry) :
    survivors room (writes ++ [(k, e)]) =
      (writes.map (·.1)).drop (writes.length + 1 - room) ++ [k] := by
  have within : writes.length + 1 - room ≤ (writes.map (·.1)).length := by
    rw [List.length_map]
    omega
  simp only [survivors, List.length_append, List.length_singleton, List.map_append, List.map_cons,
    List.map_nil, List.drop_append_of_le_length within]

theorem suffix_relined_put {old : List CacheKey} (bounded : line.length ≤ room)
    (less : old.length < room) (behind : old <:+ line) (new : k ∉ old) (e : Entry) :
    old ++ [k] <:+ (Demand.put k e).relined line room (some k) := by
  have stays : old <:+ ((Demand.put k e).remaining line room).erase k := by
    by_cases there : k ∈ line
    · obtain ⟨front, rfl⟩ := behind
      have ahead : k ∈ front := (List.mem_append.mp there).resolve_right new
      simp only [Demand.remaining, Demand.leaving, there, if_true, List.length_nil, List.drop_zero,
        List.erase_append_left _ ahead]
      exact List.suffix_append ..
    · simp only [Demand.remaining, Demand.leaving, there, if_false]
      rw [List.erase_of_not_mem fun mem => there (List.mem_of_mem_drop mem)]
      refine List.suffix_of_suffix_length_le behind (List.drop_suffix ..) ?_
      have := behind.length_le
      simp only [List.length_drop, List.length_take]
      omega
  exact (List.suffix_append_inj_of_length_eq rfl).mpr ⟨stays, rfl⟩

theorem Burst.put (h : Burst room writes s) (new : k ∉ writes.map (·.1)) (e : Entry) :
    Burst room (writes ++ [(k, e)]) ((Demand.put k e).on (Layer.lru (Layer.base id)) s).state := by
  obtain ⟨r, m⟩ := s
  obtain ⟨r', run, capacity, line, keeps⟩ := (Layer.governs_lru id).keeps_step h.keeps (.put k e)
  have same : r.capacity = room := h.capacity_eq
  have positive : 1 ≤ room := same ▸ h.keeps.lined.positive
  rw [run] at keeps ⊢
  refine ⟨keeps, capacity.trans same, ?_, fun p mem x held => ?_⟩
  · rw [survivors_concat positive]
    change _ <:+ policy.line r'
    rw [line]
    have bounded : (policy.line r).length ≤ room := same ▸ h.keeps.lined.bounded
    have old : (writes.map (·.1)).drop (writes.length + 1 - room) <:+ policy.line r :=
      (List.drop_suffix_drop_left _ (by omega)).trans h.behind
    have less : ((writes.map (·.1)).drop (writes.length + 1 - room)).length < room := by
      rw [List.length_drop, List.length_map]
      omega
    have capacity : policy.capacity r = room := same
    rw [capacity]
    exact suffix_relined_put bounded less old (fun mem => new (List.mem_of_mem_drop mem)) e
  · have held := Table.get?_of_eraseAll held
    rw [Visit.advance, Table.get?_insert] at held
    obtain earlier | now := List.mem_append.mp mem
    · have other : k ≠ p.1 := fun same => new (same ▸ List.mem_map_of_mem earlier)
      rw [if_neg other] at held
      exact h.wrote p earlier x held
    · cases List.mem_singleton.mp now
      rw [if_pos rfl] at held
      exact (Option.some.inj held).symm

theorem burst_played (id : String) (keeps : policy.Keeps s.1 s.2)
    (distinct : (writes.map (·.1)).Nodup) :
    Burst s.1.capacity writes (played (Demand.on (Layer.lru (Layer.base id))) (puts writes) s) := by
  induction writes using List.reverseRecOn with
  | nil => exact ⟨keeps, rfl, by simp [survivors], fun _ mem => by cases mem⟩
  | append_singleton writes p ih =>
    rw [List.map_append, List.nodup_append] at distinct
    obtain ⟨earlier, -, apart⟩ := distinct
    have new : p.1 ∉ writes.map (·.1) := fun mem => apart _ mem _ (List.mem_singleton_self _) rfl
    have last : puts (writes ++ [p]) = puts writes ++ [.put p.1 p.2] := List.map_append ..
    rw [last, played_concat]
    exact (ih earlier).put new p.2

theorem Burst.mem_keys_iff (h : Burst room writes s) (written : k ∈ writes.map (·.1)) :
    k ∈ s.2.keys ↔ k ∈ survivors room writes := by
  rw [← h.keeps.lined.keys k]
  refine ⟨fun there => ?_, fun last => h.behind.subset last⟩
  obtain few | many := Nat.le_total writes.length room
  · rw [survivors, Nat.sub_eq_zero_of_le few, List.drop_zero]
    exact written
  · -- As many keys as there is room for are the whole line.
    have bounded : (policy.line s.1).length ≤ room := h.capacity_eq ▸ h.keeps.lined.bounded
    have filled : (survivors room writes).length = room := by
      rw [survivors, List.length_drop, List.length_map]
      omega
    have whole : survivors room writes = policy.line s.1 :=
      h.behind.eq_of_length_le (filled.symm ▸ bounded)
    rw [whole]
    exact there

/-- Of the first writes of a burst as many are still there as the later ones leave room for. -/
theorem Burst.count_first {first last : List (CacheKey × Entry)}
    (h : Burst room (first ++ last) s) (distinct : ((first ++ last).map (·.1)).Nodup) :
    ((first.map (·.1)).filter fun k => (s.2.get? k).isSome).length =
      min first.length (room - last.length) := by
  let gone := first.length + last.length - room
  have parts := distinct
  rw [List.map_append, List.nodup_append] at parts
  obtain ⟨different, -, apart⟩ := parts
  have lasting : ∀ k ∈ first.map (·.1), (s.2.get? k).isSome ↔ k ∈ (first.map (·.1)).drop gone := by
    intro k mem
    have written : k ∈ (first ++ last).map (·.1) := by
      rw [List.map_append]
      exact List.mem_append_left _ mem
    have later : k ∉ (last.map (·.1)).drop (gone - (first.map (·.1)).length) := fun there =>
      apart k mem k (List.mem_of_mem_drop there) rfl
    rw [Option.isSome_iff_ne_none, ← Table.mem_keys_iff, h.mem_keys_iff written, survivors,
      List.map_append, List.drop_append, List.length_append]
    simp only [List.mem_append, gone, later, or_false]
  have same : ((first.map (·.1)).filter fun k => (s.2.get? k).isSome).Perm
      ((first.map (·.1)).drop gone) := by
    refine (List.perm_ext_iff_of_nodup (different.filter _)
      (different.sublist (List.drop_sublist ..))).mpr fun k => ?_
    rw [List.mem_filter]
    exact ⟨fun both => (lasting k both.1).mp both.2, fun there =>
      ⟨List.mem_of_mem_drop there, (lasting k (List.mem_of_mem_drop there)).mpr there⟩⟩
  rw [same.length_eq, List.length_drop, List.length_map]
  simp only [gone]
  omega

end Recency
end StatementCache
