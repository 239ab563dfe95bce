import StatementCache.Proofs.Eviction.Recency

/-! A larger index holds all that a smaller one does. What carries the proof is that the line of the
smaller one is a part of the line of the larger one, in the same order, and that the larger one has
no more other keys than it has room for beyond the smaller one's. -/
namespace StatementCache

open StatementCache.Action

namespace Demand

variable {line : List CacheKey} {room : Nat} {held : Entries}

theorem Lined.length_relined_put (h : Lined line room held) (k : CacheKey) (e : Entry) :
    ((Demand.put k e).relined line room (some k)).length =
      if k ∈ line then line.length else min (line.length + 1) room := by
  have bounded := h.bounded
  have positive := h.positive
  rw [relined, List.length_append, List.length_singleton]
  split
  · rename_i there
    have := List.length_pos_of_mem there
    simp only [remaining, leaving, there, if_true, List.length_nil, List.drop_zero,
      List.length_erase_of_mem]
    omega
  · rename_i absent
    have apart : k ∉ (Demand.put k e).remaining line room := fun mem =>
      absent ((Demand.remaining_sublist line room _).subset mem)
    rw [List.erase_of_not_mem apart]
    simp only [remaining, leaving, absent, if_false, List.length_drop, List.length_take]
    omega

end Demand

namespace Recency

/-- The keys of the one line are among those of the other, in their order, and not too many are
missing. -/
structure Within (small large : List CacheKey) (narrow wide : Nat) : Prop where
  keys : small.Sublist large
  fewer : large.length + narrow ≤ small.length + wide

variable {small large : List CacheKey} {narrow wide : Nat} {held held' : Entries} {d : Demand}
  {k : CacheKey}

theorem Within.remaining_put (h : Within small large narrow wide) (positive : 1 ≤ narrow)
    (k : CacheKey) (e : Entry) :
    ((Demand.put k e).remaining small narrow).Sublist ((Demand.put k e).remaining large wide) := by
  by_cases there : k ∈ large
  · have stays : (Demand.put k e).remaining large wide = large := by
      simp [Demand.remaining, Demand.leaving, there]
    rw [stays]
    exact (Demand.remaining_sublist small narrow (.put k e)).trans h.keys
  · have absent : k ∉ small := fun mem => there (h.keys.subset mem)
    have fewer := h.fewer
    simp only [Demand.remaining, Demand.leaving, there, absent, if_false, List.length_take]
    -- the larger line loses no more of its front than the smaller one does
    refine (List.drop_sublist_drop_left small ?_).trans (h.keys.drop _)
    omega

theorem Within.relined_put (h : Within small large narrow wide)
    (lined : Demand.Lined small narrow held) (lined' : Demand.Lined large wide held')
    (k : CacheKey) (e : Entry) :
    Within ((Demand.put k e).relined small narrow (some k))
      ((Demand.put k e).relined large wide (some k)) narrow wide where
  keys := ((h.remaining_put lined.positive k e).erase k).append_right [k]
  fewer := by
    have fewer := h.fewer
    have bounded := lined.bounded
    have bounded' := lined'.bounded
    have subset : k ∈ small → k ∈ large := fun mem => h.keys.subset mem
    rw [lined.length_relined_put, lined'.length_relined_put]
    split <;> split <;> first | omega | tauto

theorem Within.relined_get (h : Within small large narrow wide) (k : CacheKey) :
    Within (if k ∈ small then small.erase k ++ [k] else small)
      (if k ∈ large then large.erase k ++ [k] else large) narrow wide := by
  obtain ⟨keys, fewer⟩ := h
  have moved : ∀ {line : List CacheKey}, k ∈ line → (line.erase k ++ [k]).length = line.length := by
    intro line there
    have := List.length_pos_of_mem there
    rw [List.length_append, List.length_erase_of_mem there, List.length_singleton]
    omega
  by_cases there : k ∈ small
  · have there' := keys.subset there
    simp only [there, there', if_true]
    exact ⟨(keys.erase k).append_right [k], by rwa [moved there, moved there']⟩
  · by_cases there' : k ∈ large
    · simp only [there, there', if_false, if_true]
      refine ⟨?_, by rwa [moved there']⟩
      rw [← List.erase_of_not_mem there]
      exact (keys.erase k).trans (List.sublist_append_left ..)
    · simp only [there, there', if_false]
      exact ⟨keys, fewer⟩

theorem Within.erase (h : Within small large narrow wide) (k : CacheKey) :
    Within (small.erase k) (large.erase k) narrow wide where
  keys := h.keys.erase k
  fewer := by
    have fewer := h.fewer
    have shorter := h.keys.length_le
    by_cases there : k ∈ small
    · have := List.length_pos_of_mem there
      rw [List.length_erase_of_mem there, List.length_erase_of_mem (h.keys.subset there)]
      omega
    · have := (List.erase_sublist (a := k) (l := large)).length_le
      rw [List.erase_of_not_mem there]
      omega

theorem Within.relined (h : Within small large narrow wide)
    (lined : Demand.Lined small narrow held) (lined' : Demand.Lined large wide held')
    (steady : d.capacity? "size" = none) :
    Within (d.relined small narrow (used? d held)) (d.relined large wide (used? d held'))
      narrow wide := by
  cases d with
  | put k e => exact h.relined_put lined lined' k e
  | get k =>
    have moved := h.relined_get k
    simp only [used?, ← lined.keys, ← lined'.keys]
    convert moved using 1 <;> split <;> rfl
  | remove k => exact h.erase k
  | clear =>
    have fewer := h.fewer
    have shorter := h.keys.length_le
    exact ⟨List.nil_sublist _, by simp only [Demand.relined, used?, Demand.remaining]; omega⟩
  | size => exact h
  | assign name value =>
    simpa [Demand.relined, used?, Demand.remaining, Demand.leaving, steady] using h

end Recency

namespace Layer

/-- Over a run the line of the smaller index stays within that of the larger one. -/
theorem within_played (id id' : String) {N M : Nat} (less : N ≤ M) {past : List Demand}
    (steady : ∀ d ∈ past, d.capacity? "size" = none) :
    let small := played (Demand.on (lru (base id))) past (.empty N, .empty)
    let large := played (Demand.on (lru (base id'))) past (.empty M, .empty)
    Recency.Within small.1.line large.1.line small.1.capacity large.1.capacity := by
  induction past using List.reverseRecOn with
  | nil => exact ⟨.slnil, by simp only [played_nil, Recency.empty, Recency.line]; omega⟩
  | append_singleton past d ih =>
    have within := ih fun e there => steady e (List.mem_append_left _ there)
    have same := steady d (List.mem_append_right _ List.mem_cons_self)
    obtain ⟨keeps, -⟩ := (governs_lru id).keeps_played (fresh_lru N) past
    obtain ⟨keeps', -⟩ := (governs_lru id').keeps_played (fresh_lru M) past
    obtain ⟨r, run, capacity, line, -⟩ := (governs_lru id).step d _ _ keeps
    obtain ⟨r', run', capacity', line', -⟩ := (governs_lru id').step d _ _ keeps'
    have moved := within.relined keeps.lined keeps'.lined same
    rw [same, Option.getD_none] at capacity capacity'
    simp only [Recency.policy] at line line' capacity capacity'
    simp only [played_concat, run, run', line, line', capacity, capacity']
    exact moved

/-- Of two indices over maps that see the same operations, the one that has room for more holds
whatever the other one holds. So every lookup that succeeds in the smaller one succeeds in the
larger one, with the same entry. -/
theorem larger_index_holds_smaller (id id' : String) {N M : Nat} (less : N ≤ M)
    (past : List Demand) (steady : ∀ d ∈ past, d.capacity? "size" = none) :
    let small := played (Demand.on (lru (base id))) past (.empty N, .empty)
    let large := played (Demand.on (lru (base id'))) past (.empty M, .empty)
    (∀ k e, small.2.get? k = some e → large.2.get? k = some e) ∧
      ∀ k e, ((lru (base id)).get k small).result = .ok (some e) →
        ((lru (base id')).get k large).result = .ok (some e) := by
  intro small large
  have within := within_played id id' less steady
  have governs := governs_lru id
  have governs' := governs_lru id'
  obtain ⟨keeps, -⟩ := governs.keeps_played (fresh_lru N) past
  obtain ⟨keeps', -⟩ := governs'.keeps_played (fresh_lru M) past
  have held : ∀ k e, small.2.get? k = some e → large.2.get? k = some e := by
    intro k e there
    have listed := (keeps.lined.keys k).mpr (Table.mem_keys_iff_exists.mpr ⟨e, there⟩)
    have listed' := (keeps'.lined.keys k).mp (within.keys.subset listed)
    obtain ⟨e', there'⟩ := Table.mem_keys_iff_exists.mp listed'
    have latest := governs.latest_put (fresh_lru N) past there
    have latest' := governs'.latest_put (fresh_lru M) past there'
    rw [there', latest.unique latest']
  refine ⟨held, fun k e found => ?_⟩
  exact congrArg Except.ok (held k e (Except.ok.inj found))

/-- The larger index is asked for a key that the smaller one no longer has, so they let go of
different keys for the third one. -/
theorem larger_index_holds_smaller_of_touch :
    let key (n : Int64) : CacheKey := .ofValues [.integer n]
    let past : List Demand := [.put (key 1) .placeholder, .put (key 2) .placeholder, .get (key 1),
      .put (key 3) .placeholder]
    let small := played (Demand.on (lru (base "orders"))) past (.empty 1, .empty)
    let large := played (Demand.on (lru (base "orders"))) past (.empty 2, .empty)
    (1 ≤ 2 ∧ ∀ d ∈ past, d.capacity? "size" = none) ∧
      small.2.keys = [key 3] ∧ large.2.keys = [key 1, key 3] ∧
      ((lru (base "orders")).get (key 3) large).result = .ok (some .placeholder) := by
  intro key past small large
  have steady : ∀ d ∈ past, d.capacity? "size" = none := by
    intro d there
    simp only [past, List.mem_cons, List.not_mem_nil, or_false] at there
    obtain rfl | rfl | rfl | rfl := there <;> rfl
  have found : ((lru (base "orders")).get (key 3) small).result = .ok (some .placeholder) := by rfl
  have holds := larger_index_holds_smaller "orders" "orders" (by decide : 1 ≤ 2) past steady
  refine ⟨⟨by decide, steady⟩, ?_, ?_, holds.2 (key 3) .placeholder found⟩
  · rfl
  · rfl

end Layer
end StatementCache
