import StatementCache.Proofs.Nesting.Rest

/-! Slots that wait for the result of a running query. They are all filled at once when the
outermost query is done, from what the executor has by then. -/
namespace StatementCache

open StatementCache.Action

namespace World

variable {w : World} {slot slot' : Slot} {rows : Rows}

theorem slotRows_newSlot (w : World) (slot : Slot) :
    w.newSlot.2.slotRows slot = w.slotRows slot := by
  simp only [slotRows, newSlot, List.getElem?_append]
  split
  · rfl
  · rename_i beyond
    rw [List.getElem?_eq_none (Nat.not_lt.mp beyond), List.getElem?_singleton]
    split <;> rfl

theorem slotRows_fill (there : slot < w.slots.length) (rows : Rows) :
    (w.fill slot rows).slotRows slot = some rows := by
  simp [slotRows, fill, there]

theorem slotRows_fill_of_ne (other : slot' ≠ slot) (rows : Rows) :
    (w.fill slot rows).slotRows slot' = w.slotRows slot' := by
  simp [slotRows, fill, other.symm]

theorem length_slots_fill (w : World) (slot : Slot) (rows : Rows) :
    (w.fill slot rows).slots.length = w.slots.length := List.length_set

theorem lt_of_slotRows (filled : w.slotRows slot = some rows) : slot < w.slots.length := by
  by_contra beyond
  rw [slotRows, List.getElem?_eq_none (Nat.not_lt.mp beyond)] at filled
  cases filled

theorem filled_fill (filled : (w.slotRows slot).isSome) (slot' : Slot) (rows : Rows) :
    ((w.fill slot' rows).slotRows slot).isSome := by
  by_cases same : slot = slot'
  · obtain ⟨_, there⟩ := Option.isSome_iff_exists.mp filled
    rw [← same, slotRows_fill (lt_of_slotRows there)]
    rfl
  · rwa [slotRows_fill_of_ne same]

theorem slotRows_new (w : World) : w.slotRows w.newSlot.1 = none := by
  simp [slotRows, newSlot]

end World

namespace Runner

variable {results : Results} {waiting : List (CacheKey × Slot)} {w : World} {slot : Slot}

theorem slotRows_fillDeferred_of_notMem (absent : slot ∉ waiting.map Prod.snd) :
    (fillDeferred results waiting w).slotRows slot = w.slotRows slot := by
  induction waiting generalizing w with
  | nil => rfl
  | cons first waiting ih =>
    rw [List.map_cons, List.mem_cons, not_or] at absent
    refine (ih absent.2).trans ?_
    dsimp only
    split
    · exact World.slotRows_fill_of_ne absent.1 _
    · rfl

theorem filled_fillDeferred (filled : (w.slotRows slot).isSome) :
    ((fillDeferred results waiting w).slotRows slot).isSome := by
  induction waiting generalizing w with
  | nil => exact filled
  | cons first waiting ih =>
    refine ih ?_
    dsimp only
    split
    · exact World.filled_fill filled _ _
    · exact filled

theorem length_slots_fillDeferred (results : Results) (waiting : List (CacheKey × Slot))
    (w : World) :
    (fillDeferred results waiting w).slots.length = w.slots.length := by
  induction waiting generalizing w with
  | nil => rfl
  | cons first waiting ih =>
    refine (ih _).trans ?_
    dsimp only
    split
    · exact World.length_slots_fill w _ _
    · rfl

theorem length_slots_returned (result : Except Fault Rows) (r : Runner) (w : World) :
    (returned result (r, w)).2.slots.length = w.slots.length := by
  simp only [returned, finish, modify_apply]
  split
  · dsimp only
    split
    · exact length_slots_fillDeferred ..
    · rfl
  · rfl

theorem filled_returned {r : Runner} {result : Except Fault Rows}
    (filled : (w.slotRows slot).isSome) :
    ((returned result (r, w)).2.slotRows slot).isSome := by
  simp only [returned, finish, modify_apply]
  split
  · dsimp only
    split
    · exact filled_fillDeferred filled
    · exact filled
  · exact filled

theorem deferred_clearResults (r : Runner) : r.clearResults.deferred = r.deferred := by
  unfold clearResults
  split <;> rfl

theorem deferred_enter (r : Runner) (st : Statement) : (r.enter st).deferred = r.deferred := by
  unfold enter
  split
  · exact deferred_clearResults r
  · rfl

theorem slotRows_fillDeferred {key : CacheKey} (distinct : (waiting.map Prod.snd).Nodup)
    (mem : (key, slot) ∈ waiting) (there : slot < w.slots.length) (empty : w.slotRows slot = none) :
    (fillDeferred results waiting w).slotRows slot = results.rows? key := by
  induction waiting generalizing w with
  | nil => cases mem
  | cons first waiting ih =>
    rw [List.map_cons, List.nodup_cons] at distinct
    rcases List.mem_cons.mp mem with rfl | later
    · refine (slotRows_fillDeferred_of_notMem distinct.1).trans ?_
      dsimp only
      split
      · rename_i completed
        rw [World.slotRows_fill there, completed]
      · rename_i absent
        rw [empty, absent]
    · have other : slot ≠ first.2 := fun same =>
        distinct.1 (same ▸ List.mem_map_of_mem (f := Prod.snd) later)
      refine ih distinct.2 later ?_ ?_
      · dsimp only
        split
        · rwa [World.length_slots_fill]
        · exact there
      · dsimp only
        split
        · rwa [World.slotRows_fill_of_ne other]
        · exact empty

end Runner

namespace Course

structure Waiting (c : Course) : Prop where
  handed : ∀ key slot, .handed key slot true ∈ c.journal → (key, slot) ∈ c.runner.deferred
  distinct : (c.runner.deferred.map Prod.snd).Nodup
  there : ∀ slot ∈ c.runner.deferred.map Prod.snd, slot < c.world.slots.length
  empty : ∀ slot ∈ c.runner.deferred.map Prod.snd, c.world.slotRows slot = none

variable {ctx : Context} {c d : Course}

theorem filled_of_moves (moves : c.Moves d) {slot : Slot}
    (filled : (c.world.slotRows slot).isSome) : (d.world.slotRows slot).isSome := by
  cases moves with
  | worked begun begun' slots => simpa only [World.slotRows, slots] using filled
  | marked stage absent => exact filled
  | found stage known => exact filled
  | refused stage busy => exact filled
  | called begun => exact filled
  | filled begun known =>
    exact World.filled_fill ((World.slotRows_newSlot c.world slot).symm ▸ filled) _ _
  | deferred begun busy => exact (World.slotRows_newSlot c.world slot).symm ▸ filled
  | forgot begun begun' slots forgets => simpa only [World.slotRows, slots] using filled
  | @settled result stage =>
    cases result with
    | ok rows => exact filled
    | error e => exact filled
  | @answered result stage =>
    unfold answer
    split
    · exact Runner.filled_returned filled
    · exact Runner.filled_returned filled

def Listed (base : Nat) (c : Course) : Prop :=
  ∀ slot, base ≤ slot → slot < c.world.slots.length →
    ∃ key waits, .handed key slot waits ∈ c.journal

theorem Listed.goOn {base : Nat} (h : c.Listed base) (journal : c.journal <+: d.journal)
    (slots : d.world.slots.length = c.world.slots.length) : d.Listed base := by
  intro slot new there
  obtain ⟨key, waits, handed⟩ := h slot new (slots ▸ there)
  exact ⟨key, waits, journal.subset handed⟩

theorem Listed.hand {base : Nat} (h : c.Listed base) (journal : c.journal <+: d.journal)
    (slots : d.world.slots.length = c.world.slots.length + 1) {key : CacheKey} {waits : Bool}
    (handed : .handed key c.world.newSlot.1 waits ∈ d.journal) : d.Listed base := by
  intro slot new there
  rw [slots] at there
  rcases Nat.lt_succ_iff_lt_or_eq.mp there with earlier | rfl
  · obtain ⟨key, waits, handed⟩ := h slot new earlier
    exact ⟨key, waits, journal.subset handed⟩
  · exact ⟨key, waits, handed⟩

theorem listed_of_moves {base : Nat} (h : c.Listed base) (moves : c.Moves d) : d.Listed base := by
  have journal := journal_of_moves moves
  cases moves with
  | worked begun begun' slots => exact h.goOn journal (congrArg _ slots)
  | marked stage absent => exact h.goOn journal rfl
  | found stage known => exact h.goOn journal rfl
  | refused stage busy => exact h.goOn journal rfl
  | called begun => exact h.goOn journal rfl
  | filled begun known =>
    refine h.hand journal ?_ (List.mem_append_right _ List.mem_cons_self)
    exact (World.length_slots_fill ..).trans (by simp [World.newSlot])
  | deferred begun busy =>
    exact h.hand journal (by simp [World.newSlot]) (List.mem_append_right _ List.mem_cons_self)
  | forgot begun begun' slots forgets => exact h.goOn journal (congrArg _ slots)
  | @settled result stage =>
    cases result with
    | ok rows => exact h.goOn journal rfl
    | error e => exact h.goOn journal rfl
  | @answered result stage =>
    refine h.goOn journal ?_
    unfold answer
    split
    · exact Runner.length_slots_returned ..
    · exact Runner.length_slots_returned ..

theorem listed_start {st : Statement} {bounds : RowBounds} {key : CacheKey} {bound : BoundSql}
    {r : Runner} {w : World} : (start st bounds key bound r w).Listed w.slots.length := by
  unfold start
  split
  · exact fun slot new there => absurd there (Nat.not_lt.mpr new)
  · exact fun slot new there => absurd there (Nat.not_lt.mpr new)

theorem Waiting.goOn (h : c.Waiting) (deferred : d.runner.deferred = c.runner.deferred)
    (slots : d.world.slots = c.world.slots)
    (handed : ∀ key slot, .handed key slot true ∈ d.journal → .handed key slot true ∈ c.journal) :
    d.Waiting := by
  refine ⟨fun key slot mem => ?_, ?_, ?_, ?_⟩
  · exact deferred ▸ h.handed key slot (handed key slot mem)
  · exact deferred ▸ h.distinct
  · exact deferred ▸ slots ▸ h.there
  · simp only [World.slotRows, deferred, slots]
    exact h.empty

theorem Waiting.filled (h : c.Waiting) (key : CacheKey) (rows : Rows) (work : Hydration) :
    Waiting { c with
      stage := .mapping work
      world := c.world.newSlot.2.fill c.world.newSlot.1 rows
      journal := c.journal ++ [.handed key c.world.newSlot.1 false] } := by
  refine ⟨fun key slot mem => h.handed key slot (by simpa using mem), h.distinct,
    fun slot mem => ?_, fun slot mem => ?_⟩
  · rw [World.length_slots_fill]
    exact (h.there slot mem).trans (by simp [World.newSlot])
  · have other : slot ≠ c.world.newSlot.1 := (h.there slot mem).ne
    refine (World.slotRows_fill_of_ne other rows).trans ?_
    exact (World.slotRows_newSlot c.world slot).trans (h.empty slot mem)

theorem Waiting.deferred (h : c.Waiting) (key : CacheKey) (work : Hydration) :
    Waiting { c with
      stage := .mapping work
      runner := { c.runner with deferred := c.runner.deferred ++ [(key, c.world.newSlot.1)] }
      world := c.world.newSlot.2
      journal := c.journal ++ [.handed key c.world.newSlot.1 true] } := by
  have slots (slot : Slot) (mem : slot ∈ (c.runner.deferred ++ [(key, c.world.newSlot.1)]).map
      Prod.snd) : slot ∈ c.runner.deferred.map Prod.snd ∨ slot = c.world.newSlot.1 := by
    rw [List.map_append, List.mem_append] at mem
    exact mem.imp_right List.mem_singleton.mp
  refine ⟨fun key' slot mem => ?_, ?_, fun slot mem => ?_, fun slot mem => ?_⟩
  · rcases List.mem_append.mp mem with earlier | now
    · exact List.mem_append_left _ (h.handed key' slot earlier)
    · cases List.mem_singleton.mp now
      exact List.mem_append_right _ List.mem_cons_self
  · rw [List.map_append, List.nodup_append]
    refine ⟨h.distinct, List.nodup_singleton _, fun slot mem slot' new => ?_⟩
    exact List.mem_singleton.mp new ▸ (h.there slot mem).ne
  · have longer : c.world.newSlot.2.slots.length = c.world.slots.length + 1 := by
      simp [World.newSlot]
    rw [longer]
    rcases slots slot mem with earlier | rfl
    · exact (h.there slot earlier).trans (Nat.lt_succ_self _)
    · exact Nat.lt_succ_self _
  · rw [World.slotRows_newSlot]
    rcases slots slot mem with earlier | rfl
    · exact h.empty slot earlier
    · exact World.slotRows_new c.world

theorem waiting_of_moves (h : c.Waiting) (balanced : c.Balanced) (moves : c.Moves d)
    (going : ¬d.Ended) : d.Waiting := by
  cases moves with
  | worked begun begun' slots => exact h.goOn rfl slots fun _ _ mem => mem
  | marked stage absent => exact h.goOn rfl rfl fun _ _ mem => mem
  | found stage known => exact h.goOn rfl rfl fun _ _ mem => by simpa [resolve] using mem
  | refused stage busy => exact h.goOn rfl rfl fun _ _ mem => by simpa [resolve] using mem
  | called begun => exact h.goOn (Runner.deferred_enter ..) rfl fun _ _ mem => mem
  | filled begun known => exact h.filled _ _ _
  | deferred begun busy => exact h.deferred _ _
  | forgot begun begun' slots forgets =>
    refine h.goOn (Runner.deferred_clearResults _) slots fun key slot mem => ?_
    rcases List.mem_append.mp mem with earlier | now
    · exact earlier
    · cases List.mem_singleton.mp now
      exact forgets.elim
  | @settled result stage =>
    cases result with
    | ok rows => exact h.goOn rfl rfl fun _ _ mem => by simpa [settle, resolve] using mem
    | error e => exact h.goOn rfl rfl fun _ _ mem => by simpa [settle, resolve] using mem
  | answered stage =>
    obtain ⟨caller, callers, inner⟩ := callers_of_going going
    rw [balanced.answer_eq stage inner]
    exact h.goOn rfl rfl fun _ _ mem => mem

end Course
end StatementCache
