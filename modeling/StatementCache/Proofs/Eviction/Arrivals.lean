import StatementCache.Proofs.Eviction.Line

/-! First come, first to go, exactly. Over a map the queue, the members and the map have the same
keys, the entry that leaves is the one that has been there for longest, and lookups have no bearing
on anything. -/
namespace StatementCache

open StatementCache.Action

namespace Action

variable {ι σ α : Type} (step : ι → Action σ α)

def answered : List ι → σ → List (ι × Except Fault α)
  | [], _ => []
  | i :: steps, s => (i, (step i s).result) :: answered steps (step i s).state

/-- Steps that leave the state as it is can be taken out of a run, and the others answer as
before. -/
theorem answered_filter {keep : ι → Bool} (idle : ∀ i s, keep i = false → (step i s).state = s)
    (steps : List ι) (s : σ) :
    (answered step steps s).filter (keep ·.1) = answered step (steps.filter keep) s := by
  induction steps generalizing s with
  | nil => rfl
  | cons i steps ih =>
    rw [answered, List.filter_cons, List.filter_cons, ih]
    cases kept : keep i with
    | false => rw [idle i s kept]; rfl
    | true => rfl

end Action

def Demand.noLookup : Demand → Bool
  | .get _ => false
  | .put _ _ | .remove _ | .clear | .size | .assign _ _ => true

namespace Arrivals

def arriving? (d : Demand) (held : Entries) : Option CacheKey :=
  match d with
  | .put k _ => if k ∈ held.keys then none else some k
  | .get _ | .remove _ | .clear | .size | .assign _ _ => none

def Arrives (k : CacheKey) (d : Demand) (s : Arrivals × Entries) : Prop :=
  arriving? d s.2 = some k

structure Agrees (a : Arrivals) : Prop where
  members : ∀ k, k ∈ a.members ↔ k ∈ a.queue
  distinct : a.members.Nodup

def policy : Policy Arrivals := ⟨queue, capacity, arriving?, Agrees⟩

variable {a : Arrivals} {k : CacheKey}

theorem Agrees.trim (h : a.Agrees) (distinct : a.queue.Nodup) : a.trim.2.Agrees where
  members k := by
    change k ∈ a.members.removeAll _ ↔ k ∈ a.queue.drop _
    rw [mem_drop_iff distinct, ← h.members k]
    simp [List.removeAll]
  distinct := h.distinct.filter _

theorem Agrees.arrived (h : a.Agrees) (k : CacheKey) : (a.arrived k).Agrees := by
  unfold Arrivals.arrived
  split
  · exact h
  · rename_i new
    refine ⟨fun j => ?_, List.nodup_cons.mpr ⟨new, h.distinct⟩⟩
    rw [List.mem_cons, List.mem_append, List.mem_singleton, h.members j, or_comm]

theorem Agrees.queue_forget (h : a.Agrees) (distinct : a.queue.Nodup) (k : CacheKey) :
    (a.forget k).queue = a.queue.erase k := by
  unfold Arrivals.forget
  split
  · rw [distinct.erase_eq_filter]
    exact List.filter_congr fun j _ => by by_cases same : j = k <;> simp [same]
  · rename_i absent
    exact (List.erase_of_not_mem fun there => absent ((h.members k).mpr there)).symm

theorem Agrees.forget (h : a.Agrees) (distinct : a.queue.Nodup) (k : CacheKey) :
    (a.forget k).Agrees := by
  have queue := h.queue_forget distinct k
  have members : (a.forget k).members = a.members.erase k := by
    unfold Arrivals.forget
    split
    · rfl
    · rename_i absent
      exact (List.erase_of_not_mem absent).symm
  refine ⟨fun j => ?_, members ▸ h.distinct.erase k⟩
  rw [queue, members, distinct.mem_erase_iff, h.distinct.mem_erase_iff, h.members j]

theorem enqueue_of_mem (there : k ∈ a.members) (fits : a.queue.length ≤ a.capacity) :
    (a.enqueue k).1 = [] ∧ (a.enqueue k).2.queue = a.queue := by
  have none : a.queue.length - a.capacity = 0 := Nat.sub_eq_zero_of_le fits
  rw [enqueue_eq, arrived, if_pos there]
  simp [trim, none]

theorem enqueue_of_not_mem (new : k ∉ a.members) (positive : 1 ≤ a.capacity) :
    (a.enqueue k).1 = a.queue.take (a.queue.length + 1 - a.capacity) ∧
      (a.enqueue k).2.queue = a.queue.drop (a.queue.length + 1 - a.capacity) ++ [k] := by
  have surplus : (a.queue ++ [k]).length - a.capacity = a.queue.length + 1 - a.capacity := by
    rw [List.length_append, List.length_singleton]
  have fits : a.queue.length + 1 - a.capacity ≤ a.queue.length := by omega
  rw [enqueue_eq, arrived, if_neg new]
  simp only [trim, surplus, List.take_append_of_le_length fits, List.drop_append_of_le_length fits,
    and_self]

theorem Agrees.enqueue (h : a.Agrees) (distinct : a.queue.Nodup) (k : CacheKey) :
    (a.enqueue k).2.Agrees := by
  rw [enqueue_eq]
  refine (h.arrived k).trim ?_
  unfold Arrivals.arrived
  split
  · exact distinct
  · rename_i new
    rw [← List.concat_eq_append]
    exact distinct.concat fun there => new ((h.members k).mpr there)

theorem Agrees.enqueue_eq_relined (h : a.Agrees) {held : Entries}
    (lined : Demand.Lined a.queue a.capacity held) (k : CacheKey) (e : Entry) :
    (a.enqueue k).1 = (Demand.put k e).leaving a.queue a.capacity ∧
      (a.enqueue k).2.queue =
        (Demand.put k e).relined a.queue a.capacity (arriving? (.put k e) held) := by
  by_cases there : k ∈ a.queue
  · obtain ⟨leaves, queue⟩ := enqueue_of_mem ((h.members k).mpr there) lined.bounded
    have held : k ∈ held.keys := (lined.keys k).mp there
    simp [leaves, queue, Demand.relined, Demand.remaining, Demand.leaving, there, arriving?, held]
  · obtain ⟨leaves, queue⟩ :=
      enqueue_of_not_mem (fun member => there ((h.members k).mp member)) lined.positive
    have new : k ∉ held.keys := fun mem => there ((lined.keys k).mpr mem)
    have fits : a.queue.length + 1 - a.capacity ≤ a.queue.length := by
      have := lined.positive
      omega
    have apart : k ∉ a.queue.drop (a.queue.length + 1 - a.capacity) := fun behind =>
      there (List.mem_of_mem_drop behind)
    simp only [leaves, queue, Demand.relined, Demand.remaining, Demand.leaving, there, if_false,
      arriving?, new, List.length_take, Nat.min_eq_left fits, List.erase_of_not_mem apart, and_self]

end Arrivals

namespace Layer

theorem removeEach_base (id : String) (ks : List CacheKey) (m : Entries) :
    removeEach (base id) ks m = ⟨.ok (), m.eraseAll ks⟩ := by
  induction ks generalizing m with
  | nil => rfl
  | cons k ks ih =>
    have removed : (base id).remove k m = ⟨.ok (m.get? k), m.erase k⟩ := rfl
    simp only [removeEach, bind_apply, discard_apply, removed, Except.map, ih, Table.eraseAll_cons]

theorem state_assign_fifo (id name value : String) (a : Arrivals) (m : Entries) :
    ((Demand.assign name value).on (fifo (base id)) (a, m)).state =
      match (Demand.assign name value).capacity? "size" with
      | some n => (({ a with capacity := n } : Arrivals).trim.2,
          m.eraseAll (a.queue.take (a.queue.length - n)))
      | none => (a, m) := by
  by_cases size : name = "size"
  · subst size
    cases asked : Setting.capacity "size" value with
    | error fault => simp [Demand.on, fifo, bind_apply, Demand.capacity?, asked, Except.toOption]
    | ok n =>
      simp [Demand.on, fifo, bind_apply, Demand.capacity?, asked, Except.toOption, removeEach_base,
        Arrivals.trim]
  · simp [Demand.on, fifo, Demand.capacity?, size]

theorem governs_fifo (id : String) : Arrivals.policy.Governs (fifo (base id)) where
  known d m k marked := by
    cases d with
    | put j e =>
      simp only [Arrivals.policy, Arrivals.arriving?] at marked
      split at marked
      · cases marked
      · cases marked
        exact .inl ⟨e, rfl⟩
    | _ => cases marked
  new k e m new := if_neg new
  step d a m keeps := by
    obtain ⟨lined, agrees⟩ := keeps
    cases d with
    | put k e =>
      obtain ⟨leaves, line⟩ := Arrivals.Agrees.enqueue_eq_relined agrees lined k e
      refine ⟨(a.enqueue k).2, ?_, Arrivals.capacity_enqueue k a, line,
        Arrivals.Agrees.enqueue agrees lined.distinct k⟩
      change _ = ((a.enqueue k).2,
        (m.insert k e).eraseAll ((Demand.put k e).leaving a.queue a.capacity))
      have written : (base id).put k e m = ⟨.ok (), m.insert k e⟩ := rfl
      rw [← leaves]
      simp [Demand.on, fifo, bind_apply, written, removeEach_base]
    | get k => exact ⟨a, rfl, rfl, rfl, agrees⟩
    | remove k =>
      refine ⟨a.forget k, rfl, ?_, agrees.queue_forget lined.distinct k,
        agrees.forget lined.distinct k⟩
      simp only [Arrivals.policy, Arrivals.forget]
      split <;> rfl
    | clear => exact ⟨{ a with queue := [], members := [] }, rfl, rfl, rfl, fun _ => Iff.rfl, .nil⟩
    | size => exact ⟨a, rfl, rfl, rfl, agrees⟩
    | assign name value =>
      have run := state_assign_fifo id name value a m
      cases asked : (Demand.assign name value).capacity? "size" with
      | none =>
        rw [asked] at run
        refine ⟨a, ?_, rfl, (Demand.relined_of_unset asked).symm, agrees⟩
        rw [run, Demand.leaving_of_unset asked]
        rfl
      | some n =>
        rw [asked] at run
        let resized : Arrivals := { a with capacity := n }
        have agrees' : resized.Agrees := ⟨agrees.members, agrees.distinct⟩
        refine ⟨resized.trim.2, ?_, rfl, (Demand.relined_of_set asked).symm,
          agrees'.trim lined.distinct⟩
        rw [run, Demand.leaving_of_set asked]
        rfl

theorem fresh_fifo (capacity : Nat) : Arrivals.policy.Keeps (.empty capacity) .empty :=
  ⟨⟨fun _ => Iff.rfl, .nil, Nat.zero_le _, Nat.le_max_right ..⟩, fun _ => Iff.rfl, .nil⟩

/-- A queue over a map is exact. Over every run the queue, its members and the map have the same
keys, the queue each once, and no more than there is room for; a lookup finds what was put last; an
entry that is neither removed nor cleared leaves only for a new key where there is no room, or for a
smaller capacity, and those that leave then are the ones that came earliest; and what is not a
lookup answers as if there had been no lookups. -/
theorem earliest_arrival_leaves (id : String) (capacity : Nat) (past : List Demand) (d : Demand) :
    let layer := fifo (base id)
    let start : Arrivals × Entries := (.empty capacity, .empty)
    let s := played (Demand.on layer) past start
    let room := Demand.room (max capacity 1) past
    (s.1.queue.Nodup ∧ s.1.members.Nodup ∧
      (∀ k, (k ∈ s.1.queue ↔ k ∈ s.2.keys) ∧ (k ∈ s.1.members ↔ k ∈ s.2.keys)) ∧
      s.2.size ≤ room ∧ s.1.capacity = room) ∧
    (∀ k, (layer.get k s).result = .ok (s.2.get? k) ∧
      ∀ e, s.2.get? k = some e → Demand.LatestPut past k e) ∧
    d.Evicts room (Precedes (Demand.on layer) start Arrivals.Arrives past) s.2
      (d.on layer s).state.2 ∧
    (answered (Demand.on layer) past start).filter (·.1.noLookup) =
      answered (Demand.on layer) (past.filter Demand.noLookup) start := by
  intro layer start s room
  have governs := governs_fifo id
  have fresh := fresh_fifo capacity
  obtain ⟨⟨lined, agrees⟩, same, -⟩ := governs.keeps_played fresh past
  refine ⟨⟨lined.distinct, agrees.distinct, fun k => ⟨lined.keys k, ?_⟩, ?_, same⟩,
    fun k => ⟨rfl, fun e there => governs.latest_put fresh past there⟩,
    governs.evicts_played fresh past d, ?_⟩
  · exact (agrees.members k).trans (lined.keys k)
  · calc
      s.2.size = s.1.queue.length := lined.size_eq
      _ ≤ s.1.capacity := lined.bounded
      _ = room := same
  · refine answered_filter (Demand.on layer) (fun d s lookup => ?_) past start
    cases d with
    | get k => rfl
    | _ => cases lookup

end Layer
end StatementCache
