import StatementCache.Proofs.Eviction.Line

/-! Least recent use, exactly. Over a map the index has the keys of the map, and the entry that
leaves is the one whose latest use in the whole run is the earliest. -/
namespace StatementCache

open StatementCache.Action

namespace Recency

def line (r : Recency) : List CacheKey := r.keys.reverse

def used? (d : Demand) (held : Entries) : Option CacheKey :=
  match d with
  | .put k _ => some k
  | .get k => if k ∈ held.keys then some k else none
  | .remove _ | .clear | .size | .assign _ _ => none

def Uses (k : CacheKey) (d : Demand) (s : Recency × Entries) : Prop := used? d s.2 = some k

def policy : Policy Recency := ⟨line, capacity, used?, fun _ => True⟩

theorem line_forget (r : Recency) (k : CacheKey) (distinct : r.keys.Nodup) :
    (r.forget k).line = r.line.erase k := by
  simp only [line, forget, distinct.erase_eq_filter,
    (List.nodup_reverse.mpr distinct).erase_eq_filter, List.filter_reverse]

theorem line_front (r : Recency) (k : CacheKey) (distinct : r.keys.Nodup) :
    line { r with keys := k :: r.keys.erase k } = r.line.erase k ++ [k] := by
  rw [← r.line_forget k distinct]
  simp only [line, forget, List.reverse_cons]

theorem push_eq (r : Recency) (k : CacheKey) (e : Entry) (distinct : r.keys.Nodup)
    (bounded : r.keys.length ≤ r.capacity) (positive : 1 ≤ r.capacity) :
    (r.push k).1.toList = (Demand.put k e).leaving r.line r.capacity ∧
      (r.push k).2.line = (Demand.put k e).relined r.line r.capacity (some k) := by
  have mem : k ∈ r.line ↔ k ∈ r.keys := List.mem_reverse
  have length : r.line.length = r.keys.length := List.length_reverse
  unfold push
  split
  · rename_i there
    simp only [Demand.relined, Demand.remaining, Demand.leaving, mem.mpr there, if_true,
      List.length_nil, List.drop_zero, line_front r k distinct]
    exact ⟨rfl, trivial⟩
  · rename_i new
    have absent : k ∉ r.line := fun there => new (mem.mp there)
    have apart : k ∉ r.line.drop (r.line.take (r.keys.length + 1 - r.capacity)).length :=
      fun there => absent (List.mem_of_mem_drop there)
    simp only [Demand.relined, Demand.remaining, Demand.leaving, absent, if_false, length,
      List.erase_of_not_mem apart]
    split
    · rename_i free
      have none : r.keys.length + 1 - r.capacity = 0 := by omega
      simp [none, line]
    · have one : r.keys.length + 1 - r.capacity = 1 := by omega
      have some : min 1 r.keys.length = 1 := by omega
      simp only [one, List.length_take, length, some]
      refine ⟨?_, ?_⟩
      · simp [line, List.take_one]
      · simp [line]

end Recency

namespace Layer

theorem popLeast_base (id : String) (count : Nat) (r : Recency) (m : Entries) :
    popLeast (base id) count (r, m) =
      ⟨.ok (), ({ r with keys := r.keys.take (r.keys.length - count) },
        m.eraseAll (r.line.take count))⟩ := by
  induction count generalizing r m with
  | zero => simp [popLeast]
  | succ count ih =>
    obtain empty | ⟨rest, last, keys⟩ := r.keys.eq_nil_or_concat
    · simp [popLeast, bind_apply, Recency.pop, Recency.line, empty]
    · have popped : (r.pop).1 = some last ∧ (r.pop).2 = { r with keys := rest } := by
        simp [Recency.pop, keys]
      have removed : (base id).remove last m = ⟨.ok (m.get? last), m.erase last⟩ := rfl
      have fewer : rest.length + 1 - (count + 1) = rest.length - count := by omega
      simp only [popLeast, bind_apply, onFirst_apply, total_apply, popped, discard_apply,
        onSecond_apply, removed, Except.map, ih]
      simp [Recency.line, keys, fewer, List.take_append_of_le_length]

theorem state_assign_lru (id name value : String) (r : Recency) (m : Entries) :
    ((Demand.assign name value).on (lru (base id)) (r, m)).state =
      match (Demand.assign name value).capacity? "size" with
      | some n => (⟨r.keys.take (r.keys.length - (r.keys.length - n)), n⟩,
          m.eraseAll (r.line.take (r.line.length - n)))
      | none => (r, m) := by
  have length : r.line.length = r.keys.length := List.length_reverse
  by_cases size : name = "size"
  · subst size
    cases asked : Setting.capacity "size" value with
    | error fault => simp [Demand.on, lru, bind_apply, Demand.capacity?, asked, Except.toOption]
    | ok n =>
      simp [Demand.on, lru, bind_apply, Demand.capacity?, asked, Except.toOption, resizeLru,
        popLeast_base, length]
  · simp [Demand.on, lru, Demand.capacity?, size]

theorem governs_lru (id : String) : Recency.policy.Governs (lru (base id)) where
  known d m k marked := by
    cases d with
    | put j e => exact .inl ⟨e, by rw [Option.some.inj marked]⟩
    | get j =>
      simp only [Recency.policy, Recency.used?] at marked
      split at marked
      · rename_i there
        cases marked
        exact .inr ⟨rfl, there⟩
      · cases marked
    | _ => cases marked
  new k e m _ := rfl
  step d r m keeps := by
    obtain ⟨⟨keys, distinct, bounded, positive⟩, -⟩ := keeps
    replace distinct : r.keys.Nodup := List.nodup_reverse.mp distinct
    replace keys : ∀ k, k ∈ r.keys ↔ k ∈ m.keys := fun k => List.mem_reverse.symm.trans (keys k)
    replace bounded : r.keys.length ≤ r.capacity := by
      rw [← List.length_reverse]
      exact bounded
    cases d with
    | put k e =>
      obtain ⟨leaves, line⟩ := r.push_eq k e distinct bounded positive
      refine ⟨(r.push k).2, ?_, Recency.capacity_push r k, line, trivial⟩
      change _ = ((r.push k).2,
        (m.insert k e).eraseAll ((Demand.put k e).leaving r.line r.capacity))
      rw [← leaves]
      cases evicted : (r.push k).1 <;>
        simp [Demand.on, lru, bind_apply, base, evicted]
    | get k =>
      refine ⟨r.touch k, rfl, ?_, ?_, trivial⟩
      · simp only [Recency.policy, Recency.touch]
        split <;> rfl
      · simp only [Recency.policy, Recency.touch, Recency.used?, keys k]
        split
        · exact r.line_front k distinct
        · rfl
    | remove k => exact ⟨r.forget k, rfl, rfl, r.line_forget k distinct, trivial⟩
    | clear => exact ⟨{ r with keys := [] }, rfl, rfl, rfl, trivial⟩
    | size => exact ⟨r, rfl, rfl, rfl, trivial⟩
    | assign name value =>
      have run := state_assign_lru id name value r m
      cases asked : (Demand.assign name value).capacity? "size" with
      | none =>
        rw [asked] at run
        refine ⟨r, ?_, rfl, (Demand.relined_of_unset asked).symm, trivial⟩
        rw [run, Demand.leaving_of_unset asked]
        rfl
      | some n =>
        rw [asked] at run
        refine ⟨⟨r.keys.take (r.keys.length - (r.keys.length - n)), n⟩, ?_, rfl, ?_, trivial⟩
        · rw [run, Demand.leaving_of_set asked]
          rfl
        · refine Eq.trans ?_ (Demand.relined_of_set asked).symm
          simp [Recency.policy, Recency.line, List.drop_reverse]

theorem fresh_lru (capacity : Nat) : Recency.policy.Keeps (.empty capacity) .empty :=
  ⟨⟨fun _ => Iff.rfl, .nil, Nat.zero_le _, Nat.le_max_right ..⟩, trivial⟩

/-- An index over a map is exact. Over every run its keys are those of the map, each once and no
more than there is room for; a lookup finds what was put last; and an entry that is neither removed
nor cleared leaves only for a new key where there is no room, or for a smaller capacity. Those that
leave then are the ones whose latest use in the whole run is the earliest. -/
theorem least_recent_use_leaves (id : String) (capacity : Nat) (past : List Demand) (d : Demand) :
    let layer := lru (base id)
    let start : Recency × Entries := (.empty capacity, .empty)
    let s := played (Demand.on layer) past start
    let room := Demand.room (max capacity 1) past
    (s.1.keys.Nodup ∧ (∀ k, k ∈ s.1.keys ↔ k ∈ s.2.keys) ∧ s.2.size ≤ room ∧
      s.1.capacity = room) ∧
    (∀ k, (layer.get k s).result = .ok (s.2.get? k) ∧
      ∀ e, s.2.get? k = some e → Demand.LatestPut past k e) ∧
    d.Evicts room (Precedes (Demand.on layer) start Recency.Uses past) s.2
      (d.on layer s).state.2 := by
  intro layer start s room
  have governs := governs_lru id
  have fresh := fresh_lru capacity
  obtain ⟨⟨lined, -⟩, same, -⟩ := governs.keeps_played fresh past
  refine ⟨⟨List.nodup_reverse.mp lined.distinct, fun k => ?_, ?_, same⟩, fun k => ⟨rfl, ?_⟩, ?_⟩
  · exact List.mem_reverse.symm.trans (lined.keys k)
  · calc
      s.2.size = s.1.line.length := lined.size_eq
      _ ≤ s.1.capacity := lined.bounded
      _ = room := same
  · exact fun e there => governs.latest_put fresh past there
  · exact governs.evicts_played fresh past d

example :
    let layer := lru (base "orders")
    let key (n : Int64) : CacheKey := .ofValues [.integer n]
    let past : List Demand := [.put (key 1) .placeholder, .put (key 2) .placeholder, .get (key 1),
      .put (key 3) .placeholder]
    let s := played (Demand.on layer) past (.empty 2, .empty)
    s.2.keys = [key 1, key 3] := by
  rfl

end Layer
end StatementCache
