import StatementCache.Cache.Chain
import StatementCache.Proofs.Eviction.Arrivals
import StatementCache.Proofs.Eviction.Recency
import StatementCache.Proofs.Eviction.Strays

/-! Eviction over a map that may refuse any operation. -/
namespace StatementCache

open StatementCache.Action

variable {ω : Type}

namespace Demand

variable {line : List CacheKey} {room : Nat}

theorem mem_relined_put (distinct : line.Nodup) (k j : CacheKey) (e : Entry) :
    j ∈ (Demand.put k e).relined line room (some k) ↔
      (some k = some j ∨ j ∈ line) ∧ j ∉ (Demand.put k e).leaving line room := by
  have front := mem_drop_iff distinct (n := ((Demand.put k e).leaving line room).length) (k := j)
  rw [← leaving_eq_take] at front
  by_cases same : k = j
  · subst same
    simp [relined, not_mem_leaving_put]
  · simp [relined, remaining, same, Ne.symm same, List.mem_erase_of_ne, front]

theorem nodup_relined_put (distinct : line.Nodup) (k : CacheKey) (e : Entry) :
    ((Demand.put k e).relined line room (some k)).Nodup := by
  have rest := distinct.sublist ((Demand.put k e).remaining_sublist line room)
  rw [relined, ← List.concat_eq_append]
  exact (rest.erase k).concat rest.not_mem_erase

end Demand

/-! The map below. -/

namespace Layer

variable (permit : Operation → Action ω Unit) (id : String)

/-- A map that asks before every operation whether it may be done. -/
def refusing : Store (Entries × ω) :=
  faulty (fun op => Action.onSecond (permit op)) (base id).beside

/-- It is the failing layer over a map. -/
theorem store_faulty_base (site : Site ω) :
    Chain.store site (.faulty (.base id)) = refusing site.permit id := rfl

def Refuses : Prop := ¬((permit .remove).Succeeds ∧ (permit .clear).Succeeds)

variable (k : CacheKey) (e : Entry) (m : Entries) (w : ω)

theorem permit_cases (op : Operation) : ∃ w', permit op w = ⟨.ok (), w'⟩ ∨
    (∃ fault, permit op w = ⟨.error fault, w'⟩) ∧ ¬(permit op).Succeeds := by
  rcases asked : permit op w with ⟨fault | _, w'⟩
  · refine ⟨w', .inr ⟨⟨fault, rfl⟩, fun grants => ?_⟩⟩
    obtain ⟨_, granted⟩ := grants w
    rw [asked] at granted
    cases granted
  · exact ⟨w', .inl rfl⟩

theorem put_refusing : ∃ w', (refusing permit id).put k e (m, w) = ⟨.ok (), (m.insert k e, w')⟩ ∨
    ∃ fault, (refusing permit id).put k e (m, w) = ⟨.error fault, (m, w')⟩ := by
  obtain ⟨w', granted | ⟨⟨fault, denied⟩, -⟩⟩ := permit_cases permit w .put
  · exact ⟨w', .inl (by simp [refusing, faulty, bind_apply, granted, base, Store.beside])⟩
  · exact ⟨w', .inr ⟨fault, by simp [refusing, faulty, bind_apply, denied]⟩⟩

theorem get_refusing : ∃ found w', (refusing permit id).get k (m, w) = ⟨found, (m, w')⟩ := by
  obtain ⟨w', granted | ⟨⟨fault, denied⟩, -⟩⟩ := permit_cases permit w .get
  · exact ⟨.ok (m.get? k), w', by simp [refusing, faulty, bind_apply, granted, base, Store.beside]⟩
  · exact ⟨.error fault, w', by simp [refusing, faulty, bind_apply, denied]⟩

theorem remove_refusing : ∃ w',
    (refusing permit id).remove k (m, w) = ⟨.ok (m.get? k), (m.erase k, w')⟩ ∨
      (∃ fault, (refusing permit id).remove k (m, w) = ⟨.error fault, (m, w')⟩) ∧
        Refuses permit := by
  obtain ⟨w', granted | ⟨⟨fault, denied⟩, denies⟩⟩ := permit_cases permit w .remove
  · exact ⟨w', .inl (by simp [refusing, faulty, bind_apply, granted, base, Store.beside])⟩
  · exact ⟨w', .inr ⟨⟨fault, by simp [refusing, faulty, bind_apply, denied]⟩,
      fun grants => denies grants.1⟩⟩

theorem clear_refusing : ∃ w', (refusing permit id).clear (m, w) = ⟨.ok (), (.empty, w')⟩ ∨
    (∃ fault, (refusing permit id).clear (m, w) = ⟨.error fault, (m, w')⟩) ∧ Refuses permit := by
  obtain ⟨w', granted | ⟨⟨fault, denied⟩, denies⟩⟩ := permit_cases permit w .clear
  · exact ⟨w', .inl (by simp [refusing, faulty, bind_apply, granted, base, Store.beside])⟩
  · exact ⟨w', .inr ⟨⟨fault, by simp [refusing, faulty, bind_apply, denied]⟩,
      fun grants => denies grants.2⟩⟩

theorem removeEach_refusing (ks : List CacheKey) : ∃ gone lost done w', ks = gone ++ lost ∧
    removeEach (refusing permit id) ks (m, w) = ⟨done, (m.eraseAll gone, w')⟩ ∧
      (lost = [] ∨ (∃ fault, done = .error fault) ∧ Refuses permit) := by
  induction ks generalizing m w with
  | nil => exact ⟨[], [], .ok (), w, rfl, rfl, .inl rfl⟩
  | cons k ks ih =>
    obtain ⟨w', removed | ⟨⟨fault, refused⟩, refuses⟩⟩ := remove_refusing permit id k m w
    · obtain ⟨gone, lost, done, w', rfl, run, failed⟩ := ih (m.erase k) w'
      refine ⟨k :: gone, lost, done, w', rfl, ?_, failed⟩
      simp only [removeEach, bind_apply, discard_apply, removed, Except.map, Table.eraseAll_cons]
      exact run
    · refine ⟨[], k :: ks, .error fault, w', rfl, ?_, .inr ⟨⟨fault, rfl⟩, refuses⟩⟩
      simp only [removeEach, bind_apply, discard_apply, refused, Except.map, Table.eraseAll_nil]

/-- The keys at the end of the index leave up to the first refusal, and the key that is refused
leaves the index too. -/
theorem popLeast_refusing (count : Nat) (r : Recency) : ∃ keys gone lost done w',
    r.keys = keys ++ (gone ++ lost).reverse ∧ (gone ++ lost).length ≤ count ∧
      popLeast (refusing permit id) count (r, (m, w)) =
        ⟨done, ({ r with keys := keys }, (m.eraseAll gone, w'))⟩ ∧
      (done = .ok () ∧ lost = [] ∧ keys.length ≤ r.keys.length - count ∨
        (∃ fault, done = .error fault) ∧ Refuses permit) := by
  induction count generalizing r m w with
  | zero => exact ⟨r.keys, [], [], .ok (), w, by simp, by simp, rfl, .inl ⟨rfl, rfl, Nat.le_refl _⟩⟩
  | succ count ih =>
    obtain empty | ⟨rest, last, keys⟩ := r.keys.eq_nil_or_concat
    · have same : { r with keys := [] } = r := by rw [← empty]
      refine ⟨[], [], [], .ok (), w, empty, Nat.zero_le _, ?_, .inl ⟨rfl, rfl, Nat.zero_le _⟩⟩
      simp [popLeast, bind_apply, Recency.pop, empty, same]
    · rw [List.concat_eq_append] at keys
      have popped : r.pop = (some last, { r with keys := rest }) := by simp [Recency.pop, keys]
      obtain ⟨w', removed | ⟨⟨fault, refused⟩, refuses⟩⟩ := remove_refusing permit id last m w
      · obtain ⟨front, gone, lost, done, w', split, few, run, ended⟩ :=
          ih (m.erase last) w' { r with keys := rest }
        have fewer : rest.length - count = r.keys.length - (count + 1) := by
          rw [keys, List.length_append, List.length_singleton]
          omega
        rw [fewer] at ended
        refine ⟨front, last :: gone, lost, done, w', ?_, Nat.succ_le_succ few, ?_, ended⟩
        · rw [keys, show rest = _ from split]
          simp
        · simp only [popLeast, bind_apply, onFirst_apply, total_apply, popped, discard_apply,
            onSecond_apply, removed, Except.map, Table.eraseAll_cons]
          exact run
      · refine ⟨rest, [], [last], .error fault, w', by simpa using keys, by simp, ?_,
          .inr ⟨⟨fault, rfl⟩, refuses⟩⟩
        simp only [popLeast, bind_apply, onFirst_apply, total_apply, popped, discard_apply,
          onSecond_apply, refused, Except.map, Table.eraseAll_nil]

end Layer

namespace Policy

open Layer

variable {β : Type} {p : Policy β} {layer : Store (β × Entries × ω)}
  {permit : Operation → Action ω Unit} {id : String} {b b' : β} {m : Entries} {w : ω}
  {k : CacheKey}

section

variable (sane : p.Sane b') (room : p.capacity b' = p.capacity b)
include sane room

/-- The map is written first, so its refusal leaves everything as it is. Then the keys that have to
go for the new one leave up to the first refusal. -/
theorem charts_of_put {e : Entry} {evict : Action (β × Entries × ω) Unit} (before : p.Sane b)
    (put : layer.put k e = (onSecond ((refusing permit id).put k e) >>= fun _ => evict))
    (evicts : ∀ t, evict (b, t) = onSecond (removeEach (refusing permit id)
      ((Demand.put k e).leaving (p.line b) (p.capacity b))) (b', t))
    (index : ∀ j, j ∈ p.line b' ↔ (some k = some j ∨ j ∈ p.line b) ∧
      j ∉ (Demand.put k e).leaving (p.line b) (p.capacity b)) :
    p.Charts layer (Refuses permit) (.put k e) (b, (m, w)) := by
  obtain ⟨w', accepted | ⟨fault, refused⟩⟩ := put_refusing permit id k e m w
  · obtain ⟨gone, lost, done, w'', split, run, failed⟩ :=
      removeEach_refusing permit id (m.insert k e) w'
        ((Demand.put k e).leaving (p.line b) (p.capacity b))
    have whole : (Demand.put k e).on layer (b, (m, w)) =
        ⟨done.map fun _ => .done, (b', ((m.insert k e).eraseAll gone, w''))⟩ := by
      simp only [Demand.on, put, map_apply, bind_apply, onSecond_apply, accepted, evicts, run]
    rw [split] at index
    refine charts_of_leaving whole sane (by simp) (.inl room) index ?_ ?_ ?_ ?_
    · intro j
      rw [Table.mem_keys_eraseAll, Table.mem_keys_insert, Option.some.injEq, eq_comm]
    · rintro j ⟨⟩
      exact ⟨e, rfl⟩
    · exact fun j leaves => split ▸ leaves
    · obtain rfl | ⟨⟨fault, rfl⟩, refuses⟩ := failed
      · exact .inl rfl
      · exact .inr ⟨⟨fault, rfl⟩, refuses⟩
  · have whole : (Demand.put k e).on layer (b, (m, w)) = ⟨.error fault, (b, (m, w'))⟩ := by
      simp only [Demand.on, put, map_apply, bind_apply, onSecond_apply, refused, Except.map]
    exact charts_of_idle whole before (by simp) rfl (fun _ => Iff.rfl) rfl

theorem charts_of_get
    (get : layer.get k (b, (m, w)) = onSecond ((refusing permit id).get k) (b', (m, w)))
    (index : ∀ j, j ∈ p.line b' ↔ j ∈ p.line b) :
    p.Charts layer (Refuses permit) (.get k) (b, (m, w)) := by
  obtain ⟨found, w', run⟩ := get_refusing permit id k m w
  have whole : (Demand.get k).on layer (b, (m, w)) = ⟨found.map .found, (b', (m, w'))⟩ := by
    simp only [Demand.on, map_apply, get, onSecond_apply, run]
  exact charts_of_idle whole sane (by simp) room index rfl

theorem charts_of_remove
    (remove : layer.remove k (b, (m, w)) = onSecond ((refusing permit id).remove k) (b', (m, w)))
    (index : ∀ j, j ∈ p.line b' ↔ j ∈ p.line b ∧ j ≠ k) :
    p.Charts layer (Refuses permit) (.remove k) (b, (m, w)) := by
  have index : ∀ j, j ∈ p.line b' ↔ j ∈ p.line b ∧ j ∉ [k] := by simpa using index
  obtain ⟨w', removed | ⟨⟨fault, refused⟩, refuses⟩⟩ := remove_refusing permit id k m w
  · have whole : (Demand.remove k).on layer (b, (m, w)) =
        ⟨.ok (.found (m.get? k)), (b', (m.erase k, w'))⟩ := by
      simp only [Demand.on, map_apply, remove, onSecond_apply, removed, Except.map]
    have distinct : m.keys.Nodup := m.distinct
    refine charts_of_naming whole sane room (by simp) index (by simp) (.inl ⟨⟨_, rfl⟩, fun j => ?_⟩)
    rw [Table.keys_erase, distinct.mem_erase_iff, List.mem_singleton, and_comm]
  · have whole : (Demand.remove k).on layer (b, (m, w)) = ⟨.error fault, (b', (m, w'))⟩ := by
      simp only [Demand.on, map_apply, remove, onSecond_apply, refused, Except.map]
    exact charts_of_naming whole sane room (by simp) index (by simp)
      (.inr ⟨⟨⟨fault, rfl⟩, rfl⟩, refuses⟩)

theorem charts_of_clear
    (clear : layer.clear (b, (m, w)) = onSecond (refusing permit id).clear (b', (m, w)))
    (empty : p.line b' = []) :
    p.Charts layer (Refuses permit) .clear (b, (m, w)) := by
  have index : ∀ j, j ∈ p.line b' ↔ j ∈ p.line b ∧ j ∉ p.line b ++ m.keys := by
    simp +contextual [empty]
  have swept : ∀ j, Demand.clear = .remove j ∨ Demand.clear = .clear → j ∈ m.keys →
      j ∈ p.line b ++ m.keys := fun j _ there => List.mem_append_right _ there
  obtain ⟨w', cleared | ⟨⟨fault, refused⟩, refuses⟩⟩ := clear_refusing permit id m w
  · have whole : Demand.clear.on layer (b, (m, w)) = ⟨.ok .done, (b', (.empty, w'))⟩ := by
      simp only [Demand.on, map_apply, clear, onSecond_apply, cleared, Except.map]
    refine charts_of_naming whole sane room (by simp) index swept (.inl ⟨⟨_, rfl⟩, fun j => ?_⟩)
    simp +contextual [Table.keys, Table.empty]
  · have whole : Demand.clear.on layer (b, (m, w)) = ⟨.error fault, (b', (m, w'))⟩ := by
      simp only [Demand.on, map_apply, clear, onSecond_apply, refused, Except.map]
    exact charts_of_naming whole sane room (by simp) index swept
      (.inr ⟨⟨⟨fault, rfl⟩, rfl⟩, refuses⟩)

end

theorem charts_of_size {refuses : Prop} {value : String} {n : Nat} {gone lost : List CacheKey}
    {w' : ω} {r : Except Fault Response} (valid : Setting.capacity "size" value = .ok n)
    (run : (Demand.assign "size" value).on layer (b, (m, w)) = ⟨r, (b', (m.eraseAll gone, w'))⟩)
    (sane : p.Sane b') (room : p.capacity b' = p.capacity b ∨ p.capacity b' = n)
    (index : ∀ j, j ∈ p.line b' ↔ j ∈ p.line b ∧ j ∉ gone ++ lost)
    (surplus : ∀ j ∈ gone ++ lost, j ∈ (p.line b).take ((p.line b).length - n))
    (failed : lost = [] ∨ (∃ fault, r = .error fault) ∧ refuses) :
    p.Charts layer refuses (.assign "size" value) (b, (m, w)) := by
  have set : (Demand.assign "size" value).capacity? "size" = some n := by
    simp [Demand.capacity?, valid, Except.toOption]
  have index (j : CacheKey) :
      j ∈ p.line b' ↔ (none = some j ∨ j ∈ p.line b) ∧ j ∉ gone ++ lost := by
    simpa using index j
  refine charts_of_leaving run sane (by simp) (room.imp_right fun new => ?_) index (fun j => ?_)
    (by simp) (fun j leaves => ?_) failed
  · rw [set, new]
  · simp [Table.mem_keys_eraseAll]
  · rw [Demand.leaving_of_set set]
    exact surplus j leaves

theorem charts_of_assign {refuses : Prop} (sane : p.Sane b) (name value : String)
    (other : name ≠ "size" → layer.assign name value (b, (m, w)) = ⟨.ok false, (b, (m, w))⟩)
    (invalid : ∀ fault, Setting.capacity "size" value = .error fault →
      layer.assign "size" value (b, (m, w)) = ⟨.error fault, (b, (m, w))⟩)
    (valid : ∀ n, Setting.capacity "size" value = .ok n →
      p.Charts layer refuses (.assign "size" value) (b, (m, w))) :
    p.Charts layer refuses (.assign name value) (b, (m, w)) := by
  by_cases size : name = "size"
  · subst size
    cases asked : Setting.capacity "size" value with
    | ok n => exact valid n asked
    | error fault =>
      have whole : (Demand.assign "size" value).on layer (b, (m, w)) =
          ⟨.error fault, (b, (m, w))⟩ := by
        simp only [Demand.on, map_apply, invalid fault asked, Except.map]
      exact charts_of_idle whole sane (by simp) rfl (fun _ => Iff.rfl) rfl
  · have whole : (Demand.assign name value).on layer (b, (m, w)) =
        ⟨.ok (.known false), (b, (m, w))⟩ := by
      simp only [Demand.on, map_apply, other size, Except.map]
    exact charts_of_idle whole sane (by simp) rfl (fun _ => Iff.rfl) rfl

end Policy

namespace Recency

variable {r : Recency}

theorem mem_line {k : CacheKey} : k ∈ policy.line r ↔ k ∈ r.keys := List.mem_reverse

theorem sane_iff : policy.Sane r ↔
    r.keys.Nodup ∧ r.keys.length ≤ r.capacity ∧ 1 ≤ r.capacity := by
  have length : (policy.line r).length = r.keys.length := List.length_reverse
  constructor
  · rintro ⟨distinct, bounded, positive, -⟩
    exact ⟨List.nodup_reverse.mp distinct, length ▸ bounded, positive⟩
  · rintro ⟨distinct, bounded, positive⟩
    exact ⟨List.nodup_reverse.mpr distinct, length.symm ▸ bounded, positive, trivial⟩

variable (sane : policy.Sane r) (k : CacheKey)
include sane

theorem sane_push : policy.Sane (r.push k).2 := by
  obtain ⟨distinct, bounded, positive⟩ := sane_iff.mp sane
  have line := (r.push_eq k .placeholder distinct bounded positive).2
  have fits := length_push_le k positive bounded
  refine sane_iff.mpr ⟨List.nodup_reverse.mp ?_, ?_, ?_⟩
  · rw [← Recency.line, line]
    exact Demand.nodup_relined_put sane.distinct k _
  · rwa [capacity_push]
  · rwa [capacity_push]

theorem sane_touch : policy.Sane (r.touch k) := by
  obtain ⟨distinct, bounded, positive⟩ := sane_iff.mp sane
  unfold touch
  split
  · rename_i there
    have few := List.length_pos_of_mem there
    refine sane_iff.mpr ⟨List.nodup_cons.mpr ⟨distinct.not_mem_erase, distinct.erase k⟩, ?_,
      positive⟩
    simp only [List.length_cons, List.length_erase_of_mem there]
    omega
  · exact sane

theorem sane_sublist {keys : List CacheKey} (shorter : keys.Sublist r.keys) :
    policy.Sane { r with keys := keys } := by
  obtain ⟨distinct, bounded, positive⟩ := sane_iff.mp sane
  exact sane_iff.mpr ⟨distinct.sublist shorter, Nat.le_trans shorter.length_le bounded, positive⟩

end Recency

namespace Layer

variable {permit : Operation → Action ω Unit} {id : String}

theorem evict_lru {τ : Type} (inner : Store τ) (r : Recency) (k : CacheKey) (t : τ) :
    ((do
      match ← onFirst (total fun r => r.push k) with
      | none => pure ()
      | some old => discard (onSecond (inner.remove old))) : Action (Recency × τ) Unit) (r, t) =
      onSecond (removeEach inner (r.push k).1.toList) ((r.push k).2, t) := by
  simp only [bind_apply, onFirst_apply, total_apply]
  cases (r.push k).1 with
  | none => rfl
  | some old =>
    simp only [Option.toList_some, removeEach, bind_apply, discard_apply, onSecond_apply]
    rcases inner.remove old t with ⟨_ | _, _⟩ <;> rfl

/-- A smaller capacity is not set before every surplus key has left the map. -/
theorem charts_of_size_lru {r : Recency} (sane : Recency.policy.Sane r) (m : Entries) (w : ω)
    {value : String} {n : Nat} (valid : Setting.capacity "size" value = .ok n) :
    Recency.policy.Charts (lru (refusing permit id)) (Refuses permit) (.assign "size" value)
      (r, (m, w)) := by
  obtain ⟨keys, gone, lost, done, w', split, few, run, ended⟩ :=
    popLeast_refusing permit id m w (r.keys.length - n) r
  have line : r.line = (gone ++ lost) ++ keys.reverse := by
    rw [Recency.line, split, List.reverse_append, List.reverse_reverse]
  have length : r.line.length = r.keys.length := List.length_reverse
  have apart : r.line.Nodup := sane.distinct
  rw [line] at apart
  obtain ⟨-, distinct, disjoint⟩ := List.nodup_append'.mp apart
  have index (j : CacheKey) : j ∈ keys.reverse ↔ j ∈ r.line ∧ j ∉ gone ++ lost := by
    rw [line, List.mem_append (s := gone ++ lost)]
    constructor
    · exact fun there => ⟨.inr there, fun leaves => disjoint leaves there⟩
    · rintro ⟨leaves | there, stays⟩
      · exact absurd leaves stays
      · exact there
  have surplus : ∀ j ∈ gone ++ lost, j ∈ r.line.take (r.line.length - n) := by
    have front : gone ++ lost = r.line.take (gone ++ lost).length := by
      rw [line, List.take_left]
    rw [front, length]
    exact fun j there => List.take_subset_take_left r.line few there
  obtain ⟨rfl, rfl, short⟩ | ⟨⟨fault, rfl⟩, refuses⟩ := ended
  · have whole : (Demand.assign "size" value).on (lru (refusing permit id)) (r, (m, w)) =
        ⟨.ok (.known true), (⟨keys, n⟩, (m.eraseAll gone, w'))⟩ := by
      simp [Demand.on, lru, resizeLru, bind_apply, valid, run, Except.map]
    have fits : keys.length ≤ n := by omega
    have sane' : Recency.policy.Sane ⟨keys, n⟩ :=
      Recency.sane_iff.mpr ⟨List.nodup_reverse.mp distinct, fits, Setting.one_le_capacity valid⟩
    exact Policy.charts_of_size valid whole sane' (.inr rfl) index surplus (.inl rfl)
  · have whole : (Demand.assign "size" value).on (lru (refusing permit id)) (r, (m, w)) =
        ⟨.error fault, ({ r with keys := keys }, (m.eraseAll gone, w'))⟩ := by
      simp [Demand.on, lru, resizeLru, bind_apply, valid, run, Except.map]
    have sane' := Recency.sane_sublist sane (split ▸ List.sublist_append_left keys _)
    exact Policy.charts_of_size valid whole sane' (.inl rfl) index surplus
      (.inr ⟨⟨fault, rfl⟩, refuses⟩)

theorem copes_lru : Recency.policy.Copes (lru (refusing permit id)) (Refuses permit) := by
  rintro d ⟨r, m, w⟩ sane
  obtain ⟨distinct, bounded, positive⟩ := Recency.sane_iff.mp sane
  cases d with
  | put k e =>
    obtain ⟨leaves, line⟩ := r.push_eq k e distinct bounded positive
    refine Policy.charts_of_put (Recency.sane_push sane k) (r.capacity_push k) sane rfl
      (fun t => ?_) fun j => ?_
    · have evicted := evict_lru (refusing permit id) r k t
      rw [leaves] at evicted
      exact evicted
    · change j ∈ (r.push k).2.line ↔ _
      rw [line]
      exact Demand.mem_relined_put sane.distinct k j e
  | get k =>
    refine Policy.charts_of_get (Recency.sane_touch sane k) ?_ rfl fun j => ?_
    · simp only [Recency.policy, Recency.touch]
      split <;> rfl
    · rw [Recency.mem_line, Recency.mem_touch, Recency.mem_line]
  | remove k =>
    refine Policy.charts_of_remove (Recency.sane_sublist sane List.erase_sublist) rfl rfl
      fun j => ?_
    rw [Recency.mem_line, Recency.mem_line, distinct.mem_erase_iff, and_comm]
  | clear =>
    exact Policy.charts_of_clear (Recency.sane_sublist sane (List.nil_sublist _)) rfl rfl rfl
  | size => exact Policy.charts_of_idle rfl sane (by simp) rfl (fun _ => Iff.rfl) rfl
  | assign name value =>
    refine Policy.charts_of_assign sane name value (fun other => ?_) (fun fault invalid => ?_)
      fun n valid => charts_of_size_lru sane m w valid
    · simp [lru]
    · simp [lru, bind_apply, invalid]

end Layer

namespace Arrivals

theorem capacity_forget (a : Arrivals) (k : CacheKey) : (a.forget k).capacity = a.capacity := by
  unfold forget
  split <;> rfl

variable {a : Arrivals} (sane : policy.Sane a) (k : CacheKey)
include sane

theorem enqueue_leaving (e : Entry) :
    (a.enqueue k).1 = (Demand.put k e).leaving a.queue a.capacity ∧
      ∀ j, j ∈ (a.enqueue k).2.queue ↔ (some k = some j ∨ j ∈ a.queue) ∧
        j ∉ (Demand.put k e).leaving a.queue a.capacity := by
  have distinct : a.queue.Nodup := sane.distinct
  by_cases there : k ∈ a.queue
  · obtain ⟨leaves, queue⟩ := enqueue_of_mem ((sane.fits.members k).mpr there) sane.bounded
    rw [Demand.leaving, if_pos there]
    refine ⟨leaves, fun j => ?_⟩
    rw [queue]
    constructor
    · exact fun behind => ⟨.inr behind, List.not_mem_nil⟩
    · rintro ⟨same | behind, -⟩
      · exact Option.some.inj same ▸ there
      · exact behind
  · obtain ⟨leaves, queue⟩ :=
      enqueue_of_not_mem (fun member => there ((sane.fits.members k).mp member)) sane.positive
    have stays : k ∉ a.queue.take (a.queue.length + 1 - a.capacity) := fun front =>
      there (List.mem_of_mem_take front)
    rw [Demand.leaving, if_neg there]
    refine ⟨leaves, fun j => ?_⟩
    rw [queue, List.mem_append, List.mem_singleton, mem_drop_iff distinct]
    by_cases same : k = j
    · subst same
      simp [stays]
    · simp [same, Ne.symm same]

theorem sane_enqueue : policy.Sane (a.enqueue k).2 where
  distinct := by
    have distinct : a.queue.Nodup := sane.distinct
    change (a.enqueue k).2.queue.Nodup
    by_cases there : k ∈ a.members
    · rwa [(enqueue_of_mem there sane.bounded).2]
    · rw [(enqueue_of_not_mem there sane.positive).2, ← List.concat_eq_append]
      exact (distinct.sublist (List.drop_sublist ..)).concat fun behind =>
        there ((sane.fits.members k).mpr (List.mem_of_mem_drop behind))
  bounded := by
    change (a.enqueue k).2.queue.length ≤ (a.enqueue k).2.capacity
    rw [enqueue_eq]
    exact (a.arrived k).length_trim_le
  positive := by
    change 1 ≤ (a.enqueue k).2.capacity
    rw [capacity_enqueue]
    exact sane.positive
  fits := sane.fits.enqueue sane.distinct k

theorem mem_queue_forget (j : CacheKey) : j ∈ (a.forget k).queue ↔ j ∈ a.queue ∧ j ≠ k := by
  have distinct : a.queue.Nodup := sane.distinct
  rw [sane.fits.queue_forget distinct, distinct.mem_erase_iff, and_comm]

theorem sane_forget : policy.Sane (a.forget k) := by
  have distinct : a.queue.Nodup := sane.distinct
  have queue := sane.fits.queue_forget distinct k
  refine ⟨?_, ?_, ?_, sane.fits.forget distinct k⟩
  · change (a.forget k).queue.Nodup
    rw [queue]
    exact distinct.erase k
  · change (a.forget k).queue.length ≤ (a.forget k).capacity
    rw [queue, capacity_forget]
    exact Nat.le_trans List.length_erase_le sane.bounded
  · change 1 ≤ (a.forget k).capacity
    rw [capacity_forget]
    exact sane.positive

end Arrivals

namespace Layer

variable {permit : Operation → Action ω Unit} {id : String}

/-- The new capacity is set first, and what was left to remove when the map refused is lost. -/
theorem charts_of_size_fifo {a : Arrivals} (sane : Arrivals.policy.Sane a) (m : Entries) (w : ω)
    {value : String} {n : Nat} (valid : Setting.capacity "size" value = .ok n) :
    Arrivals.policy.Charts (fifo (refusing permit id)) (Refuses permit) (.assign "size" value)
      (a, (m, w)) := by
  let resized : Arrivals := { a with capacity := n }
  obtain ⟨gone, lost, done, w', split, run, failed⟩ :=
    removeEach_refusing permit id m w resized.trim.1
  have whole : (Demand.assign "size" value).on (fifo (refusing permit id)) (a, (m, w)) =
      ⟨done.map fun _ => .known true, (resized.trim.2, (m.eraseAll gone, w'))⟩ := by
    simp only [Demand.on, fifo, map_apply, bind_apply, ofExcept_apply, valid, onFirst_apply,
      total_apply, onSecond_apply]
    rw [run]
    cases done <;> rfl
  have agrees : resized.Agrees := ⟨sane.fits.members, sane.fits.distinct⟩
  have sane' : Arrivals.policy.Sane resized.trim.2 :=
    ⟨sane.distinct.sublist (List.drop_sublist ..), resized.length_trim_le,
      Setting.one_le_capacity valid, agrees.trim sane.distinct⟩
  have index (j : CacheKey) : j ∈ resized.trim.2.queue ↔ j ∈ a.queue ∧ j ∉ gone ++ lost := by
    rw [← split]
    exact mem_drop_iff sane.distinct
  refine Policy.charts_of_size valid whole sane' (.inr rfl) index (fun j leaves => ?_) ?_
  · rw [← split] at leaves
    exact leaves
  · obtain rfl | ⟨⟨fault, rfl⟩, refuses⟩ := failed
    · exact .inl rfl
    · exact .inr ⟨⟨fault, rfl⟩, refuses⟩

theorem copes_fifo : Arrivals.policy.Copes (fifo (refusing permit id)) (Refuses permit) := by
  rintro d ⟨a, m, w⟩ sane
  cases d with
  | put k e =>
    obtain ⟨leaves, index⟩ := Arrivals.enqueue_leaving sane k e
    refine Policy.charts_of_put (Arrivals.sane_enqueue sane k) (Arrivals.capacity_enqueue k a) sane
      rfl (fun t => ?_) index
    have evicted : ((onFirst (total (Arrivals.enqueue k)) >>= fun leaving =>
        onSecond (removeEach (refusing permit id) leaving)) : Action (Arrivals × Entries × ω) Unit)
        (a, t) = onSecond (removeEach (refusing permit id) (a.enqueue k).1)
          ((a.enqueue k).2, t) := rfl
    rw [leaves] at evicted
    exact evicted
  | get k => exact Policy.charts_of_get sane rfl rfl fun _ => Iff.rfl
  | remove k =>
    exact Policy.charts_of_remove (Arrivals.sane_forget sane k) (a.capacity_forget k) rfl
      (Arrivals.mem_queue_forget sane k)
  | clear =>
    have sane' : Arrivals.policy.Sane { a with queue := [], members := [] } :=
      ⟨.nil, Nat.zero_le _, sane.positive, fun _ => Iff.rfl, .nil⟩
    exact Policy.charts_of_clear sane' rfl rfl rfl
  | size => exact Policy.charts_of_idle rfl sane (by simp) rfl (fun _ => Iff.rfl) rfl
  | assign name value =>
    refine Policy.charts_of_assign sane name value (fun other => ?_) (fun fault invalid => ?_)
      fun n valid => charts_of_size_fifo sane m w valid
    · simp [fifo]
    · simp [fifo, bind_apply, invalid]

/-- Whatever the map refuses in a run, the index has each key once, no more than there is room for,
and none that the map lacks. What the map has besides is what a failed operation has taken out of
the index only, and it stays until it is put again, or removed or cleared with success: no eviction
takes it. So the map holds no more than there is room for and the strays, and there are no strays
where it may refuse lookups and writes only. -/
theorem map_holds_index_and_strays (permit : Operation → Action ω Unit) (id : String)
    (capacity : Nat) (w : ω) (past : List Demand) :
    let recent := lru (refusing permit id)
    let queued := fifo (refusing permit id)
    let recency : Recency × Entries × ω := (.empty capacity, (.empty, w))
    let arrivals : Arrivals × Entries × ω := (.empty capacity, (.empty, w))
    Recency.policy.Accounts recent (Refuses permit) recency past
        (played (Demand.on recent) past recency) ∧
      Arrivals.policy.Accounts queued (Refuses permit) arrivals past
        (played (Demand.on queued) past arrivals) := by
  have positive : 1 ≤ max capacity 1 := Nat.le_max_right ..
  have fresh : Recency.policy.Sane (.empty capacity) := ⟨.nil, Nat.zero_le _, positive, trivial⟩
  have fresh' : Arrivals.policy.Sane (.empty capacity) :=
    ⟨.nil, Nat.zero_le _, positive, fun _ => Iff.rfl, .nil⟩
  exact ⟨(copes_lru.accounts_played fresh rfl w past).2,
    (copes_fifo.accounts_played fresh' rfl w past).2⟩

/-- Every operation is answered by the next word of a script, and granted when there is none. -/
def scripted (op : Operation) : Action (List Bool) Unit
  | [] => ⟨.ok (), []⟩
  | granted :: script => ⟨if granted then .ok () else .error (.refused op), script⟩

/-- The map refuses to let the first key go for the second. When it refuses nothing any more, the
third key makes the second leave, and the first one stays beside it, beyond the capacity. -/
theorem refused_removal_strands :
    let recent := lru (refusing scripted "users")
    let queued := fifo (refusing scripted "users")
    let key (n : Int64) : CacheKey := .ofValues [.integer n]
    let put (n : Int64) : Demand := .put (key n) .placeholder
    let script := [true, true, false]
    let s := played (Demand.on recent) [put 1, put 2] (.empty 1, (.empty, script))
    let t := played (Demand.on queued) [put 1, put 2] (.empty 1, (.empty, script))
    s.2.2 = [] ∧ ((put 3).on recent s).result = .ok .done ∧
      ((put 3).on recent s).state.1 = ⟨[key 3], 1⟩ ∧
      ((put 3).on recent s).state.2.1.keys = [key 1, key 3] ∧
      t.2.2 = [] ∧ ((put 3).on queued t).result = .ok .done ∧
      ((put 3).on queued t).state.1 = ⟨[key 3], [key 3], 1⟩ ∧
      ((put 3).on queued t).state.2.1.keys = [key 1, key 3] := by
  refine ⟨rfl, rfl, rfl, rfl, rfl, rfl, rfl, rfl⟩

end Layer
end StatementCache
