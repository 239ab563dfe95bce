import Mathlib.Data.List.Basic
import StatementCache.Proofs.Contents.Faithful

/-! The layers that evict are faithful. Each index drifts from what lies below it, as other layers
let entries go without telling; what carries the proofs is that no key is held below that the
index does not know. -/
namespace StatementCache

open StatementCache.Action

variable {τ : Type} {inner : Store τ} {v : View τ} {P : Entry → Prop}

namespace Recency

structure Covers (r : Recency) (held : CacheKey → Option Entry) : Prop where
  keys : ∀ k e, held k = some e → k ∈ r.keys
  bounded : r.keys.length ≤ r.capacity
  room : 1 ≤ r.capacity

variable {r : Recency} {held held' : CacheKey → Option Entry} {k : CacheKey}

@[simp] theorem capacity_push (r : Recency) (k : CacheKey) :
    (r.push k).2.capacity = r.capacity := by
  unfold push
  split
  · rfl
  · split <;> rfl

theorem mem_push {j : CacheKey} (h : j = k ∨ j ∈ r.keys) :
    j ∈ (r.push k).2.keys ∨ (r.push k).1 = some j := by
  unfold push
  split
  · by_cases same : j = k
    · exact .inl (same ▸ List.mem_cons_self)
    · exact .inl (List.mem_cons_of_mem _ ((List.mem_erase_of_ne same).mpr (h.resolve_left same)))
  · split
    · exact .inl (List.mem_cons.mpr h)
    · obtain rfl | there := h
      · exact .inl List.mem_cons_self
      · by_cases last : r.keys.getLast? = some j
        · exact .inr last
        · exact .inl (List.mem_cons_of_mem _
            (List.mem_dropLast_of_mem_of_ne_getLast? there (Ne.symm last)))

theorem Covers.push (h : r.Covers held)
    (kept : ∀ j e, held' j = some e → (j = k ∨ held j = some e) ∧ (r.push k).1 ≠ some j) :
    (r.push k).2.Covers held' where
  keys j e he := by
    obtain ⟨there, stays⟩ := kept j e he
    exact (mem_push (there.imp_right (h.keys j e))).resolve_right stays
  bounded := by
    rw [capacity_push]
    exact length_push_le k h.room h.bounded
  room := by
    rw [capacity_push]
    exact h.room

theorem Covers.touch (h : r.Covers held) (kept : ∀ j e, held' j = some e → held j = some e) :
    (r.touch k).Covers held' where
  keys j e he := mem_touch.mpr (h.keys j e (kept j e he))
  bounded := by
    unfold Recency.touch
    split
    · rename_i mem
      have := List.length_pos_of_mem mem
      have := h.bounded
      simp only [List.length_cons, List.length_erase_of_mem mem]
      omega
    · exact h.bounded
  room := by
    unfold Recency.touch
    split <;> exact h.room

theorem Covers.forget (h : r.Covers held) (gone : held' k = none)
    (kept : ∀ j e, held' j = some e → held j = some e) : (r.forget k).Covers held' where
  keys j e he := by
    have other : j ≠ k := by
      rintro rfl
      cases gone.symm.trans he
    exact (List.mem_erase_of_ne other).mpr (h.keys j e (kept j e he))
  bounded := Nat.le_trans List.length_erase_le h.bounded
  room := h.room

end Recency

def View.lru (v : View τ) : View (Recency × τ) := v.above Recency.Covers fun r => [r.capacity]

namespace Layer

theorem faithful_lru (h : inner.Faithful v P) : (lru inner).Faithful v.lru P where
  put k e s he hs := by
    obtain ⟨covers, sound⟩ := hs
    obtain ⟨t, run, sound, written⟩ := h.put k e s.2 he sound
    have came : ∀ j x, v.held t j = some x → j = k ∨ v.held s.2 j = some x := fun j x hx =>
      (written.held j x hx).imp (·.1) (·.2.1)
    cases leaving : (s.1.push k).1 with
    | none =>
      have put : (lru inner).put k e s = ⟨.ok (), ((s.1.push k).2, t)⟩ := by
        simp [lru, bind_apply, onSecond, run, onFirst, leaving]
      refine ⟨_, put, ⟨covers.push fun j x hx => ⟨came j x hx, ?_⟩, sound⟩, written.above ?_⟩
      · simp [leaving]
      · rw [Recency.capacity_push]
    | some old =>
      obtain ⟨found, u, evict, sound, swept, gone, -⟩ := h.remove old t sound
      have put : (lru inner).put k e s = ⟨.ok (), ((s.1.push k).2, u)⟩ := by
        simp [lru, bind_apply, onSecond, run, onFirst, leaving, evict, Except.map]
      refine ⟨_, put, ⟨covers.push fun j x hx => ⟨came j x (swept.held j x hx).1, ?_⟩, sound⟩,
        (written.trans swept).above ?_⟩
      · rw [leaving]
        rintro ⟨⟩
        cases gone.symm.trans hx
      · rw [Recency.capacity_push]
  get k s hs := by
    obtain ⟨covers, sound⟩ := hs
    obtain ⟨r, t, run, sound, fades, found⟩ := h.get k s.2 sound
    have fades := fades.mono v.due_of_late
    refine ⟨r, (s.1.touch k, t), by simp [lru, bind_apply, onFirst, onSecond, run],
      ⟨covers.touch fun j x hx => (fades.held j x hx).1, sound⟩, fades.above ?_, found⟩
    unfold Recency.touch
    split <;> rfl
  remove k s hs := by
    obtain ⟨covers, sound⟩ := hs
    obtain ⟨found, t, run, sound, swept, gone, lookup⟩ := h.remove k s.2 sound
    exact ⟨found, (s.1.forget k, t), by simp [lru, bind_apply, onFirst, onSecond, run],
      ⟨covers.forget gone fun j x hx => (swept.held j x hx).1, sound⟩, swept.above rfl, gone,
      lookup⟩
  clear s hs := by
    obtain ⟨t, run, sound, limits, gone⟩ := h.clear s.2 hs.2
    refine ⟨({ s.1 with keys := [] }, t), by simp [lru, bind_apply, onFirst, onSecond, run],
      ⟨⟨fun j x hx => (by cases (gone j).symm.trans hx), Nat.zero_le _, hs.1.room⟩, sound⟩, ?_,
      gone⟩
    simp only [View.lru, View.above, limits]
  size s hs := by
    obtain ⟨covers, sound⟩ := hs
    obtain ⟨n, t, run, sound, swept, count, bound⟩ := h.size s.2 sound
    have known : ∀ j x, v.held t j = some x → j ∈ s.1.keys := fun j x hx =>
      covers.keys j x (swept.held j x hx).1
    refine ⟨n, (s.1, t), by simp [lru, Store.below, run],
      ⟨⟨known, covers.bounded, covers.room⟩, sound⟩, swept.above rfl, count, fun limit there => ?_⟩
    obtain rfl | there := List.mem_cons.mp there
    · exact Nat.le_trans (count _ known) covers.bounded
    · exact bound limit there

theorem popLeast_spec (h : inner.Faithful v P) (count : Nat) {s : Recency × τ}
    (covers : ∀ k e, v.held s.2 k = some e → k ∈ s.1.keys) (sound : v.sound s.2) :
    ∃ keys t, popLeast inner count s = ⟨.ok (), ({ s.1 with keys := keys }, t)⟩ ∧ v.sound t ∧
      v.Fades v.due s.2 t ∧ (∀ k e, v.held t k = some e → k ∈ keys) ∧
      keys.length ≤ s.1.keys.length - count := by
  induction count generalizing s with
  | zero => exact ⟨s.1.keys, s.2, rfl, sound, .refl _, covers, Nat.le_refl _⟩
  | succ count ih =>
    cases last : s.1.keys.getLast? with
    | none =>
      have empty := List.getLast?_eq_none_iff.mp last
      exact ⟨[], s.2, by simp [popLeast, bind_apply, onFirst, Recency.pop, empty], sound, .refl _,
        empty ▸ covers, Nat.zero_le _⟩
    | some old =>
      obtain ⟨found, u, evict, sound, swept, gone, -⟩ := h.remove old s.2 sound
      have known : ∀ k e, v.held u k = some e → k ∈ s.1.keys.dropLast := fun k e he => by
        refine List.mem_dropLast_of_mem_of_ne_getLast? (covers k e (swept.held k e he).1) ?_
        rw [last]
        rintro ⟨⟩
        cases gone.symm.trans he
      obtain ⟨keys, t, run, sound, fades, known, fewer⟩ :=
        @ih ({ s.1 with keys := s.1.keys.dropLast }, u) known sound
      refine ⟨keys, t, ?_, sound, swept.weaken.trans fades, known, ?_⟩
      · simp [popLeast, bind_apply, onFirst, Recency.pop, last, onSecond, evict, Except.map, run]
      · simp only [List.length_dropLast] at fewer
        omega

theorem adjusts_lru (h : inner.Faithful v P) : (lru inner).Adjusts v.lru := by
  intro name value s hs
  simp only [lru]
  split
  · cases asked : Setting.capacity "size" value with
    | error e => exact ⟨.error e, s, by simp [bind_apply], hs, fun _ _ he => ⟨he, fun late => late⟩⟩
    | ok capacity =>
      obtain ⟨covers, sound⟩ := hs
      obtain ⟨keys, t, run, sound, fades, known, fewer⟩ :=
        popLeast_spec h (s.1.keys.length - capacity) covers.keys sound
      refine ⟨.ok true, (⟨keys, capacity⟩, t),
        by simp [bind_apply, resizeLru, run, onFirst, Except.map],
        ⟨⟨known, ?_, Setting.one_le_capacity asked⟩, sound⟩, fades.held⟩
      dsimp only
      omega
  · exact ⟨.ok false, s, rfl, hs, fun _ _ he => ⟨he, fun late => late⟩⟩

end Layer

namespace Arrivals

structure Knows (a : Arrivals) (held : CacheKey → Option Entry) : Prop where
  keys : ∀ k e, held k = some e → k ∈ a.queue
  members : a.members ⊆ a.queue
  distinct : a.members.Nodup

structure Covers (a : Arrivals) (held : CacheKey → Option Entry) : Prop extends a.Knows held where
  bounded : a.queue.length ≤ a.capacity

variable {a : Arrivals} {held held' : CacheKey → Option Entry} {k : CacheKey}

theorem Knows.mono (h : a.Knows held) (kept : ∀ j e, held' j = some e → held j = some e) :
    a.Knows held' := ⟨fun j e he => h.keys j e (kept j e he), h.members, h.distinct⟩

theorem mem_trim {j : CacheKey} (there : j ∈ a.queue) (stays : j ∉ a.trim.1) :
    j ∈ a.trim.2.queue := by
  rw [← a.trim_append] at there
  exact (List.mem_append.mp there).resolve_left stays

theorem Knows.trim (h : a.Knows held)
    (kept : ∀ j e, held' j = some e → held j = some e ∧ j ∉ a.trim.1) :
    a.trim.2.Covers held' where
  keys j e he := mem_trim (h.keys j e (kept j e he).1) (kept j e he).2
  members j there := by
    obtain ⟨there, stays⟩ := List.mem_filter.mp there
    exact mem_trim (h.members there) (by simpa [Arrivals.trim] using stays)
  distinct := h.distinct.filter _
  bounded := a.length_trim_le

def arrived (k : CacheKey) (a : Arrivals) : Arrivals :=
  if k ∈ a.members then a else { a with queue := a.queue ++ [k], members := k :: a.members }

theorem enqueue_eq (k : CacheKey) (a : Arrivals) : a.enqueue k = (a.arrived k).trim := by
  unfold enqueue arrived
  split <;> rfl

@[simp] theorem capacity_enqueue (k : CacheKey) (a : Arrivals) :
    (a.enqueue k).2.capacity = a.capacity := by
  unfold enqueue
  split <;> rfl

theorem Knows.arrived (h : a.Knows held)
    (kept : ∀ j e, held' j = some e → j = k ∨ held j = some e) : (a.arrived k).Knows held' := by
  unfold Arrivals.arrived
  split
  · rename_i there
    refine ⟨fun j e he => ?_, h.members, h.distinct⟩
    obtain rfl | before := kept j e he
    · exact h.members there
    · exact h.keys j e before
  · rename_i new
    refine ⟨fun j e he => ?_, fun j there => ?_, List.nodup_cons.mpr ⟨new, h.distinct⟩⟩
    · obtain rfl | before := kept j e he
      · exact List.mem_append_right _ List.mem_cons_self
      · exact List.mem_append_left _ (h.keys j e before)
    · obtain rfl | there := List.mem_cons.mp there
      · exact List.mem_append_right _ List.mem_cons_self
      · exact List.mem_append_left _ (h.members there)

theorem Covers.forget (h : a.Covers held) (gone : held' k = none)
    (kept : ∀ j e, held' j = some e → held j = some e) : (a.forget k).Covers held' := by
  have other : ∀ j e, held' j = some e → j ≠ k := by
    rintro j e he rfl
    cases gone.symm.trans he
  unfold Arrivals.forget
  split
  · exact {
      keys := fun j e he =>
        List.mem_filter.mpr ⟨h.keys j e (kept j e he), decide_eq_true (other j e he)⟩
      members := fun j there => by
        obtain ⟨differs, there⟩ := h.distinct.mem_erase_iff.mp there
        exact List.mem_filter.mpr ⟨h.members there, decide_eq_true differs⟩
      distinct := h.distinct.erase k
      bounded := Nat.le_trans (List.length_filter_le ..) h.bounded }
  · exact ⟨h.mono kept, h.bounded⟩

end Arrivals

def View.fifo (v : View τ) : View (Arrivals × τ) := v.above Arrivals.Covers fun a => [a.capacity]

namespace Layer

theorem removeEach_spec (h : inner.Faithful v P) (ks : List CacheKey) {t : τ} (sound : v.sound t) :
    ∃ u, removeEach inner ks t = ⟨.ok (), u⟩ ∧ v.sound u ∧ v.Fades v.due t u ∧
      ∀ k ∈ ks, v.held u k = none := by
  induction ks generalizing t with
  | nil => exact ⟨t, rfl, sound, .refl t, by simp⟩
  | cons k ks ih =>
    obtain ⟨found, u, gone, sound, swept, absent, -⟩ := h.remove k t sound
    obtain ⟨w, run, sound, fades, all⟩ := ih sound
    refine ⟨w, by simp [removeEach, bind_apply, gone, Except.map, run], sound,
      swept.weaken.trans fades, fun j there => ?_⟩
    obtain rfl | there := List.mem_cons.mp there
    · exact Option.eq_none_iff_forall_ne_some.mpr fun e he => by
        cases absent.symm.trans (fades.held j e he).1
    · exact all j there

theorem faithful_fifo (h : inner.Faithful v P) : (fifo inner).Faithful v.fifo P where
  put k e s he hs := by
    obtain ⟨covers, sound⟩ := hs
    obtain ⟨t, run, sound, written⟩ := h.put k e s.2 he sound
    obtain ⟨u, trimmed, sound, fades, gone⟩ := removeEach_spec h (s.1.enqueue k).1 sound
    refine ⟨((s.1.enqueue k).2, u),
      by simp [fifo, bind_apply, onSecond, run, onFirst, trimmed], ⟨?_, sound⟩,
      (written.trans fades).above (by rw [Arrivals.capacity_enqueue])⟩
    rw [Arrivals.enqueue_eq] at gone ⊢
    have arrived := covers.arrived (k := k) fun j x hx => (written.held j x hx).imp (·.1) (·.2.1)
    refine arrived.trim fun j x hx => ⟨(fades.held j x hx).1, fun leaves => ?_⟩
    cases (gone j leaves).symm.trans hx
  get k s hs := by
    obtain ⟨covers, sound⟩ := hs
    obtain ⟨r, t, run, sound, fades, found⟩ := h.get k s.2 sound
    exact ⟨r, (s.1, t), by simp [fifo, onSecond, run],
      ⟨⟨covers.mono fun j x hx => (fades.held j x hx).1, covers.bounded⟩, sound⟩,
      (fades.mono v.due_of_late).above rfl, found⟩
  remove k s hs := by
    obtain ⟨covers, sound⟩ := hs
    obtain ⟨found, t, run, sound, swept, gone, lookup⟩ := h.remove k s.2 sound
    refine ⟨found, (s.1.forget k, t), by simp [fifo, bind_apply, onFirst, onSecond, run],
      ⟨covers.forget gone fun j x hx => (swept.held j x hx).1, sound⟩, swept.above ?_, gone, lookup⟩
    unfold Arrivals.forget
    split <;> rfl
  clear s hs := by
    obtain ⟨t, run, sound, limits, gone⟩ := h.clear s.2 hs.2
    refine ⟨({ s.1 with queue := [], members := [] }, t),
      by simp [fifo, bind_apply, onFirst, onSecond, run],
      ⟨⟨⟨fun j x hx => (by cases (gone j).symm.trans hx), List.Subset.refl _, .nil⟩,
        Nat.zero_le _⟩, sound⟩, ?_, gone⟩
    simp only [View.fifo, View.above, limits]
  size s hs := by
    obtain ⟨covers, sound⟩ := hs
    obtain ⟨n, t, run, sound, swept, count, bound⟩ := h.size s.2 sound
    have covers : s.1.Covers (v.held t) :=
      ⟨covers.mono fun j x hx => (swept.held j x hx).1, covers.bounded⟩
    refine ⟨n, (s.1, t), by simp [fifo, Store.below, run], ⟨covers, sound⟩, swept.above rfl, count,
      fun limit there => ?_⟩
    obtain rfl | there := List.mem_cons.mp there
    · exact Nat.le_trans (count _ covers.keys) covers.bounded
    · exact bound limit there

theorem adjusts_fifo (h : inner.Faithful v P) : (fifo inner).Adjusts v.fifo := by
  intro name value s hs
  simp only [fifo]
  split
  · cases asked : Setting.capacity "size" value with
    | error e => exact ⟨.error e, s, by simp [bind_apply], hs, fun _ _ he => ⟨he, fun late => late⟩⟩
    | ok capacity =>
      obtain ⟨covers, sound⟩ := hs
      let a : Arrivals := { s.1 with capacity := capacity }
      have knows : a.Knows (v.held s.2) := ⟨covers.keys, covers.members, covers.distinct⟩
      obtain ⟨t, trimmed, sound, fades, gone⟩ := removeEach_spec h a.trim.1 sound
      refine ⟨.ok true, (a.trim.2, t),
        by simp [bind_apply, onFirst, onSecond, a, trimmed, Except.map],
        ⟨knows.trim fun j x hx => ⟨(fades.held j x hx).1, fun leaves => ?_⟩, sound⟩, fades.held⟩
      cases (gone j leaves).symm.trans hx
  · exact ⟨.ok false, s, rfl, hs, fun _ _ he => ⟨he, fun late => late⟩⟩

end Layer

namespace Tiers

variable {t : Tiers} {held held' : CacheKey → Option Entry} {k j : CacheKey} {now : Nat}

def Knows (t : Tiers) (k : CacheKey) : Prop := t.isRetained k = true ∨ k ∈ t.reclaimed

structure Bounded (t : Tiers) : Prop where
  hot : t.hot.length ≤ t.hotSize
  warm : t.warm.length ≤ t.warmCapacity
  room : 1 ≤ t.warmCapacity

structure Covers (t : Tiers) (held : CacheKey → Option Entry) : Prop extends t.Bounded where
  keys : ∀ k e, held k = some e → t.Knows k

@[simp] theorem isRetained_reclaimed (t : Tiers) (ks : List CacheKey) (k : CacheKey) :
    ({ t with reclaimed := ks } : Tiers).isRetained k = t.isRetained k := rfl

theorem isWarm_iff : t.isWarm k = true ↔ k ∈ t.warm.map (·.1) := by
  simp [isWarm]

theorem isRetained_iff : t.isRetained k = true ↔ k ∈ t.hot ∨ k ∈ t.warm.map (·.1) := by
  rw [isRetained, Bool.or_eq_true, decide_eq_true_iff, isWarm_iff]

theorem knows_iff : t.Knows k ↔ k ∈ t.hot ∨ k ∈ t.warm.map (·.1) ∨ k ∈ t.reclaimed := by
  rw [Knows, isRetained_iff, or_assoc]

theorem mem_renewed {since : Nat} :
    j ∈ ((k, since) :: t.withoutWarm k).map (·.1) ↔ j = k ∨ j ∈ t.warm.map (·.1) := by
  by_cases same : j = k
  · simp [same]
  · simp [withoutWarm, same]

theorem length_withoutWarm (h : t.isWarm k = true) :
    (t.withoutWarm k).length < t.warm.length := by
  obtain ⟨e, there, same⟩ := List.any_eq_true.mp h
  refine List.length_filter_lt_length_iff_exists.mpr ⟨e, there, ?_⟩
  simpa using same

structure Reshaped (t t' : Tiers) : Prop where
  hotSize : t'.hotSize = t.hotSize
  warmCapacity : t'.warmCapacity = t.warmCapacity
  warm : t.warm.length ≤ t.warmCapacity → 1 ≤ t.warmCapacity → t'.warm.length ≤ t.warmCapacity
  knows : ∀ k, t.Knows k → t'.Knows k

theorem Reshaped.trans {t' t'' : Tiers} (first : t.Reshaped t') (second : t'.Reshaped t'') :
    t.Reshaped t'' where
  hotSize := second.hotSize.trans first.hotSize
  warmCapacity := second.warmCapacity.trans first.warmCapacity
  warm fits room := by
    have fits := first.warm fits room
    rw [← first.warmCapacity] at fits room ⊢
    exact second.warm fits room
  knows k h := second.knows k (first.knows k h)

theorem isWarm_enter : (t.enter now k).isWarm k = true := by
  unfold enter
  split
  · simp [isWarm]
  · split <;> simp [isWarm]

@[simp] theorem hot_enter : (t.enter now k).hot = t.hot := by
  unfold enter
  split
  · rfl
  · split <;> rfl

theorem reshaped_enter : t.Reshaped (t.enter now k) := by
  unfold enter
  split
  · rename_i warm
    refine ⟨rfl, rfl, fun fits _ => ?_, fun j known => ?_⟩
    · have := length_withoutWarm warm
      simp only [List.length_cons]
      omega
    · rw [knows_iff] at known ⊢
      exact known.imp_right (Or.imp_left fun there => mem_renewed.mpr (.inr there))
  · split
    · rename_i free
      refine ⟨rfl, rfl, fun _ _ => free, fun j known => ?_⟩
      rw [knows_iff] at known ⊢
      exact known.imp_right (Or.imp_left fun there => List.mem_cons_of_mem _ there)
    · refine ⟨rfl, rfl, fun fits room => ?_, fun j known => ?_⟩
      · simp only [List.length_cons, List.length_dropLast]
        omega
      · rw [knows_iff] at known ⊢
        refine known.imp_right fun known => ?_
        obtain there | waits := known
        · obtain ⟨e, inside, rfl⟩ := List.mem_map.mp there
          by_cases last : t.warm.getLast? = some e
          · exact .inr (List.mem_append_right _ (by simp [last]))
          · refine .inl (List.mem_cons_of_mem _ (List.mem_map_of_mem ?_))
            exact List.mem_dropLast_of_mem_of_ne_getLast? inside (Ne.symm last)
        · exact .inr (List.mem_append_left _ waits)

theorem reshaped_demote {again : Tiers → CacheKey → Bool}
    (known : ∀ t k, again t k = false → t.isWarm k = true) (count : Nat) (t : Tiers) :
    t.Reshaped (t.demote now again count) := by
  induction count generalizing t with
  | zero => exact ⟨rfl, rfl, fun fits _ => fits, fun _ h => h⟩
  | succ count ih =>
    unfold demote
    cases last : t.hot.getLast? with
    | none => exact ⟨rfl, rfl, fun fits _ => fits, fun _ h => h⟩
    | some k =>
      refine Reshaped.trans ?_ (ih _)
      have moved : ∀ t' : Tiers, ({ t with hot := t.hot.dropLast } : Tiers).Reshaped t' →
          t'.isWarm k = true → t.Reshaped t' := by
        refine fun t' reshaped warm => ⟨reshaped.hotSize, reshaped.warmCapacity, reshaped.warm, ?_⟩
        intro j h
        by_cases same : j = k
        · rw [knows_iff, ← isWarm_iff]
          exact .inr (.inl (same ▸ warm))
        · refine reshaped.knows j (knows_iff.mpr ((knows_iff.mp h).imp_left fun there => ?_))
          refine List.mem_dropLast_of_mem_of_ne_getLast? there ?_
          rw [last]
          exact fun h => same (Option.some.inj h)
      cases enters : again { t with hot := t.hot.dropLast } k with
      | true => exact moved _ reshaped_enter isWarm_enter
      | false =>
        exact moved _ ⟨rfl, rfl, fun fits _ => fits, fun _ h => h⟩ (known _ _ enters)

theorem hot_demote (again : Tiers → CacheKey → Bool) (count : Nat) (t : Tiers) :
    (t.demote now again count).hot = t.hot.take (t.hot.length - count) := by
  induction count generalizing t with
  | zero => exact List.take_length.symm
  | succ count ih =>
    unfold demote
    cases last : t.hot.getLast? with
    | none => simp [List.getLast?_eq_none_iff.mp last]
    | some k =>
      simp only [ih, apply_ite Tiers.hot, hot_enter, ite_self, List.dropLast_eq_take, List.take_take,
        List.length_take]
      congr 1
      omega

theorem length_hot_demote (again : Tiers → CacheKey → Bool) (count : Nat) (t : Tiers) :
    (t.demote now again count).hot.length = t.hot.length - count := by
  rw [hot_demote, List.length_take]
  omega

theorem hot_promote : (t.promote now k).hot = (k :: t.hot).take t.hotSize := by
  rw [promote, hot_demote, List.take_eq_take_iff]
  dsimp only
  omega

theorem Covers.reshaped {t' : Tiers} (h : t.Covers held) (reshaped : t.Reshaped t')
    (hot : t'.hot.length ≤ t'.hotSize) : t'.Covers held where
  hot := hot
  warm := reshaped.warmCapacity ▸ reshaped.warm h.warm h.room
  room := reshaped.warmCapacity ▸ h.room
  keys j e he := reshaped.knows j (h.keys j e he)

theorem Covers.mono (h : t.Covers held) (kept : ∀ j e, held' j = some e → held j = some e) :
    t.Covers held' := { h with keys := fun j e he => h.keys j e (kept j e he) }

theorem Covers.enter (h : t.Covers held)
    (kept : ∀ j e, held' j = some e → j = k ∨ held j = some e) :
    (t.enter now k).Covers held' := by
  have reshaped : t.Reshaped (t.enter now k) := reshaped_enter
  have bounded := (h.reshaped reshaped (by rw [hot_enter, reshaped.hotSize]; exact h.hot)).toBounded
  refine { bounded with keys := fun j e he => ?_ }
  obtain rfl | before := kept j e he
  · rw [knows_iff, ← isWarm_iff]
    exact .inr (.inl isWarm_enter)
  · exact reshaped.knows j (h.keys j e before)

theorem reshaped_promote : t.Reshaped (t.promote now k) := by
  have joined : t.Reshaped { t with hot := k :: t.hot } := by
    refine ⟨rfl, rfl, fun fits _ => fits, fun j h => ?_⟩
    rw [knows_iff] at h ⊢
    exact h.imp_left (List.mem_cons_of_mem _)
  exact joined.trans (reshaped_demote (fun t k h => by simpa using h) _ _)

theorem Covers.promote (h : t.Covers held) : (t.promote now k).Covers held := by
  refine h.reshaped reshaped_promote ?_
  rw [reshaped_promote.hotSize, Tiers.promote, length_hot_demote]
  dsimp only
  omega

theorem reshaped_use : t.Reshaped (t.use now k).2 := by
  unfold use
  split
  · exact ⟨rfl, rfl, fun fits _ => fits, fun _ h => h⟩
  · rename_i found
    have warm : t.isWarm k = true :=
      List.any_eq_true.mpr
        ⟨_, List.mem_of_find?_eq_some found, by simpa using List.find?_some found⟩
    refine ⟨rfl, rfl, fun fits _ => ?_, fun j known => ?_⟩
    · have := length_withoutWarm warm
      simp only [List.length_cons]
      omega
    · rw [knows_iff] at known ⊢
      exact known.imp_right (Or.imp_left fun there => mem_renewed.mpr (.inr there))

theorem Covers.use (h : t.Covers held) : (t.use now k).2.Covers held := by
  refine h.reshaped reshaped_use ?_
  rw [reshaped_use.hotSize]
  unfold Tiers.use
  split <;> exact h.hot

theorem Covers.drained (h : t.Covers held)
    (kept : ∀ j e, held' j = some e → t.isRetained j = true) :
    ({ t with reclaimed := [] } : Tiers).Covers held' :=
  { h with keys := fun j e he => .inl (kept j e he) }

theorem Covers.withoutWarm (h : t.Covers held) (gone : held' k = none)
    (kept : ∀ j e, held' j = some e → held j = some e) {hot : List CacheKey}
    (shorter : hot.length ≤ t.hot.length) (others : ∀ j, j ≠ k → j ∈ t.hot → j ∈ hot) :
    ({ t with hot := hot, warm := t.withoutWarm k } : Tiers).Covers held' where
  hot := Nat.le_trans shorter h.hot
  warm := Nat.le_trans (List.length_filter_le ..) h.warm
  room := h.room
  keys j e he := by
    have other : j ≠ k := by
      rintro rfl
      cases gone.symm.trans he
    have known := knows_iff.mp (h.keys j e (kept j e he))
    refine knows_iff.mpr (known.imp (others j other) (Or.imp_left fun there => ?_))
    obtain ⟨entry, inside, rfl⟩ := List.mem_map.mp there
    exact List.mem_map_of_mem (List.mem_filter.mpr ⟨inside, decide_eq_true other⟩)

theorem Covers.forget (h : t.Covers held) (gone : held' k = none)
    (kept : ∀ j e, held' j = some e → held j = some e) : (t.forget k).Covers held' :=
  h.withoutWarm gone kept (List.length_filter_le ..) fun _ other there =>
    List.mem_filter.mpr ⟨there, decide_eq_true other⟩

theorem Covers.dropWarm (h : t.Covers held) (gone : held' k = none)
    (kept : ∀ j e, held' j = some e → held j = some e) : (t.dropWarm k).Covers held' :=
  h.withoutWarm gone kept (Nat.le_refl _) fun _ _ there => there

theorem Covers.resizeHot (h : t.Covers held) (size : Nat) :
    (t.resizeHot now size).Covers held := by
  have reshaped : Reshaped { t with hotSize := size } (t.resizeHot now size) := by
    unfold Tiers.resizeHot
    refine reshaped_demote ?_ _ _
    rintro _ _ ⟨⟩
  refine ⟨⟨?_, ?_, ?_⟩, fun j e he => reshaped.knows j (h.keys j e he)⟩
  · rw [reshaped.hotSize, Tiers.resizeHot, length_hot_demote]
    dsimp only
    omega
  · exact reshaped.warmCapacity ▸ reshaped.warm h.warm h.room
  · exact reshaped.warmCapacity ▸ h.room

theorem Covers.resizeWarm (h : t.Covers held) {capacity : Nat} (room : 1 ≤ capacity) :
    (t.resizeWarm capacity).Covers held where
  hot := h.hot
  warm := List.length_take_le ..
  room := room
  keys j e he := by
    refine knows_iff.mpr ((knows_iff.mp (h.keys j e he)).imp_right fun known => ?_)
    obtain there | waits := known
    · rw [← List.take_append_drop capacity t.warm, List.map_append] at there
      obtain stays | leaves := List.mem_append.mp there
      · exact .inl stays
      · exact .inr (List.mem_append_right _ (by simpa using leaves))
    · exact .inr (List.mem_append_left _ waits)

end Tiers

def View.tiered (v : View τ) : View (Tiers × τ) :=
  v.above Tiers.Covers fun t => [t.hotSize + t.warmCapacity]

namespace Layer

theorem drainEach_spec (h : inner.Faithful v P) (ks : List CacheKey) {s : Tiers × τ}
    (queue : s.1.reclaimed = ks) (known : ∀ k e, v.held s.2 k = some e → s.1.Knows k)
    (sound : v.sound s.2) :
    ∃ n t, drainEach inner ks s = ⟨.ok n, ({ s.1 with reclaimed := [] }, t)⟩ ∧ v.sound t ∧
      v.Fades v.due s.2 t ∧ ∀ k e, v.held t k = some e → s.1.isRetained k = true := by
  induction ks generalizing s with
  | nil =>
    refine ⟨0, s.2, ?_, sound, .refl _, fun k e he => ?_⟩
    · obtain ⟨⟨hot, hotSize, warm, warmCapacity, timeToLive, reclaimed⟩, t⟩ := s
      cases queue
      rfl
    · simpa [Tiers.Knows, queue] using known k e he
  | cons k ks ih =>
    have known : ∀ j e, v.held s.2 j = some e → s.1.isRetained j = true ∨ j = k ∨ j ∈ ks :=
      fun j e he => by simpa [Tiers.Knows, queue] using known j e he
    by_cases retained : s.1.isRetained k = true
    · obtain ⟨n, t, run, sound, fades, kept⟩ :=
        @ih ({ s.1 with reclaimed := ks }, s.2) rfl (fun j e he => (known j e he).elim .inl fun h =>
          h.elim (fun same => .inl (same ▸ retained)) .inr) sound
      refine ⟨n, t, ?_, sound, fades, kept⟩
      simp only [drainEach, bind_apply, onFirst, modify_apply, get_apply,
        Tiers.isRetained_reclaimed, retained, if_true, run]
    · obtain ⟨found, u, gone, sound, swept, absent, -⟩ := h.remove k s.2 sound
      have known : ∀ j e, v.held u j = some e → s.1.isRetained j = true ∨ j ∈ ks := fun j e he => by
        refine (known j e (swept.held j e he).1).imp_right fun h => h.resolve_left ?_
        rintro rfl
        cases absent.symm.trans he
      obtain ⟨n, t, run, sound, fades, kept⟩ :=
        @ih ({ s.1 with reclaimed := ks }, u) rfl known sound
      refine ⟨n + 1, t, ?_, sound, swept.weaken.trans fades, kept⟩
      simp [drainEach, bind_apply, onFirst, onSecond, retained, gone, Except.map, run]

theorem drain_spec (h : inner.Faithful v P) {s : Tiers × τ} (hs : v.tiered.sound s) :
    ∃ n d t, drain inner s = ⟨.ok n, (d, t)⟩ ∧ d.reclaimed = [] ∧
      d.hotSize + d.warmCapacity = s.1.hotSize + s.1.warmCapacity ∧ d.Covers (v.held t) ∧
      v.sound t ∧ v.Fades v.due s.2 t := by
  obtain ⟨n, t, run, sound, fades, kept⟩ := drainEach_spec h _ rfl hs.1.keys hs.2
  exact ⟨n, { s.1 with reclaimed := [] }, t, by simpa [drain, bind_apply] using run, rfl, rfl,
    hs.1.drained kept, sound, fades⟩

theorem faithful_tiered (now : Nat) (h : inner.Faithful v P) :
    (tiered now inner).Faithful v.tiered P where
  put k e s he hs := by
    obtain ⟨n, d, t, drained, -, limit, covers, sound, fades⟩ := drain_spec h hs
    obtain ⟨u, run, sound, written⟩ := h.put k e t he sound
    refine ⟨(d.enter now k, u), by simp [tiered, bind_apply, drained, onSecond, run, onFirst,
      Except.map], ⟨covers.enter fun j x hx => (written.held j x hx).imp (·.1) (·.2.1), sound⟩,
      (View.Written.after fades written).above ?_⟩
    simp only [Tiers.reshaped_enter.hotSize, Tiers.reshaped_enter.warmCapacity, limit]
  get k s hs := by
    obtain ⟨n, d, t, drained, -, limit, covers, sound, fades⟩ := drain_spec h hs
    obtain ⟨r, u, run, sound, faded, found⟩ := h.get k t sound
    have covers := covers.mono fun j x hx => (faded.held j x hx).1
    have found : ∀ e, r = .ok (some e) → v.held s.2 k = some e ∧ ¬v.due s.2 := fun e he =>
      fades.found (found e he)
    have fades := fades.trans (faded.mono v.due_of_late)
    cases r with
    | error e =>
      exact ⟨.error e, (d, u), by simp [tiered, bind_apply, drained, onSecond, run, Except.map],
        ⟨covers, sound⟩, fades.above (by simp only [limit]), by simp⟩
    | ok answer =>
      cases answer with
      | none =>
        exact ⟨.ok none, (d, u), by simp [tiered, bind_apply, drained, onSecond, run, Except.map],
          ⟨covers, sound⟩, fades.above (by simp only [limit]), by simp⟩
      | some e =>
        by_cases hot : k ∈ d.hot
        · exact ⟨.ok (some e), (d, u),
            by simp [tiered, bind_apply, drained, onSecond, run, Except.map, hot],
            ⟨covers, sound⟩, fades.above (by simp only [limit]), found⟩
        · cases young : (d.use now k).1 with
          | true =>
            exact ⟨.ok (some e), ((d.use now k).2.promote now k, u),
              by simp [tiered, bind_apply, drained, onSecond, run, Except.map, hot, onFirst, young],
              ⟨covers.use.promote, sound⟩, fades.above (by
                simp only [Tiers.reshaped_promote.hotSize, Tiers.reshaped_promote.warmCapacity,
                  Tiers.reshaped_use.hotSize, Tiers.reshaped_use.warmCapacity, limit]), found⟩
          | false =>
            obtain ⟨gone, w, removed, sound, swept, absent, -⟩ := h.remove k u sound
            refine ⟨.ok none, ((d.use now k).2.dropWarm k, w),
              by simp [tiered, bind_apply, drained, onSecond, run, Except.map, hot, onFirst, young,
                removed],
              ⟨covers.use.dropWarm absent fun j x hx => (swept.held j x hx).1, sound⟩,
              (fades.trans swept.weaken).above ?_, by simp⟩
            simp only [Tiers.dropWarm, Tiers.reshaped_use.hotSize, Tiers.reshaped_use.warmCapacity,
              limit]
  remove k s hs := by
    obtain ⟨n, d, t, drained, -, limit, covers, sound, fades⟩ := drain_spec h hs
    obtain ⟨found, u, run, sound, swept, gone, lookup⟩ := h.remove k t sound
    exact ⟨found, (d.forget k, u),
      by simp [tiered, bind_apply, drained, onFirst, onSecond, run, Except.map],
      ⟨covers.forget gone fun j x hx => (swept.held j x hx).1, sound⟩,
      (fades.trans swept).above (by simp only [Tiers.forget, limit]), gone,
      fun e he => fades.found (lookup e he)⟩
  clear s hs := by
    obtain ⟨t, run, sound, limits, gone⟩ := h.clear s.2 hs.2
    refine ⟨(s.1.clear, t), by simp [tiered, bind_apply, onFirst, onSecond, run],
      ⟨⟨⟨Nat.zero_le _, Nat.zero_le _, hs.1.room⟩, fun j x hx => (by cases (gone j).symm.trans hx)⟩,
        sound⟩, ?_, gone⟩
    simp only [View.tiered, View.above, limits]
    rfl
  size s hs := by
    obtain ⟨_, d, t, drained, empty, limit, covers, sound, fades⟩ := drain_spec h hs
    obtain ⟨n, u, run, sound, swept, count, bound⟩ := h.size t sound
    have covers := covers.mono fun j x hx => (swept.held j x hx).1
    refine ⟨n, (d, u), by simp [tiered, Store.below, drained, run], ⟨covers, sound⟩,
      (fades.trans swept).above (by simp only [limit]), count, fun limit there => ?_⟩
    obtain rfl | there := List.mem_cons.mp there
    · have fits : n ≤ (d.hot ++ d.warm.map (·.1)).length := count _ fun k e he => by
        have known := Tiers.knows_iff.mp (covers.keys k e he)
        simpa [empty] using known
      have hot := covers.hot
      have warm := covers.warm
      simp only [List.length_append, List.length_map] at fits
      dsimp only
      omega
    · exact bound limit there

theorem adjusts_tiered (now : Nat) : (tiered now inner).Adjusts v.tiered := by
  intro name value s hs
  obtain ⟨covers, sound⟩ := hs
  simp only [tiered]
  split
  · cases asked : Setting.capacity "size" value with
    | error e => exact ⟨_, s, rfl, ⟨covers, sound⟩, fun _ _ he => ⟨he, fun late => late⟩⟩
    | ok size =>
      exact ⟨_, (s.1.resizeHot now size, s.2), rfl, ⟨covers.resizeHot size, sound⟩,
        fun _ _ he => ⟨he, fun late => late⟩⟩
  · cases asked : Setting.capacity "warmSize" value with
    | error e => exact ⟨_, s, rfl, ⟨covers, sound⟩, fun _ _ he => ⟨he, fun late => late⟩⟩
    | ok capacity =>
      exact ⟨_, (s.1.resizeWarm capacity, s.2), rfl,
        ⟨covers.resizeWarm (Setting.one_le_capacity asked), sound⟩,
        fun _ _ he => ⟨he, fun late => late⟩⟩
  · cases asked : Setting.word "warmTtl" value with
    | error e => exact ⟨_, s, rfl, ⟨covers, sound⟩, fun _ _ he => ⟨he, fun late => late⟩⟩
    | ok limit =>
      exact ⟨_, ({ s.1 with timeToLive := some limit }, s.2), rfl,
        ⟨{ covers with }, sound⟩, fun _ _ he => ⟨he, fun late => late⟩⟩
  · exact ⟨_, s, rfl, ⟨covers, sound⟩, fun _ _ he => ⟨he, fun late => late⟩⟩

end Layer
end StatementCache
