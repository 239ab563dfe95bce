import StatementCache.Proofs.Contents.Chain
import Mathlib.Logic.Function.Basic

/-! Writes that may fail. Whatever becomes of an operation, it changes the entry of its own key and
no other one, except that layers that evict let entries go at any time. A write that reports a
failure has left the map alone, unless a key had to make room after it and could not be removed. -/
namespace StatementCache

open StatementCache.Action Function

variable {σ τ α : Type}

def Follows (lost : CacheKey → Prop) (now after : CacheKey → Option Entry) : Prop :=
  ∀ k, after k = now k ∨ lost k ∧ after k = none

namespace Follows

variable {lost lost' : CacheKey → Prop} {first second third : CacheKey → Option Entry}

theorem refl (lost : CacheKey → Prop) (now : CacheKey → Option Entry) : Follows lost now now :=
  fun _ => .inl rfl

theorem mono (h : Follows lost first second) (more : ∀ k, lost k → lost' k) :
    Follows lost' first second := fun k => (h k).imp_right (And.imp_left (more k))

theorem trans (h : Follows lost first second) (h' : Follows lost second third) :
    Follows lost first third := by
  intro k
  rcases h' k with same | gone
  · rw [same]
    exact h k
  · exact .inr gone

theorem update (h : Follows lost first second) (k : CacheKey) (v : Option Entry) :
    Follows lost (update first k v) (update second k v) := by
  intro j
  by_cases same : j = k
  · subst same
    rw [update_self, update_self]
    exact .inl rfl
  · rw [update_of_ne same, update_of_ne same]
    exact h j

end Follows

namespace Store

variable {held : σ → CacheKey → Option Entry} {lost lost' : CacheKey → Prop}
  {lossy lossy' torn torn' : Prop} {k : CacheKey} {stored : Except Fault Entry}
  {v : CacheKey → Option Entry}

def Losing (held : σ → CacheKey → Option Entry) (lost : CacheKey → Prop)
    (v : CacheKey → Option Entry) (s : σ) : Prop := Follows lost v (held s)

/-- The end of a write over `v`: the key has the stored form, or the write has failed and there is
no trace of it. Where writes may be torn a failed one may also have left its entry. -/
def Written (held : σ → CacheKey → Option Entry) (lossy torn : Prop) (k : CacheKey)
    (stored : Except Fault Entry) (v : CacheKey → Option Entry) (r : Except Fault α) (s : σ) :
    Prop :=
  (∃ f, stored = .ok f ∧ (torn ∨ ∃ a, r = .ok a) ∧
      Losing held (fun _ => lossy) (update v k (some f)) s) ∨
    (∃ e, r = .error e) ∧ Losing held (fun _ => lossy) v s

def Cleared (held : σ → CacheKey → Option Entry) (lossy : Prop) (v : CacheKey → Option Entry)
    (r : Except Fault α) (s : σ) : Prop :=
  ((∃ a, r = .ok a) ∧ ∀ k, held s k = none) ∨
    (∃ e, r = .error e) ∧ Losing held (fun _ => lossy) v s

/-- Each operation is done for itself. The map holds entries in their `stored` form. -/
structure Piecewise (store : Store σ) (held : σ → CacheKey → Option Entry)
    (stored : Entry → Except Fault Entry) (lossy torn : Prop) : Prop where
  put : ∀ k e v, Meets (Losing held (fun _ => lossy) v) (store.put k e)
    (Written held lossy torn k (stored e) v)
  remove : ∀ k v, Keeps (Losing held (fun j => j = k ∨ lossy) v) (store.remove k)
  clear : ∀ v, Meets (Losing held (fun _ => lossy) v) store.clear (Cleared held lossy v)

structure Yields (store : Store σ) : Prop where
  remove : ∀ k, Succeeds (store.remove k)
  clear : Succeeds store.clear

theorem Losing.keeps_mono {m : Action σ α} (h : ∀ v, Keeps (Losing held lost v) m)
    (more : ∀ k, lost k → lost' k) (v : CacheKey → Option Entry) :
    Keeps (Losing held lost' v) m := by
  intro s hs
  have step : Follows lost (held s) (held (m s).state) := h (held s) s (Follows.refl _ _)
  exact hs.trans (step.mono more)

theorem Losing.keeps_any {m : Action σ α} (h : ∀ v, Keeps (Losing held (fun _ => True) v) m)
    (k : CacheKey) (v : CacheKey → Option Entry) :
    Keeps (Losing held (fun j => j = k ∨ True) v) m :=
  keeps_mono h (fun _ _ => .inr trivial) v

theorem Written.mono {r : Except Fault α} {s : σ} (h : Written held lossy torn k stored v r s)
    (more : lossy → lossy') (tear : torn → torn') :
    Written held lossy' torn' k stored v r s :=
  h.imp (fun ⟨f, form, came, losing⟩ => ⟨f, form, came.imp_left tear, losing.mono fun _ => more⟩)
    fun ⟨failed, losing⟩ => ⟨failed, losing.mono fun _ => more⟩

theorem Written.of_losing {r : Except Fault α} {s : σ} {w : CacheKey → Option Entry}
    (h : Written held lossy torn k stored w r s) (before : Follows (fun _ => lossy) v w) :
    Written held lossy torn k stored v r s :=
  h.imp (fun ⟨f, form, came, losing⟩ => ⟨f, form, came, (before.update k (some f)).trans losing⟩)
    fun ⟨failed, losing⟩ => ⟨failed, before.trans losing⟩

theorem Cleared.losing {r : Except Fault α} {s : σ} (h : Cleared held lossy v r s) :
    Losing held (fun _ => True) v s := by
  rcases h with ⟨-, empty⟩ | ⟨-, losing⟩
  · exact fun k => .inr ⟨trivial, empty k⟩
  · exact losing.mono fun _ _ => trivial

namespace Piecewise

variable {store : Store σ} {form : Entry → Except Fault Entry}

theorem meets_put (h : store.Piecewise held form lossy torn) (more : lossy → lossy')
    (tear : torn → torn') (k : CacheKey) (e : Entry) (v : CacheKey → Option Entry) :
    Meets (Losing held (fun _ => lossy') v) (store.put k e)
      (Written held lossy' torn' k (form e) v) := by
  intro s hs
  have put := h.put k e (held s) s (Follows.refl _ _)
  exact (put.mono more tear).of_losing hs

theorem keeps_remove (h : store.Piecewise held form lossy torn) (k : CacheKey)
    (v : CacheKey → Option Entry) : Keeps (Losing held (fun _ => True) v) (store.remove k) :=
  Losing.keeps_mono (h.remove k) (fun _ _ => trivial) v

theorem keeps_clear (h : store.Piecewise held form lossy torn) (v : CacheKey → Option Entry) :
    Keeps (Losing held (fun _ => True) v) store.clear := by
  intro s hs
  exact hs.trans (h.clear (held s) s (Follows.refl _ _)).losing

end Piecewise

theorem Written.after {m : Action σ α} {f : α → Action σ Unit}
    (first : Keeps (Losing held (fun _ => lossy) v) m)
    (next : ∀ a, Meets (Losing held (fun _ => lossy) v) (f a) (Written held lossy torn k stored v)) :
    Meets (Losing held (fun _ => lossy) v) (m >>= f) (Written held lossy torn k stored v) :=
  Meets.bind first next fun e _ losing => .inr ⟨⟨e, rfl⟩, losing⟩

theorem Written.before {m : Action σ Unit} {f : Unit → Action σ Unit}
    (write : Meets (Losing held (fun _ => lossy) v) m (Written held lossy torn k stored v))
    (next : ∀ a w, Keeps (Losing held (fun _ => lossy) w) (f a))
    (safe : torn ∨ ∀ a, Succeeds (f a)) :
    Meets (Losing held (fun _ => lossy) v) (m >>= f) (Written held lossy torn k stored v) := by
  refine Meets.bind write (fun a s written => ?_) fun e _ written => ?_
  · rcases written with ⟨x, form, -, losing⟩ | ⟨⟨e, failed⟩, -⟩
    · refine .inl ⟨x, form, ?_, next a _ s losing⟩
      exact safe.imp_right fun succeeds => succeeds a s
    · cases failed
  · rcases written with ⟨x, form, came, losing⟩ | ⟨-, losing⟩
    · refine .inl ⟨x, form, came.imp_right ?_, losing⟩
      rintro ⟨a, ok⟩
      cases ok
    · exact .inr ⟨⟨e, rfl⟩, losing⟩

theorem Cleared.after {m : Action σ Unit} {f : Unit → Action σ Unit}
    (first : Keeps (Losing held (fun _ => lossy) v) m)
    (next : ∀ a, Meets (Losing held (fun _ => lossy) v) (f a) (Cleared held lossy v)) :
    Meets (Losing held (fun _ => lossy) v) (m >>= f) (Cleared held lossy v) :=
  Meets.bind first next fun e _ losing => .inr ⟨⟨e, rfl⟩, losing⟩

end Store

namespace Layer

open Store

variable {ω : Type} {inner : Store τ} {held : τ → CacheKey → Option Entry}
  {form : Entry → Except Fault Entry} {lossy torn : Prop}

theorem piecewise_base (id : String) :
    (base id).Piecewise (fun entries => entries.get?) .ok False False where
  put k e v entries hs := by
    refine .inl ⟨e, rfl, .inr ⟨(), rfl⟩, fun j => ?_⟩
    simp only [base, modify_apply, Table.get?_insert, update_apply, eq_comm (a := k)]
    split
    · exact .inl rfl
    · exact hs j
  remove k v entries hs j := by
    simp only [base, total_apply, Table.get?_erase]
    split
    · rename_i same
      exact .inr ⟨.inl same.symm, rfl⟩
    · exact hs j
  clear v entries hs := .inl ⟨⟨(), rfl⟩, fun k => Table.get?_empty k⟩

theorem yields_base (id : String) : (base id).Yields where
  remove _ := Succeeds.total _
  clear := Succeeds.modify _

theorem keeps_index {σ : Type} (held : τ → CacheKey → Option Entry) (lost : CacheKey → Prop)
    (v : CacheKey → Option Entry) (m : Action σ α) :
    Keeps (Losing (fun s : σ × τ => held s.2) lost v) (onFirst m) :=
  Keeps.onFirst (Losing held lost v) m

theorem meets_clear {lossy' : Prop} (h : inner.Piecewise held form lossy torn)
    (more : lossy → lossy') (v : CacheKey → Option Entry) :
    Meets (Losing held (fun _ => lossy') v) inner.clear (Cleared held lossy' v) := by
  intro s hs
  have clear := h.clear (held s) s (Follows.refl _ _)
  exact clear.imp_right fun ⟨failed, losing⟩ => ⟨failed, hs.trans (losing.mono fun _ => more)⟩

theorem piecewise_lru (h : inner.Piecewise held form lossy torn) {torn' : Prop}
    (tear : torn → torn') (safe : torn' ∨ inner.Yields) :
    (lru inner).Piecewise (fun s => held s.2) form True torn' where
  put k e v := by
    refine Written.before (fun s => h.meets_put (fun _ => trivial) tear k e v s.2)
      (fun _ w => (keeps_index held _ w _).bind fun old => ?_) ?_
    · cases old with
      | none => exact Keeps.pure ()
      | some k => exact Keeps.discard (Keeps.onSecond (h.keeps_remove k w))
    · refine safe.imp_right fun yields _ => (Succeeds.onFirst (Succeeds.total _)).bind fun old => ?_
      cases old with
      | none => exact Succeeds.pure ()
      | some k => exact Succeeds.discard (Succeeds.onSecond (yields.remove k))
  remove k := Losing.keeps_any
    (fun v => (keeps_index held _ v _).bind fun _ => Keeps.onSecond (h.keeps_remove k v)) k
  clear v := Cleared.after (keeps_index held _ v _) fun _ s =>
    meets_clear h (fun _ => trivial) v s.2

theorem yields_lru (h : inner.Yields) : (lru inner).Yields where
  remove k := (Succeeds.onFirst (Succeeds.modify _)).bind fun _ => Succeeds.onSecond (h.remove k)
  clear := (Succeeds.onFirst (Succeeds.modify _)).bind fun _ => Succeeds.onSecond h.clear

theorem succeeds_removeEach (h : inner.Yields) (ks : List CacheKey) :
    Succeeds (removeEach inner ks) := by
  induction ks with
  | nil => exact Succeeds.pure ()
  | cons k ks ih => exact (Succeeds.discard (h.remove k)).bind fun _ => ih

theorem piecewise_fifo (h : inner.Piecewise held form lossy torn) {torn' : Prop}
    (tear : torn → torn') (safe : torn' ∨ inner.Yields) :
    (fifo inner).Piecewise (fun s => held s.2) form True torn' where
  put k e v := by
    refine Written.before (fun s => h.meets_put (fun _ => trivial) tear k e v s.2)
      (fun _ w => (keeps_index held _ w _).bind fun leaving => ?_) ?_
    · exact Keeps.onSecond (keeps_removeEach (fun k => h.keeps_remove k w) leaving)
    · exact safe.imp_right fun yields _ => (Succeeds.onFirst (Succeeds.total _)).bind
        fun leaving => Succeeds.onSecond (succeeds_removeEach yields leaving)
  remove k := Losing.keeps_any
    (fun v => (keeps_index held _ v _).bind fun _ => Keeps.onSecond (h.keeps_remove k v)) k
  clear v := Cleared.after (keeps_index held _ v _) fun _ s =>
    meets_clear h (fun _ => trivial) v s.2

theorem yields_fifo (h : inner.Yields) : (fifo inner).Yields where
  remove k := (Succeeds.onFirst (Succeeds.modify _)).bind fun _ => Succeeds.onSecond (h.remove k)
  clear := (Succeeds.onFirst (Succeeds.modify _)).bind fun _ => Succeeds.onSecond h.clear

/-- The keys that had to leave go before the write, so a write is torn only below. -/
theorem piecewise_tiered (now : Nat) (h : inner.Piecewise held form lossy torn) :
    (tiered now inner).Piecewise (fun s => held s.2) form True torn where
  put k e v := by
    refine Written.after (Keeps.discard (keeps_drain fun j => h.keeps_remove j v)) fun _ => ?_
    refine Written.before (fun s => h.meets_put (fun _ => trivial) (fun h => h) k e v s.2)
      (fun _ w => keeps_index held _ w _) ?_
    exact .inr fun _ => Succeeds.onFirst (Succeeds.modify _)
  remove k := Losing.keeps_any (fun v =>
    (Keeps.discard (keeps_drain fun j => h.keeps_remove j v)).bind fun _ =>
      (keeps_index held _ v _).bind fun _ => Keeps.onSecond (h.keeps_remove k v)) k
  clear v := Cleared.after (keeps_index held _ v _) fun _ s =>
    meets_clear h (fun _ => trivial) v s.2

theorem succeeds_drainEach (h : inner.Yields) (ks : List CacheKey) :
    Succeeds (drainEach inner ks) := by
  induction ks with
  | nil => exact Succeeds.pure 0
  | cons k ks ih =>
    refine (Succeeds.onFirst (Succeeds.modify _)).bind fun _ => Succeeds.get.bind fun s => ?_
    split
    · exact ih
    · exact (Succeeds.discard (Succeeds.onSecond (h.remove k))).bind fun _ =>
        ih.bind fun _ => Succeeds.pure _

theorem succeeds_drain (h : inner.Yields) : Succeeds (drain inner) :=
  Succeeds.get.bind fun _ => succeeds_drainEach h _

theorem yields_tiered (now : Nat) (h : inner.Yields) : (tiered now inner).Yields where
  remove k :=
    (Succeeds.discard (succeeds_drain h)).bind fun _ =>
      (Succeeds.onFirst (Succeeds.modify _)).bind fun _ => Succeeds.onSecond (h.remove k)
  clear := (Succeeds.onFirst (Succeeds.modify _)).bind fun _ => Succeeds.onSecond h.clear

theorem piecewise_scheduled (now : Nat) (h : inner.Piecewise held form lossy torn) :
    (scheduled now inner).Piecewise (fun s => held s.2) form True torn where
  put k e v := Written.after (Keeps.discard (keeps_clearWhenStale now (h.keeps_clear v)))
    fun _ s => h.meets_put (fun _ => trivial) (fun h => h) k e v s.2
  remove k := Losing.keeps_any (fun v =>
    (Keeps.discard (keeps_clearWhenStale now (h.keeps_clear v))).bind fun _ =>
      Keeps.onSecond (h.keeps_remove k v)) k
  clear v := by
    have clear : Meets (Losing (fun s : Schedule × τ => held s.2) (fun _ => True) v)
        (onSecond inner.clear) (Cleared (fun s => held s.2) True v) := fun s =>
      meets_clear h (fun _ => trivial) v s.2
    refine Meets.bind clear (fun _ s cleared => ?_) fun e _ cleared => ?_
    · rcases cleared with ⟨-, empty⟩ | ⟨⟨_, failed⟩, -⟩
      · exact .inl ⟨⟨(), rfl⟩, empty⟩
      · cases failed
    · rcases cleared with ⟨⟨_, ok⟩, -⟩ | ⟨-, losing⟩
      · cases ok
      · exact .inr ⟨⟨e, rfl⟩, losing⟩

theorem succeeds_clearWhenStale (now : Nat) (h : inner.Yields) :
    Succeeds (clearWhenStale now inner) := by
  refine Succeeds.get.bind fun (schedule, _) => ?_
  dsimp only
  split
  · exact Succeeds.pure false
  · exact (Succeeds.onSecond h.clear).bind fun _ =>
      (Succeeds.onFirst (Succeeds.modify _)).bind fun _ => Succeeds.pure true

theorem yields_scheduled (now : Nat) (h : inner.Yields) : (scheduled now inner).Yields where
  remove k := (Succeeds.discard (succeeds_clearWhenStale now h)).bind fun _ =>
    Succeeds.onSecond (h.remove k)
  clear := (Succeeds.onSecond h.clear).bind fun _ => Succeeds.onFirst (Succeeds.modify _)

theorem piecewise_serialized (h : inner.Piecewise held form lossy torn) :
    (serialized inner).Piecewise held (fun e => (encode inner.id e).bind form) lossy torn where
  put k e v := by
    intro s hs
    cases coded : encode inner.id e with
    | error d =>
      exact .inr ⟨⟨d, by simp [serialized, bind_apply, coded]⟩, by
        simpa [serialized, bind_apply, coded] using hs⟩
    | ok stored =>
      simpa [serialized, bind_apply, coded, Except.bind] using h.put k stored v s hs
  remove k v := (h.remove k v).bind fun _ => Keeps.ofExcept _
  clear := h.clear

theorem piecewise_counted (h : inner.Piecewise held form lossy torn) :
    (counted inner).Piecewise (fun s => held s.2) form lossy torn where
  put k e v s := h.put k e v s.2
  remove k v s := h.remove k v s.2
  clear v s := h.clear v s.2

theorem yields_counted (h : inner.Yields) : (counted inner).Yields where
  remove k := Succeeds.onSecond (h.remove k)
  clear := Succeeds.onSecond h.clear

theorem piecewise_synchronized (h : inner.Piecewise held form lossy torn) :
    (synchronized inner).Piecewise held form lossy torn where
  put := h.put
  remove := h.remove
  clear := h.clear

theorem yields_synchronized (h : inner.Yields) : (synchronized inner).Yields where
  remove := h.remove
  clear := h.clear

theorem piecewise_blocking (thread : Thread) (h : inner.Piecewise held form lossy torn) :
    (blocking thread inner).Piecewise (fun s => held s.2) form lossy torn where
  put k e v s := h.put k e v s.2
  remove k v s := h.remove k v s.2
  clear v s := h.clear v s.2

theorem yields_blocking (thread : Thread) (h : inner.Yields) :
    (blocking thread inner).Yields where
  remove k := fun s => h.remove k s.2
  clear := Succeeds.onSecond h.clear

theorem piecewise_recording {note : Event → Action τ Unit}
    (quiet : ∀ e v, Keeps (Losing held (fun _ => False) v) (note e))
    (h : inner.Piecewise held form lossy torn) :
    (recording note inner).Piecewise held form lossy torn where
  put k e v := Written.after (Losing.keeps_mono (quiet _) (fun _ h => h.elim) v) fun _ =>
    h.put k e v
  remove k v := (Losing.keeps_mono (quiet _) (fun _ h => h.elim) v).bind fun _ => h.remove k v
  clear v := Cleared.after (Losing.keeps_mono (quiet _) (fun _ h => h.elim) v) fun _ => h.clear v

theorem yields_recording {note : Event → Action τ Unit} (reports : ∀ e, Succeeds (note e))
    (h : inner.Yields) : (recording note inner).Yields where
  remove k := (reports _).bind fun _ => h.remove k
  clear := (reports _).bind fun _ => h.clear

theorem piecewise_faulty {permit : Operation → Action τ Unit}
    (quiet : ∀ op v, Keeps (Losing held (fun _ => False) v) (permit op))
    (h : inner.Piecewise held form lossy torn) :
    (faulty permit inner).Piecewise held form lossy torn where
  put k e v := Written.after (Losing.keeps_mono (quiet _) (fun _ h => h.elim) v) fun _ =>
    h.put k e v
  remove k v := (Losing.keeps_mono (quiet _) (fun _ h => h.elim) v).bind fun _ => h.remove k v
  clear v := Cleared.after (Losing.keeps_mono (quiet _) (fun _ h => h.elim) v) fun _ => h.clear v

end Layer

namespace Chain

variable {ω : Type}

def stored : Chain → Entry → Except Fault Entry
  | .base _ | .shared _ => .ok
  | .serialized inner => fun e => (Layer.encode inner.id e).bind (stored inner)
  | .lru inner | .fifo inner | .tiered inner | .scheduled inner | .counted inner
  | .synchronized inner | .blocking inner | .recording inner | .faulty inner => stored inner

def Evicts : Chain → Prop
  | .base _ | .shared _ => False
  | .lru _ | .fifo _ | .tiered _ | .scheduled _ => True
  | .serialized inner | .counted inner | .synchronized inner | .blocking inner
  | .recording inner | .faulty inner => Evicts inner

def Refuses : Chain → Prop
  | .base _ => False
  | .shared _ | .serialized _ | .faulty _ => True
  | .lru inner | .fifo inner | .tiered inner | .scheduled inner | .counted inner
  | .synchronized inner | .blocking inner | .recording inner => Refuses inner

/-- A key has to make room after a write, over layers that may not let it go. -/
def Tears : Chain → Prop
  | .base _ | .shared _ => False
  | .lru inner | .fifo inner => Tears inner ∨ Refuses inner
  | .tiered inner | .scheduled inner | .serialized inner | .counted inner | .synchronized inner
  | .blocking inner | .recording inner | .faulty inner => Tears inner

end Chain

namespace Store

theorem Piecewise.regroup {store : Store τ} {held : τ → CacheKey → Option Entry}
    {form : Entry → Except Fault Entry} {lossy torn : Prop}
    (h : store.Piecewise held form lossy torn) (split : σ → τ) (join : τ → σ)
    (inverse : ∀ t, split (join t) = t) :
    (store.regroup split join).Piecewise (fun s => held (split s)) form lossy torn where
  put k e v s hs := by
    have put := h.put k e v (split s) hs
    simpa only [Store.regroup, Written, Losing, inverse] using put
  remove k v s hs := by
    have remove := h.remove k v (split s) hs
    simpa only [Store.regroup, Losing, inverse] using remove
  clear v s hs := by
    have clear := h.clear v (split s) hs
    simpa only [Store.regroup, Cleared, Losing, inverse] using clear

theorem Piecewise.beside {store : Store σ} {held : σ → CacheKey → Option Entry}
    {form : Entry → Except Fault Entry} {lossy torn : Prop}
    (h : store.Piecewise held form lossy torn) :
    (store.beside : Store (σ × τ)).Piecewise (fun s => held s.1) form lossy torn where
  put k e v s := h.put k e v s.1
  remove k v s := h.remove k v s.1
  clear v s := h.clear v s.1

theorem Yields.regroup {store : Store τ} (h : store.Yields) (split : σ → τ) (join : τ → σ) :
    (store.regroup split join).Yields where
  remove k s := h.remove k (split s)
  clear s := h.clear (split s)

end Store

namespace Chain

open Store

variable {ω : Type}

theorem yields_stacked {β σ : Type} {store : Store (β × (σ × ω))} (h : store.Yields) :
    (stacked store).Yields := h.regroup _ _

theorem piecewise_stacked {β σ : Type} {store : Store (β × (σ × ω))}
    {held : β × (σ × ω) → CacheKey → Option Entry} {form : Entry → Except Fault Entry}
    {lossy torn : Prop} (h : store.Piecewise held form lossy torn) :
    (stacked store).Piecewise (fun s => held (s.1.1, (s.1.2, s.2))) form lossy torn :=
  h.regroup _ _ fun _ => rfl

theorem yields_store (site : Site ω) (reports : ∀ e, Succeeds (site.note e)) (c : Chain)
    (obeys : ¬ c.Refuses) : (c.store site).Yields := by
  induction c with
  | base _ =>
    exact ⟨fun k => Succeeds.onFirst ((Layer.yields_base _).remove k),
      Succeeds.onFirst (Layer.yields_base _).clear⟩
  | shared _ | serialized _ _ | faulty _ _ => exact (obeys trivial).elim
  | lru inner ih => exact yields_stacked (Layer.yields_lru (ih obeys))
  | fifo inner ih => exact yields_stacked (Layer.yields_fifo (ih obeys))
  | tiered inner ih => exact yields_stacked (Layer.yields_tiered site.now (ih obeys))
  | scheduled inner ih => exact yields_stacked (Layer.yields_scheduled site.now (ih obeys))
  | counted inner ih => exact yields_stacked (Layer.yields_counted (ih obeys))
  | synchronized inner ih => exact Layer.yields_synchronized (ih obeys)
  | blocking inner ih => exact yields_stacked (Layer.yields_blocking site.thread (ih obeys))
  | recording inner ih =>
    exact Layer.yields_recording (fun e => Succeeds.onSecond (reports e)) (ih obeys)

theorem id_store (site : Site ω) (c : Chain) (own : c.target? = none) :
    (c.store site).id = c.id := by
  induction c with
  | base _ => rfl
  | shared _ => cases own
  | lru _ ih | fifo _ ih | tiered _ ih | scheduled _ ih | serialized _ ih | counted _ ih
  | synchronized _ ih | blocking _ ih | recording _ ih | faulty _ ih => exact ih own

/-- Every chain with a map of its own, whatever its layers are and however they are ordered. -/
theorem piecewise_store (site : Site ω) (reports : ∀ e, Succeeds (site.note e)) (c : Chain)
    (own : c.target? = none) :
    (c.store site).Piecewise (fun s => (c.entries s.1).get?) c.stored c.Evicts c.Tears := by
  have around (inner : Chain) (m : Action ω Unit) (v : CacheKey → Option Entry) :
      Keeps (Losing (fun s : inner.State × ω => (inner.entries s.1).get?) (fun _ => False) v)
        (onSecond m) := fun _ hs => hs
  have room (inner : Chain) : (inner.Tears ∨ inner.Refuses) ∨ (inner.store site).Yields := by
    by_cases refuses : inner.Refuses
    · exact .inl (.inr refuses)
    · exact .inr (yields_store site reports inner refuses)
  induction c with
  | base id => exact (Layer.piecewise_base id).beside
  | shared _ => cases own
  | lru inner ih => exact piecewise_stacked (Layer.piecewise_lru (ih own) .inl (room inner))
  | fifo inner ih => exact piecewise_stacked (Layer.piecewise_fifo (ih own) .inl (room inner))
  | tiered inner ih => exact piecewise_stacked (Layer.piecewise_tiered site.now (ih own))
  | scheduled inner ih => exact piecewise_stacked (Layer.piecewise_scheduled site.now (ih own))
  | serialized inner ih =>
    have piecewise := Layer.piecewise_serialized (ih own)
    rwa [id_store site inner own] at piecewise
  | counted inner ih => exact piecewise_stacked (Layer.piecewise_counted (ih own))
  | synchronized inner ih => exact Layer.piecewise_synchronized (ih own)
  | blocking inner ih => exact piecewise_stacked (Layer.piecewise_blocking site.thread (ih own))
  | recording inner ih => exact Layer.piecewise_recording (fun _ => around inner _) (ih own)
  | faulty inner ih => exact Layer.piecewise_faulty (fun _ => around inner _) (ih own)

end Chain
end StatementCache
