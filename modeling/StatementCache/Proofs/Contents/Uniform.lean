import StatementCache.World
import StatementCache.Proofs.Alike
import StatementCache.Proofs.Triple

/-! Caches that see their own state and nothing else. From states that are alike every operation
leads to states that are alike, with the same result, whatever layers there are. -/
namespace StatementCache

open StatementCache.Action

structure Store.Uniform {σ : Type} (store : Store σ) (R : σ → σ → Prop) : Prop where
  put : ∀ k e, Alike R Eq (store.put k e) (store.put k e)
  get : ∀ k, Alike R Eq (store.get k) (store.get k)
  remove : ∀ k, Alike R Eq (store.remove k) (store.remove k)
  clear : Alike R Eq store.clear store.clear

namespace Store

variable {σ τ : Type} {store : Store τ} {R : τ → τ → Prop}

theorem Uniform.regroup (h : store.Uniform R) (split : σ → τ) (join : τ → σ)
    (inverse : ∀ t, split (join t) = t) :
    (store.regroup split join).Uniform fun s s' => R (split s) (split s') := by
  have via {α : Type} {Q : α → α → Prop} {m : Action τ α} (alike : Alike R Q m m) :
      Alike (fun s s' => R (split s) (split s')) Q
        (fun s => ⟨(m (split s)).result, join (m (split s)).state⟩)
        (fun s => ⟨(m (split s)).result, join (m (split s)).state⟩) := by
    intro s s' hs
    have done := alike (split s) (split s') hs
    dsimp only
    rw [inverse, inverse]
    exact done
  exact ⟨fun k e => via (h.put k e), fun k => via (h.get k), fun k => via (h.remove k), via h.clear⟩

theorem Uniform.beside {store : Store σ} {R : σ → σ → Prop} (h : store.Uniform R)
    (J : τ → τ → Prop) : (store.beside : Store (σ × τ)).Uniform (Beside R J) where
  put k e := (h.put k e).onFirst
  get k := (h.get k).onFirst
  remove k := (h.remove k).onFirst
  clear := h.clear.onFirst

theorem Uniform.congr {R' : τ → τ → Prop} (h : store.Uniform R) (same : R = R') :
    store.Uniform R' := same ▸ h

end Store

namespace Layer

variable {τ : Type} {inner : Store τ} {R : τ → τ → Prop}

theorem uniform_base (id : String) : (base id).Uniform Eq where
  put _ _ := .refl _
  get _ := .refl _
  remove _ := .refl _
  clear := .refl _

theorem alike_removeEach (h : inner.Uniform R) (ks : List CacheKey) :
    Alike R Eq (removeEach inner ks) (removeEach inner ks) := by
  induction ks with
  | nil => exact .pure rfl
  | cons k ks ih => exact (h.remove k).discard.bind fun _ _ _ => ih

theorem uniform_fifo (h : inner.Uniform R) : (fifo inner).Uniform (Beside Eq R) where
  put k e := (h.put k e).onSecond.bind fun _ _ _ =>
    (Alike.refl _).onFirst.bind fun leaving leaving' same => by
      subst same
      exact (alike_removeEach h leaving).onSecond
  get k := (h.get k).onSecond
  remove k := (Alike.refl _).onFirst.bind fun _ _ _ => (h.remove k).onSecond
  clear := (Alike.refl _).onFirst.bind fun _ _ _ => h.clear.onSecond

theorem uniform_lru (h : inner.Uniform R) : (lru inner).Uniform (Beside Eq R) where
  put k e := (h.put k e).onSecond.bind fun _ _ _ =>
    (Alike.refl _).onFirst.bind fun old old' same => by
      subst same
      cases old with
      | none => exact .pure rfl
      | some old => exact (h.remove old).onSecond.discard
  get k := (Alike.refl _).onFirst.bind fun _ _ _ => (h.get k).onSecond
  remove k := (Alike.refl _).onFirst.bind fun _ _ _ => (h.remove k).onSecond
  clear := (Alike.refl _).onFirst.bind fun _ _ _ => h.clear.onSecond

theorem alike_drainEach (h : inner.Uniform R) (ks : List CacheKey) :
    Alike (Beside Eq R) Eq (drainEach inner ks) (drainEach inner ks) := by
  induction ks with
  | nil => exact .pure rfl
  | cons k ks ih =>
    refine (Alike.refl _).onFirst.bind fun _ _ _ => Alike.get.bind fun s s' hs => ?_
    rw [hs.1]
    split
    · exact ih
    · exact (h.remove k).onSecond.discard.bind fun _ _ _ =>
        ih.bind fun n n' same => .pure (by rw [same])

theorem alike_drain (h : inner.Uniform R) :
    Alike (Beside Eq R) Eq (drain inner) (drain inner) :=
  Alike.get.bind fun s s' hs => by
    rw [hs.1]
    exact alike_drainEach h s'.1.reclaimed

theorem uniform_tiered (now : Nat) (h : inner.Uniform R) :
    (tiered now inner).Uniform (Beside Eq R) where
  put k e := (alike_drain h).discard.bind fun _ _ _ => (h.put k e).onSecond.bind fun _ _ _ =>
    (Alike.refl _).onFirst
  get k := by
    refine (alike_drain h).discard.bind fun _ _ _ =>
      (h.get k).onSecond.bind fun found found' same => ?_
    subst same
    cases found with
    | none => exact .pure rfl
    | some e =>
      refine Alike.get.bind fun s s' hs => ?_
      rw [hs.1]
      split
      · exact .pure rfl
      · refine (Alike.refl _).onFirst.bind fun young young' same => ?_
        subst same
        cases young with
        | true => exact (Alike.refl _).onFirst.bind fun _ _ _ => .pure rfl
        | false =>
          exact (Alike.refl _).onFirst.bind fun _ _ _ =>
            (h.remove k).onSecond.discard.bind fun _ _ _ => .pure rfl
  remove k := (alike_drain h).discard.bind fun _ _ _ => (Alike.refl _).onFirst.bind fun _ _ _ =>
    (h.remove k).onSecond
  clear := (Alike.refl _).onFirst.bind fun _ _ _ => h.clear.onSecond

theorem alike_clearWhenStale (now : Nat) (h : inner.Uniform R) :
    Alike (Beside Eq R) Eq (clearWhenStale now inner) (clearWhenStale now inner) := by
  refine Alike.get.bind fun s s' hs => ?_
  dsimp only
  rw [hs.1]
  split
  · exact .pure rfl
  · exact h.clear.onSecond.bind fun _ _ _ => (Alike.refl _).onFirst.bind fun _ _ _ => .pure rfl

theorem uniform_scheduled (now : Nat) (h : inner.Uniform R) :
    (scheduled now inner).Uniform (Beside Eq R) where
  put k e := (alike_clearWhenStale now h).discard.bind fun _ _ _ => (h.put k e).onSecond
  get k := (alike_clearWhenStale now h).bind fun cleared cleared' same => by
    subst same
    cases cleared with
    | true => exact .pure rfl
    | false => exact (h.get k).onSecond
  remove k := (alike_clearWhenStale now h).discard.bind fun _ _ _ => (h.remove k).onSecond
  clear := h.clear.onSecond.bind fun _ _ _ => (Alike.refl _).onFirst

theorem uniform_counted (h : inner.Uniform R) : (counted inner).Uniform (Beside Eq R) where
  put k e := (h.put k e).onSecond
  get k := (Alike.refl _).onFirst.bind fun _ _ _ =>
    (h.get k).onSecond.bind fun found found' same => by
      subst same
      split
      · exact (Alike.refl _).onFirst.bind fun _ _ _ => .pure rfl
      · exact .pure rfl
  remove k := (h.remove k).onSecond
  clear := h.clear.onSecond

theorem uniform_serialized (h : inner.Uniform R) : (serialized inner).Uniform R where
  put k e := (Alike.ofExcept (.refl _)).bind fun stored stored' same => by
    subst same
    exact h.put k stored
  get k := (h.get k).bind fun found found' same => by
    subst same
    exact .ofExcept (.refl _)
  remove k := (h.remove k).bind fun found found' same => by
    subst same
    exact .ofExcept (.refl _)
  clear := h.clear

theorem uniform_synchronized (h : inner.Uniform R) : (synchronized inner).Uniform R :=
  ⟨h.put, h.get, h.remove, h.clear⟩

theorem alike_releasing {α : Type} (thread : Thread) (k : CacheKey) {m : Action τ α}
    (h : Alike R Eq m m) :
    Alike (Beside Eq R) Eq (releasing thread k m) (releasing thread k m) := by
  rintro ⟨l, t⟩ ⟨_, t'⟩ ⟨rfl, ht⟩
  exact ⟨(h t t' ht).1, rfl, (h t t' ht).2⟩

theorem uniform_blocking (thread : Thread) (h : inner.Uniform R) :
    (blocking thread inner).Uniform (Beside Eq R) where
  put k e := alike_releasing thread k (h.put k e)
  get k := (Alike.refl _).onFirst.bind fun _ _ _ =>
    (h.get k).onSecond.attempt.bind fun found found' ends => by
      obtain rfl := ends.eq
      cases found with
      | error e => exact (Alike.refl _).onFirst.bind fun _ _ _ => .fail e
      | ok found =>
        dsimp only
        split
        · exact (Alike.refl _).onFirst.bind fun _ _ _ => .pure rfl
        · exact .pure rfl
  remove k := alike_releasing thread k (h.remove k)
  clear := h.clear.onSecond

theorem uniform_recording {note : Event → Action τ Unit} (noted : ∀ e, Alike R Eq (note e) (note e))
    (h : inner.Uniform R) : (recording note inner).Uniform R where
  put k e := (noted _).bind fun _ _ _ => h.put k e
  get k := (noted _).bind fun _ _ _ => h.get k
  remove k := (noted _).bind fun _ _ _ => h.remove k
  clear := (noted _).bind fun _ _ _ => h.clear

theorem uniform_faulty {permit : Operation → Action τ Unit}
    (permitted : ∀ op, Alike R Eq (permit op) (permit op)) (h : inner.Uniform R) :
    (faulty permit inner).Uniform R where
  put k e := (permitted _).bind fun _ _ _ => h.put k e
  get k := (permitted _).bind fun _ _ _ => h.get k
  remove k := (permitted _).bind fun _ _ _ => h.remove k
  clear := (permitted _).bind fun _ _ _ => h.clear

end Layer

namespace Chain

variable {ω : Type}

theorem uniform_stacked {β σ : Type} {store : Store (β × (σ × ω))} {R : σ × ω → σ × ω → Prop}
    (h : store.Uniform (Beside Eq R)) :
    (stacked store).Uniform fun s s' => s.1.1 = s'.1.1 ∧ R (s.1.2, s.2) (s'.1.2, s'.2) :=
  h.regroup _ _ fun _ => rfl

/-- A cache that keeps its entries itself sees nothing of what surrounds it but who acts, when, and
what is refused. -/
theorem uniform_store {site : Site ω} {J : ω → ω → Prop}
    (note : ∀ e, Alike J Eq (site.note e) (site.note e))
    (permit : ∀ op, Alike J Eq (site.permit op) (site.permit op)) (c : Chain)
    (own : c.target? = none) : (c.store site).Uniform (Beside Eq J) := by
  have stacked {β σ : Type} {store : Store (β × (σ × ω))}
      (h : store.Uniform (Beside Eq (Beside Eq J))) : (stacked store).Uniform (Beside Eq J) := by
    refine (uniform_stacked h).congr ?_
    funext s s'
    simp only [Beside, Prod.ext_iff (x := s.1), and_assoc]
  induction c with
  | base id => exact (Layer.uniform_base id).beside J
  | shared target => cases own
  | lru inner ih => exact stacked (Layer.uniform_lru (ih own))
  | fifo inner ih => exact stacked (Layer.uniform_fifo (ih own))
  | tiered inner ih => exact stacked (Layer.uniform_tiered site.now (ih own))
  | scheduled inner ih => exact stacked (Layer.uniform_scheduled site.now (ih own))
  | serialized inner ih => exact Layer.uniform_serialized (ih own)
  | counted inner ih => exact stacked (Layer.uniform_counted (ih own))
  | synchronized inner ih => exact Layer.uniform_synchronized (ih own)
  | blocking inner ih => exact stacked (Layer.uniform_blocking site.thread (ih own))
  | recording inner ih => exact Layer.uniform_recording (fun e => (note e).onSecond) (ih own)
  | faulty inner ih => exact Layer.uniform_faulty (fun op => (permit op).onSecond) (ih own)

end Chain
end StatementCache
