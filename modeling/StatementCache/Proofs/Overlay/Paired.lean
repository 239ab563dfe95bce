import StatementCache.Proofs.Contents.Passive
import StatementCache.Proofs.Overlay.Guarded

/-! The same overlays over passive caches that differ in counters only. They find the same, publish
the same and fail alike. -/
namespace StatementCache

open StatementCache.Action

structure Directory.Uniform {σ : Type} (directory : Directory σ) (ref : CacheRef)
    (R : σ → σ → Prop) : Prop where
  same : ∀ s s', R s s' → directory ref s = directory ref s'
  store : ∀ s store, directory ref s = some store → store.Uniform R

theorem World.uniform_find? {J : List Event → List Event → Prop} (host : Host) (ref : CacheRef) :
    Directory.Uniform (find? host) ref (Alike J) where
  same _ _ h := h.find?_eq host ref
  store _ _ found := (steady_find? found).toUniform

namespace Overlay

variable {σ : Type} {directory : Directory σ} {store : Store σ} {R : σ → σ → Prop} {o : Overlay}
  {s s' : σ}

theorem uniform_get (h : directory.Uniform o.target R) (hs : R s s') (k : CacheKey) :
    SameEnd Eq (get directory k (o, s)).result (get directory k (o, s')).result ∧
      Beside Eq R (get directory k (o, s)).state (get directory k (o, s')).state := by
  have same := h.same s s' hs
  cases found : directory o.target s with
  | none =>
    rw [get_of_none found, get_of_none (same ▸ found)]
    exact ⟨.error _, rfl, hs⟩
  | some store =>
    rw [get_of_some found, get_of_some (same ▸ found)]
    obtain ⟨ends, states⟩ := (h.store s store found).get k s s' hs
    generalize store.get k s = done, store.get k s' = done' at ends states
    obtain ⟨result, t⟩ := done
    obtain ⟨result', t'⟩ := done'
    cases ends with
    | ok same =>
      subst same
      exact ⟨.refl _, rfl, states⟩
    | error e => exact ⟨.error e, rfl, states⟩

theorem alike_flush (h : store.Uniform R) (o : Overlay) :
    Alike R Eq (o.flush store) (o.flush store) := by
  refine .all fun m mem => ?_
  rcases List.mem_append.mp mem with mem | mem
  · obtain ⟨⟨k, e⟩, -, rfl⟩ := List.mem_map.mp mem
    exact h.put k e
  · obtain ⟨k, -, rfl⟩ := List.mem_map.mp mem
    exact h.put k .placeholder

theorem alike_releaseMissed (h : store.Uniform R) (o : Overlay) :
    Alike R Eq (o.releaseMissed store) (o.releaseMissed store) := by
  refine .all fun m mem => ?_
  obtain ⟨k, -, rfl⟩ := List.mem_map.mp mem
  exact (h.remove k).discard

theorem alike_publish (h : store.Uniform R) (o : Overlay) :
    Alike R Eq (o.publish store) (o.publish store) := by
  unfold publish
  split
  · refine h.clear.attempt.bind fun cleared cleared' ends => ?_
    cases ends with
    | ok _ => exact alike_flush h o
    | error e => exact (alike_releaseMissed h o).attempt.discard.bind fun _ _ _ => .fail e
  · exact alike_flush h o

theorem uniform_settle {work : Overlay → Store σ → Action σ Unit}
    (works : ∀ store : Store σ, store.Uniform R → Alike R Eq (work o store) (work o store))
    (h : directory.Uniform o.target R) (hs : R s s') :
    SameEnd Eq (settle directory work (o, s)).result (settle directory work (o, s')).result ∧
      Beside Eq R (settle directory work (o, s)).state (settle directory work (o, s')).state := by
  simp only [settle, h.same s s' hs]
  cases found : directory o.target s' with
  | none => exact ⟨.error _, rfl, hs⟩
  | some store =>
    obtain ⟨ends, states⟩ := works store (h.store s' store found) s s' hs
    exact ⟨ends, rfl, states⟩

end Overlay

namespace Overlays

variable {J : List Event → List Event → Prop}

theorem alike_onOverlay {σ α : Type} {R : σ → σ → Prop} {Q : α → α → Prop}
    {m : Action (Overlay × σ) α} (h : Alike (Beside Eq R) Q m m) (ref : CacheRef) :
    Alike (Beside Eq R) Q (onOverlay ref m) (onOverlay ref m) := by
  rintro ⟨os, s⟩ ⟨_, s'⟩ ⟨rfl, hs⟩
  rw [onOverlay_apply, onOverlay_apply]
  obtain ⟨ends, same, states⟩ := h (os.overlay ref, s) (os.overlay ref, s') ⟨rfl, hs⟩
  dsimp only
  rw [same]
  exact ⟨ends, rfl, states⟩

theorem alike_get (host : Host) (ref : CacheRef) (k : CacheKey) :
    Alike (Beside Eq (World.Alike J)) Eq (get (World.find? host) ref k)
      (get (World.find? host) ref k) := by
  refine alike_onOverlay ?_ ref
  rintro ⟨o, w⟩ ⟨_, w'⟩ ⟨rfl, hw⟩
  exact Overlay.uniform_get (World.uniform_find? host o.target) hw k

theorem alike_clear (ref : CacheRef) :
    Alike (Beside Eq (World.Alike J)) Eq (clear ref) (clear ref) :=
  alike_onOverlay (Alike.refl _).onFirst ref

theorem alike_put (ref : CacheRef) (k : CacheKey) (e : Entry) :
    Alike (Beside Eq (World.Alike J)) Eq (put ref k e) (put ref k e) :=
  alike_onOverlay (Alike.refl _).onFirst ref

theorem alike_settle {work : Action (Overlay × World) Unit}
    (h : Alike (Beside Eq (World.Alike J)) Eq work work) :
    Alike (Beside Eq (World.Alike J)) Eq (settle work) (settle work) := by
  rintro ⟨os, w⟩ ⟨_, w'⟩ ⟨rfl, hw⟩
  have each : Alike (World.Alike J) Eq
      (all (os.bySerial.values.map fun o w => ⟨(work (o, w)).result, (work (o, w)).state.2⟩))
      (all (os.bySerial.values.map fun o w => ⟨(work (o, w)).result, (work (o, w)).state.2⟩)) := by
    refine .all fun m mem => ?_
    obtain ⟨o, -, rfl⟩ := List.mem_map.mp mem
    intro v v' hv
    obtain ⟨ends, -, worlds⟩ := h (o, v) (o, v') ⟨rfl, hv⟩
    exact ⟨ends, worlds⟩
  obtain ⟨ends, worlds⟩ := each w w' hw
  exact ⟨ends, rfl, worlds⟩

theorem alike_settle_of {work : Overlay → Store World → Action World Unit}
    (works : ∀ o (store : Store World), store.Uniform (World.Alike J) →
      Alike (World.Alike J) Eq (work o store) (work o store)) (host : Host) :
    Alike (Beside Eq (World.Alike J)) Eq (settle (Overlay.settle (World.find? host) work))
      (settle (Overlay.settle (World.find? host) work)) := by
  refine alike_settle ?_
  rintro ⟨o, w⟩ ⟨_, w'⟩ ⟨rfl, hw⟩
  exact Overlay.uniform_settle (works o) (World.uniform_find? host o.target) hw

theorem alike_commit (host : Host) :
    Alike (Beside Eq (World.Alike J)) Eq (commit (World.find? host)) (commit (World.find? host)) :=
  alike_settle_of (fun o _ uniform => Overlay.alike_publish uniform o) host

theorem alike_rollback (host : Host) :
    Alike (Beside Eq (World.Alike J)) Eq (rollback (World.find? host))
      (rollback (World.find? host)) :=
  alike_settle_of (fun o _ uniform => Overlay.alike_releaseMissed uniform o) host

/-- A lookup through an overlay leaves the caches as if it had not been. -/
theorem unseen_get (host : Host) (ref : CacheRef) (k : CacheKey) (w' : World) :
    Keeps (fun s => World.Alike J s.2 w') (get (World.find? host) ref k) :=
  keeps_world_get (fun ref k => (World.steady_store host ref).unseen k w') ref k

end Overlays
end StatementCache
