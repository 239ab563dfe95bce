import StatementCache.Proofs.Sessions.Custody

/-! All sessions in custody. A move is the operation of one session, and the others notice only
that more is reported and that the caches have changed. -/
namespace StatementCache.Application

open StatementCache.Action

variable {a : Application} {since : Nat → List Event} {floor : World} {B : Nat → Ledger}
  {P : Ledger} {s : Scene}

structure InCustody (a : Application) (since : Nat → List Event) (floor : World)
    (B : Nat → Ledger) (P : Ledger) (s : Scene) : Prop where
  onward : floor.Onward s.world
  shared : s.world.Holds (P s.world.log)
  sessions : ∀ i x, s.sessions[i]? = some x →
    a.Custody i (since i) floor (B i) P (x.executor, s.world)

structure Allows (a : Application) (since : Nat → List Event) (B : Nat → Ledger) (P : Ledger)
    (s : Scene) (m : Move) : Prop where
  opens : m = .opened → since s.sessions.length <+: s.world.log
  receives : ∀ i host call, m = .called i host call → call.Selects → (B i).Receives a i (since i)
  publishes : ∀ i host call, m = .called i host call → call.Publishes → (B i).Publishes P

theorem InCustody.recast {B' : Nat → Ledger} {P' : Ledger} (h : a.InCustody since floor B P s)
    (buffered : ∀ i (x : Session), s.sessions[i]? = some x → x.overlays.Holds (B' i s.world.log))
    (shared : s.world.Holds (P' s.world.log)) : a.InCustody since floor B' P' s :=
  ⟨h.onward, shared, fun i x there =>
    (h.sessions i x there).recast (buffered i x there) shared⟩

theorem InCustody.raise (h : a.InCustody since floor B P s) :
    a.InCustody since s.world B P s :=
  ⟨World.Onward.refl s.world, h.shared, fun i x there => (h.sessions i x there).raise⟩

theorem inCustody_opened (h : a.InCustody since floor B P s)
    (after : since s.sessions.length <+: s.world.log) :
    a.InCustody since floor B P (a.act s .opened) := by
  refine ⟨h.onward, h.shared, fun i x found => ?_⟩
  simp only [act, List.getElem?_append] at found ⊢
  split at found
  · exact h.sessions i x found
  · rename_i new
    have last : i = s.sessions.length := by
      obtain ⟨bound, -⟩ := List.getElem?_eq_some_iff.mp found
      simp only [List.length_singleton] at bound
      omega
    subst last
    rw [Nat.sub_self, List.getElem?_cons_zero] at found
    cases found
    exact Custody.opened after h.onward h.shared

section

variable (persists : ∀ i, (B i).Persists) (grows : P.Grows)

include persists grows

theorem custody_called {i : Nat} {x : Session} (h : a.InCustody since floor B P s)
    (found : s.sessions[i]? = some x) {host : Host} {call : Call}
    (allows : a.Allows since B P s (.called i host call)) :
    a.Custody i (since i) s.world (B i) P
      ((Session.perform (a.context i host) call (x, s.world)).state.1.executor,
        (Session.perform (a.context i host) call (x, s.world)).state.2) :=
  keeps_custody (persists i) grows call (allows.receives i host call rfl)
    (allows.publishes i host call rfl) (x, s.world) (h.sessions i x found).raise

theorem inCustody_act (h : a.InCustody since floor B P s) {m : Move}
    (allows : a.Allows since B P s m) : a.InCustody since floor B P (a.act s m) := by
  cases m with
  | opened => exact inCustody_opened h (allows.opens rfl)
  | called i host call =>
    cases found : s.sessions[i]? with
    | none => simpa only [act, found] using h
    | some x =>
      rw [act_called found]
      have done := custody_called persists grows h found allows
      refine ⟨h.onward.trans done.onward, done.shared, fun j y there => ?_⟩
      rw [List.getElem?_set] at there
      split at there
      · rename_i same
        subst same
        split at there
        · cases there
          exact { done with onward := h.onward.trans done.onward }
        · cases there
      · exact (h.sessions j y there).elsewhere (persists j) done.onward done.shared

theorem inCustody_publishing (h : a.InCustody since floor B P s) {i : Nat} {x : Session}
    (found : s.sessions[i]? = some x) {C : Ledger} (buffered : x.overlays.Holds (C s.world.log))
    (narrower : ∀ log j k e, C log j k e → B i log j k e) (kept : C.Persists)
    (published : C.Publishes P) (host : Host) {call : Call} (publishes : call.Publishes) :
    a.InCustody since floor B P (a.act s (.called i host call)) := by
  have own : Function.update B i C i = C := Function.update_self ..
  have others {l : Nat} (other : l ≠ i) : Function.update B i C l = B l :=
    Function.update_of_ne other ..
  have narrowed : a.InCustody since floor (Function.update B i C) P s := by
    refine h.recast (fun l y there => ?_) h.shared
    by_cases same : l = i
    · subst same
      cases there.symm.trans found
      rw [own]
      exact buffered
    · rw [others same]
      exact (h.sessions l y there).buffered
  have done : a.InCustody since floor (Function.update B i C) P
      (a.act s (.called i host call)) := by
    refine inCustody_act (fun l => ?_) grows narrowed
      ⟨(fun eq => by cases eq), fun l host' call' eq selects => ?_, fun l host' call' eq _ => ?_⟩
    · by_cases same : l = i
      · subst same
        rw [own]
        exact kept
      · rw [others same]
        exact persists l
    · cases eq
      exact absurd selects publishes.not_selects
    · cases eq
      rw [own]
      exact published
  refine done.recast (fun l y there => ?_) done.shared
  have held := (done.sessions l y there).buffered
  by_cases same : l = i
  · subst same
    rw [own] at held
    exact held.mono fun j k e => narrower _ j k e
  · rw [others same] at held
    exact held

/-- Custody lasts when every session may buffer what it obtains and publish what it buffers. -/
theorem inCustody_resume (receives : ∀ i, (B i).Receives a i [])
    (publishes : ∀ i, (B i).Publishes P) (h : a.InCustody (fun _ => []) floor B P s)
    (moves : List Move) : a.InCustody (fun _ => []) floor B P (a.resume s moves) := by
  refine resume_induction h (fun t m h => ?_) moves
  exact inCustody_act persists grows h
    ⟨fun _ => List.nil_prefix, fun i _ _ _ _ => receives i, fun i _ _ _ _ => publishes i⟩

theorem inCustody_run (receives : ∀ i, (B i).Receives a i [])
    (publishes : ∀ i, (B i).Publishes P) {w : World} (shared : w.Holds (P w.log))
    (moves : List Move) :
    a.InCustody (fun _ => []) w B P (a.run w moves) := by
  apply inCustody_resume persists grows receives publishes
  exact ⟨World.Onward.refl w, shared, fun _ _ there => by cases there⟩

end

end StatementCache.Application
