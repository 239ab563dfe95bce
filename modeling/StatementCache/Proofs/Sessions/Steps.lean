import StatementCache.Proofs.Sessions.Application
import StatementCache.Proofs.Triple

/-! What an operation of a session keeps, from what its parts keep: the part that runs statements,
the overlays, and the shared caches behind them. -/
namespace StatementCache

open StatementCache.Action

namespace Coordinator

variable {I : Coordinator × World → Prop} {ctx : Context} {st : Statement}

theorem keeps_ensureOpen : Keeps I ensureOpen := by
  rintro ⟨c, w⟩ h
  simp only [ensureOpen, onRunner, Runner.ensureOpen_apply]
  split
  · exact h
  · exact h

theorem keeps_flushIfRequired (clear : ∀ ref, Keeps I (onOverlays (Overlays.clear ref))) :
    Keeps I (flushIfRequired st) := by
  unfold flushIfRequired
  split
  · exact Keeps.pure ()
  · rename_i ref bound
    split
    · exact clear ref
    · exact Keeps.pure ()

theorem keeps_ensureCacheable : Keeps I (ensureCacheable st) := by
  unfold ensureCacheable
  split
  · exact Keeps.fail _
  · exact Keeps.pure ()

/-- A query answers what was run for it, or what a lookup found. What was run is buffered before
it is handed out. -/
theorem meets_queryWithKey {Ran Found : Rows → Coordinator × World → Prop} {bounds : RowBounds}
    {key : CacheKey} {bound : BoundSql}
    (run : Meets I (onRunner (Runner.queryWithKey ctx st bounds key bound)) fun r s =>
      I s ∧ ∀ rows, r = .ok rows → Ran rows s)
    (clear : ∀ ref, Keeps I (onOverlays (Overlays.clear ref)))
    (get : ∀ ref, st.cache = some ref →
      Meets I (onOverlays (Overlays.get (World.find? ctx.host) ref key)) fun r s =>
        I s ∧ ∀ rows, r = .ok (some (.rows rows)) → Found rows s)
    (put : ∀ ref rows, st.cache = some ref →
      Keeps (fun s => I s ∧ Ran rows s) (onOverlays (Overlays.put ref key (.rows rows)))) :
    Meets I (queryWithKey ctx st bounds key bound) fun r s =>
      I s ∧ ∀ rows, r = .ok rows → Ran rows s ∨ Found rows s := by
  have ran : Meets I (onRunner (Runner.queryWithKey ctx st bounds key bound)) fun r s =>
      I s ∧ ∀ rows, r = .ok rows → Ran rows s ∨ Found rows s :=
    run.mono (fun _ h => h) fun _ _ h => ⟨h.1, fun rows eq => .inl (h.2 rows eq)⟩
  have buffered (ref : CacheRef) (bound_ref : st.cache = some ref) :
      Meets I (do
        let rows ← onRunner (Runner.queryWithKey ctx st bounds key bound)
        onOverlays (Overlays.put ref key (.rows rows))
        pure rows) fun r s => I s ∧ ∀ rows, r = .ok rows → Ran rows s ∨ Found rows s := by
    refine Meets.bind run (fun rows => ?_) fun e s h => ⟨h.1, fun _ eq => by cases eq⟩
    refine Meets.bind (Q := fun _ s => I s ∧ Ran rows s) (fun s h => ?_) (fun _ s h => ?_)
      fun e s h => ⟨h.1, fun _ eq => by cases eq⟩
    · exact put ref rows bound_ref s ⟨h.1, h.2 rows rfl⟩
    · exact ⟨h.1, fun _ eq => by cases eq; exact .inl h.2⟩
  unfold queryWithKey
  refine Meets.bind keeps_ensureOpen (fun _ => ?_) fun e s h => ⟨h, fun _ eq => by cases eq⟩
  split
  · exact ran
  · rename_i ref bound_ref
    refine Meets.bind (keeps_flushIfRequired clear) (fun _ => ?_)
      fun e s h => ⟨h, fun _ eq => by cases eq⟩
    split
    · exact ran
    · refine Meets.bind keeps_ensureCacheable (fun _ => ?_)
        fun e s h => ⟨h, fun _ eq => by cases eq⟩
      refine Meets.bind (Q := fun r s => I s ∧ ∀ rows, r = .ok (some rows) → Found rows s)
        ?_ (fun found => ?_) fun e s h => ⟨h.1, fun _ eq => by cases eq⟩
      · refine Meets.bind (get ref bound_ref) (fun found => ?_)
          fun e s h => ⟨h.1, fun _ eq => by cases eq⟩
        split
        · exact fun s h => ⟨h.1, fun _ eq => by cases eq⟩
        · exact fun s h => ⟨h.1, fun _ eq => by cases eq; exact h.2 _ rfl⟩
        · exact fun s h => ⟨h.1, fun _ eq => by cases eq⟩
      · cases found with
        | none => exact (buffered ref bound_ref).mono (fun _ h => h.1) fun _ _ h => h
        | some rows =>
          refine fun s h => ⟨h.1, fun _ eq => ?_⟩
          cases eq
          exact .inr (h.2 rows rfl)

theorem keeps_queryWithKey {bounds : RowBounds} {key : CacheKey} {bound : BoundSql}
    (run : Keeps I (onRunner (Runner.queryWithKey ctx st bounds key bound)))
    (clear : ∀ ref, Keeps I (onOverlays (Overlays.clear ref)))
    (get : ∀ ref, Keeps I (onOverlays (Overlays.get (World.find? ctx.host) ref key)))
    (put : ∀ ref rows, Keeps I (onOverlays (Overlays.put ref key (.rows rows)))) :
    Keeps I (queryWithKey ctx st bounds key bound) := by
  let any (_ : Rows) (_ : Coordinator × World) : Prop := True
  have meets : Meets I (queryWithKey ctx st bounds key bound) fun r s =>
      I s ∧ ∀ rows, r = .ok rows → any rows s ∨ any rows s := by
    refine meets_queryWithKey ?_ clear ?_ ?_
    · exact fun s h => ⟨run s h, fun _ _ => trivial⟩
    · exact fun ref _ s h => ⟨get ref s h, fun _ _ => trivial⟩
    · exact fun ref rows _ s h => ⟨put ref rows s h.1, trivial⟩
  exact fun s h => (meets s h).1

theorem keeps_update {parameters : List Value}
    (clear : ∀ ref, Keeps I (onOverlays (Overlays.clear ref)))
    (run : Keeps I (onRunner (Runner.update ctx.database st parameters))) :
    Keeps I (update ctx st parameters) :=
  keeps_ensureOpen.bind fun _ => (keeps_flushIfRequired clear).bind fun _ => run

end Coordinator

namespace Session

variable {I : Executor × World → Prop} {ctx : Context} {α : Type}

theorem keeps_onExecutor {m : Executor.Run α} (h : Keeps I m) :
    Keeps (fun s : Session × World => I (s.1.executor, s.2)) (onExecutor m) :=
  fun s hs => h (s.1.executor, s.2) hs

theorem keeps_markClean : Keeps (fun s : Session × World => I (s.1.executor, s.2)) markClean :=
  fun _ hs => hs

theorem keeps_perform (call : Call)
    (select : ∀ id parameters bounds st, call = .select id parameters bounds →
      ctx.find id = .ok st → Keeps I (Executor.query ctx st parameters bounds))
    (update : ∀ id parameters st, call = .update id parameters → ctx.find id = .ok st →
      Keeps I (Executor.update ctx st parameters))
    (commit : ∀ force required, call = .commit force → Keeps I (Executor.commit ctx required))
    (rollback : ∀ force required, call = .rollback force → Keeps I (Executor.rollback ctx required))
    (clearResults : call = .clearCache → Keeps I Executor.clearResults)
    (close : ∀ required, call = .close → Keeps I (Executor.close ctx required)) :
    Keeps (fun s : Session × World => I (s.1.executor, s.2)) (perform ctx call) := by
  cases call with
  | select id parameters bounds =>
    refine Keeps.discard fun s hs => ?_
    simp only [selectList, bind_apply, ofExcept_apply]
    cases found : ctx.find id with
    | error e => exact hs
    | ok st => exact keeps_onExecutor (select id parameters bounds st rfl found) s hs
  | update id parameters =>
    refine Keeps.discard fun s hs => ?_
    simp only [Session.update, bind_apply, ofExcept_apply]
    cases found : ctx.find id with
    | error e => exact hs
    | ok st => exact keeps_onExecutor (update id parameters st rfl found) (_, s.2) hs
  | commit force =>
    refine Keeps.get.bind fun s => ?_
    exact (keeps_onExecutor (commit force _ rfl)).bind fun _ => keeps_markClean
  | rollback force =>
    refine Keeps.get.bind fun s => ?_
    exact (keeps_onExecutor (rollback force _ rfl)).bind fun _ => keeps_markClean
  | clearCache => exact keeps_onExecutor (clearResults rfl)
  | close =>
    refine Keeps.get.bind fun s => ?_
    refine (keeps_onExecutor (close _ rfl)).attempt.bind fun _ => ?_
    exact keeps_markClean.bind fun _ => Keeps.ofExcept _

end Session
end StatementCache
