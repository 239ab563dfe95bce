import StatementCache.Proofs.Overlay.Settled
import StatementCache.Proofs.Sessions.Boundaries
import StatementCache.Proofs.Sessions.Plain
import StatementCache.Proofs.Sessions.Steps

/-! What each operation does to what is shared, over plain maps and for statements without row
mappers. -/
namespace StatementCache

open StatementCache.Action

/-- Nothing is put under any key, and nothing is taken away but what the overlays have missed. -/
def World.Released (os : Overlays) (before after : World) : Prop :=
  ∀ serial k, after.contents serial k = before.contents serial k ∨
    after.contents serial k = none ∧ ∃ o, os.bySerial.get? serial = some o ∧ k ∈ o.missed

theorem World.Released.of_eq {os : Overlays} {before after : World}
    (same : after.contents = before.contents) : World.Released os before after := by
  intro serial k
  rw [same]
  exact .inl rfl

namespace Overlays

variable {B : Nat → CacheKey → Entry → Prop} {os : Overlays} {w : World} {host : Host}

theorem released_rollback (hos : os.Holds B) (mapped : w.Mapped) (host : Host) :
    World.Released os w (rollback (World.find? host) (os, w)).state.2 := by
  intro serial k
  rw [(becomes_rollback hos mapped host).contents_eq]
  unfold settled
  cases found : Table.find serial os.bySerial.entries with
  | none => exact .inl rfl
  | some o =>
    dsimp only
    split
    · unfold Overlay.released
      split
      · rename_i missed
        exact .inr ⟨rfl, o, found, missed⟩
      · exact .inl rfl
    · exact .inl rfl

end Overlays

namespace Executor

variable {ctx : Context} {v w w' : World} {e e' : Executor}

structure Reading (v : World) (s : Executor × World) : Prop where
  isOpen : s.1.isClosed = false
  shape_eq : s.2.shape = v.shape
  contents_eq : s.2.contents = v.contents
  quiet : Quiet v.log s.2.log

theorem Reading.refl (isOpen : e.isClosed = false) : Reading w (e, w) :=
  ⟨isOpen, rfl, rfl, Quiet.refl w.log⟩

theorem Reading.ran (h : Reading v (e, w)) (done : Runner.Idle w (e'.runner, w')) :
    Reading v (e', w') := by
  refine ⟨done.isOpen, ?_, ?_, h.quiet.trans done.quiet⟩
  · exact (World.shape_eq_of_caches done.caches_eq).trans h.shape_eq
  · exact (World.contents_eq_of_caches done.caches_eq).trans h.contents_eq

theorem Reading.idle (h : Reading v (e, w)) : Runner.Idle w (e.runner, w) :=
  ⟨h.isOpen, rfl, Quiet.refl w.log⟩

abbrev Coordinated (v : World) (s : Coordinator × World) : Prop :=
  Reading v (.coordinated s.1, s.2)

theorem keeps_reading_run {α : Type} {m : Runner.Run α} (h : ∀ w, Keeps (Runner.Idle w) m) :
    Keeps (Coordinated v) (Coordinator.onRunner m) :=
  fun s hs => hs.ran (h s.2 (s.1.runner, s.2) hs.idle)

theorem keeps_reading_either {α : Type} {alone : Runner.Run α} {m : Coordinator.Run α}
    (single : ∀ w, Keeps (Runner.Idle w) alone) (several : Keeps (Coordinated v) m) :
    Keeps (Reading v) (either alone m) := by
  rintro ⟨e, w⟩ h
  cases e with
  | alone r => exact h.ran (single w (r, w) h.idle)
  | coordinated c => exact several (c, w) h

theorem keeps_reading_query (ctx : Context) (mapped : v.Mapped) {st : Statement}
    (plain : st.mapper = none) (parameters : List Value) (bounds : RowBounds) :
    Keeps (Reading v) (query ctx st parameters bounds) := by
  intro s h
  have run (key : CacheKey) (w : World) : Keeps (Runner.Idle w)
      (Runner.queryWithKey ctx st bounds key (st.source parameters)) :=
    Runner.keeps_idle_query plain bounds key _
  have several (key : CacheKey) : Keeps (Coordinated v)
      (Coordinator.queryWithKey ctx st bounds key (st.source parameters)) := by
    apply Coordinator.keeps_queryWithKey (keeps_reading_run (run key))
    · exact fun _ _ h => ⟨h.isOpen, h.shape_eq, h.contents_eq, h.quiet⟩
    · intro ref s h
      have became := Overlays.becomes_get (World.mapped_of_shape h.shape_eq mapped) ctx.host
        s.1.overlays ref key
      refine ⟨h.isOpen, became.shape_eq.trans h.shape_eq, became.contents_eq.trans h.contents_eq, ?_⟩
      rw [show (Coordinator.onOverlays (Overlays.get (World.find? ctx.host) ref key) s).state.2.log =
        s.2.log from became.log_eq]
      exact h.quiet
    · exact fun _ _ _ h => ⟨h.isOpen, h.shape_eq, h.contents_eq, h.quiet⟩
  exact keeps_reading_either (run _) (several (s.1.keyOf st bounds (st.source parameters))) s h

theorem keeps_reading_clearResults : Keeps (Reading v) clearResults :=
  keeps_reading_either (fun _ => Runner.keeps_idle_clearResults)
    (keeps_reading_run fun _ => Runner.keeps_idle_clearResults)

theorem update_open (ctx : Context) (w : World) (st : Statement) (parameters : List Value)
    (isOpen : e.isClosed = false) :
    let o := update ctx st parameters (e, w)
    o.state.1.isClosed = false ∧ o.state.2.contents = w.contents ∧
      o.state.2.log =
        w.log ++ [.execute (st.source parameters).sql (st.source parameters).parameters] := by
  have ran (r : Runner) (isOpen : r.closed = false) : Runner.update ctx.database st parameters (r, w) =
      ⟨(ctx.database.runExecute (st.source parameters) w).result, ({ r with results := .empty },
        (ctx.database.runExecute (st.source parameters) w).state)⟩ := by
    simp only [Runner.update, bind_apply, Runner.ensureOpen_apply, isOpen, Bool.false_eq_true,
      if_false, onFirst_apply, modify_apply, onSecond_apply, Runner.clearResults]
  cases e with
  | alone r =>
    simp only [update, either, ran r isOpen]
    exact ⟨isOpen, rfl, rfl⟩
  | coordinated c =>
    have opened : c.runner.closed = false := isOpen
    simp only [update, either, Coordinator.update, bind_apply, Coordinator.ensureOpen,
      Coordinator.onRunner, Runner.ensureOpen_apply, opened, Bool.false_eq_true, if_false,
      Coordinator.flushIfRequired_apply, ran c.runner opened]
    exact ⟨rfl, rfl, rfl⟩

theorem commit_open {B : Nat → CacheKey → Entry → Prop} (ctx : Context)
    (isOpen : e.isClosed = false) (filed : e.overlays.Holds B) (mapped : w.Mapped) (required : Bool) :
    let o := commit ctx required (e, w)
    o.state.1.isClosed = false ∧ Quiet w.log o.state.2.log := by
  cases e with
  | alone r =>
    have done := (Runner.ends_commit ctx.database required r w).idle ⟨isOpen, rfl, Quiet.refl _⟩
    exact ⟨done.isOpen, done.quiet⟩
  | coordinated c =>
    have done := (Runner.ends_commit ctx.database required c.runner w).idle
      ⟨isOpen, rfl, Quiet.refl _⟩
    simp only [commit, either, Coordinator.commit, bind_apply, Coordinator.onRunner,
      Coordinator.onOverlays]
    generalize Runner.commit ctx.database required (c.runner, w) = o at done ⊢
    obtain ⟨refused | _, r', w'⟩ := o
    · exact ⟨done.isOpen, done.quiet⟩
    · have mapped' := World.mapped_of_shape (World.shape_eq_of_caches done.caches_eq) mapped
      have became := Overlays.becomes_commit filed mapped' ctx.host
      have log : (Overlays.commit (World.find? ctx.host) (c.overlays, w')).state.2.log = w'.log :=
        became.log_eq
      refine ⟨done.isOpen, ?_⟩
      dsimp only
      rw [log]
      exact done.quiet

theorem commit_refused (ctx : Context) (isOpen : e.isClosed = false) {f : Fault}
    (refused : (ctx.database.runBoundary .commit w).result = .error f) :
    let o := commit ctx true (e, w)
    o.result = .error f ∧ o.state.1.overlays = e.overlays ∧ o.state.2.contents = w.contents := by
  have unchanged : (ctx.database.runBoundary .commit w).state.contents = w.contents :=
    World.contents_eq_of_caches (ctx.database.caches_runBoundary .commit w)
  have ran (r : Runner) (isOpen : r.closed = false) : Runner.commit ctx.database true (r, w) =
      ⟨.error f, ({ r with results := .empty }, (ctx.database.runBoundary .commit w).state)⟩ := by
    rw [Runner.commit_apply, isOpen, if_neg Bool.false_ne_true]
    simp only [if_true, refused]
  cases e with
  | alone r =>
    simp only [commit, either, ran r isOpen]
    exact ⟨trivial, rfl, unchanged⟩
  | coordinated c =>
    have opened : c.runner.closed = false := isOpen
    simp only [commit, either, Coordinator.commit, bind_apply, Coordinator.onRunner,
      ran c.runner opened]
    exact ⟨trivial, rfl, unchanged⟩

theorem rollback_open {B : Nat → CacheKey → Entry → Prop} (ctx : Context)
    (isOpen : e.isClosed = false) (filed : e.overlays.Holds B) (mapped : w.Mapped) (required : Bool) :
    let o := rollback ctx required (e, w)
    o.state.1.isClosed = false ∧ Quiet w.log o.state.2.log ∧
      World.Released e.overlays w o.state.2 := by
  cases e with
  | alone r =>
    have done := (Runner.ends_rollback ctx.database required r w).idle
      ⟨isOpen, rfl, Quiet.refl _⟩
    exact ⟨done.isOpen, done.quiet, .of_eq (World.contents_eq_of_caches done.caches_eq)⟩
  | coordinated c =>
    have done := (Runner.ends_rollback ctx.database required c.runner w).idle
      ⟨isOpen, rfl, Quiet.refl _⟩
    simp only [rollback, either, Coordinator.rollback, both, Coordinator.onRunner,
      Coordinator.onOverlays]
    generalize Runner.rollback ctx.database required (c.runner, w) = o at done ⊢
    obtain ⟨result, r', w'⟩ := o
    have same : w'.contents = w.contents := World.contents_eq_of_caches done.caches_eq
    have mapped' := World.mapped_of_shape (World.shape_eq_of_caches done.caches_eq) mapped
    have became := Overlays.becomes_rollback filed mapped' ctx.host
    have released := Overlays.released_rollback filed mapped' ctx.host
    have log : (Overlays.rollback (World.find? ctx.host) (c.overlays, w')).state.2.log = w'.log :=
      became.log_eq
    refine ⟨done.isOpen, ?_, ?_⟩
    · dsimp only
      rw [log]
      exact done.quiet
    · unfold World.Released at released ⊢
      rw [same] at released
      exact released

theorem close_open {B : Nat → CacheKey → Entry → Prop} (ctx : Context) (isOpen : e.isClosed = false)
    (filed : e.overlays.Holds B) (mapped : w.Mapped) (required : Bool) :
    let o := close ctx required (e, w)
    o.state.1.isClosed = true ∧ o.state.1.overlays = .empty ∧
      (required = true → World.Released e.overlays w o.state.2) := by
  have ends (required : Bool) (r : Runner) (w : World) (isOpen : r.closed = false) :
      (Runner.close ctx.database required (r, w)).state.1.closed = true := by
    rw [Runner.close_apply, isOpen, if_neg Bool.false_ne_true]
  cases e with
  | alone r =>
    have same := Runner.caches_close ctx.database required r w
    exact ⟨ends required r w isOpen, rfl, fun _ => .of_eq (World.contents_eq_of_caches same)⟩
  | coordinated c =>
    cases required with
    | false => exact ⟨ends false c.runner _ isOpen, rfl, fun required => by cases required⟩
    | true =>
      refine ⟨ends true c.runner w isOpen, rfl, fun _ => ?_⟩
      have same := Runner.caches_close ctx.database true c.runner w
      have released := Overlays.released_rollback filed
        (World.mapped_of_shape (World.shape_eq_of_caches same) mapped) ctx.host
      unfold World.Released at released ⊢
      rw [World.contents_eq_of_caches same] at released
      exact released

structure Ended (e : Executor) : Prop where
  isClosed : e.isClosed = true
  overlays_eq : e.overlays = .empty

namespace Ended

theorem either {α : Type} {alone : Runner.Run α} {m : Coordinator.Run α} {result : Except Fault α}
    (h : e.Ended) (single : ∀ r, r.closed = true → alone (r, w) = ⟨result, (r, w)⟩)
    (several : ∀ r, r.closed = true → m (⟨r, .empty⟩, w) = ⟨result, (⟨r, .empty⟩, w)⟩) :
    Executor.either alone m (e, w) = ⟨result, (e, w)⟩ := by
  obtain ⟨closed, none⟩ := h
  cases e with
  | alone r => simp only [Executor.either, single r closed]
  | coordinated c =>
    obtain ⟨r, os⟩ := c
    have none : os = .empty := none
    subst none
    simp only [Executor.either, several r closed]

theorem queryWithKey (h : e.Ended) (ctx : Context) (st : Statement) (bounds : RowBounds)
    (key : CacheKey) (bound : BoundSql) (w : World) :
    queryWithKey ctx st bounds key bound (e, w) = ⟨.error .executorClosed, (e, w)⟩ := by
  apply h.either
  · intro r closed
    simp only [Runner.queryWithKey, Runner.queryWithin_eq, Runner.queryVia_apply, closed, if_true]
  · intro r closed
    simp only [Coordinator.queryWithKey, bind_apply, Coordinator.ensureOpen, Coordinator.onRunner,
      Runner.ensureOpen_apply, closed, if_true]

theorem query (h : e.Ended) (ctx : Context) (st : Statement) (parameters : List Value)
    (bounds : RowBounds) (w : World) :
    query ctx st parameters bounds (e, w) = ⟨.error .executorClosed, (e, w)⟩ :=
  h.queryWithKey ctx st bounds _ _ w

theorem update (h : e.Ended) (ctx : Context) (st : Statement) (parameters : List Value)
    (w : World) : update ctx st parameters (e, w) = ⟨.error .executorClosed, (e, w)⟩ := by
  apply h.either
  · intro r closed
    simp only [Runner.update, bind_apply, Runner.ensureOpen_apply, closed, if_true]
  · intro r closed
    simp only [Coordinator.update, bind_apply, Coordinator.ensureOpen, Coordinator.onRunner,
      Runner.ensureOpen_apply, closed, if_true]

theorem commit (h : e.Ended) (ctx : Context) (required : Bool) (w : World) :
    commit ctx required (e, w) = ⟨.error .executorClosed, (e, w)⟩ := by
  apply h.either
  · intro r closed
    simp only [Runner.commit_apply, closed, if_true]
  · intro r closed
    simp only [Coordinator.commit, bind_apply, Coordinator.onRunner, Runner.commit_apply, closed,
      if_true]

theorem rollback (h : e.Ended) (ctx : Context) (required : Bool) (w : World) :
    rollback ctx required (e, w) = ⟨.ok (), (e, w)⟩ := by
  apply h.either
  · intro r closed
    simp only [Runner.rollback_apply, closed, if_true]
  · intro r closed
    simp only [Coordinator.rollback, both, Coordinator.onRunner, Coordinator.onOverlays,
      Runner.rollback_apply, closed, if_true]
    rfl

theorem clearResults (h : e.Ended) (w : World) : clearResults (e, w) = ⟨.ok (), (e, w)⟩ := by
  apply h.either
  · intro r closed
    simp only [onFirst_apply, modify_apply, Runner.clearResults, closed, if_true]
  · intro r closed
    simp only [Coordinator.onRunner, onFirst_apply, modify_apply, Runner.clearResults, closed,
      if_true]

theorem close (h : e.Ended) (ctx : Context) (required : Bool) (w : World) :
    close ctx required (e, w) = ⟨.ok (), (e, w)⟩ := by
  apply h.either
  · intro r closed
    simp only [Runner.close_apply, closed, if_true]
  · intro r closed
    cases required with
    | true =>
      simp only [Coordinator.close, if_true, both, Coordinator.onRunner, Coordinator.onOverlays,
        Runner.close_apply, closed]
      rfl
    | false =>
      simp only [Coordinator.close, Bool.false_eq_true, if_false, bind_apply, attempt_apply,
        Coordinator.onRunner, Coordinator.onOverlays, Runner.close_apply, closed, if_true]
      rfl

end Ended

structure Spent (v : World) (s : Executor × World) : Prop extends s.1.Ended where
  world_eq : s.2 = v

theorem Spent.of_unchanged {α : Type} {m : Run α} {result : Except Fault α}
    (h : ∀ e, Ended e → ∀ w, m (e, w) = ⟨result, (e, w)⟩) : Keeps (Spent v) m := by
  rintro ⟨e, w⟩ spent
  rw [h e spent.toEnded w]
  exact spent

end Executor

namespace Session

variable {ctx : Context} {v w : World} {x : Session}

theorem keeps_spent_perform (ctx : Context) (call : Call) :
    Keeps (fun s : Session × World => Executor.Spent v (s.1.executor, s.2)) (perform ctx call) := by
  apply keeps_perform
  · exact fun _ parameters bounds st _ _ => .of_unchanged fun _ h => h.query ctx st parameters bounds
  · exact fun _ parameters st _ _ => .of_unchanged fun _ h => h.update ctx st parameters
  · exact fun _ required _ => .of_unchanged fun _ h => h.commit ctx required
  · exact fun _ required _ => .of_unchanged fun _ h => h.rollback ctx required
  · exact fun _ => .of_unchanged fun _ h => h.clearResults
  · exact fun required _ => .of_unchanged fun _ h => h.close ctx required

theorem commit_eq (ctx : Context) (force : Bool) (x : Session) (w : World) :
    commit ctx force (x, w) =
      let o := Executor.commit ctx (x.dirty || force) (x.executor, w)
      ⟨o.result, (⟨o.state.1, x.dirty && !o.result.isOk⟩, o.state.2)⟩ := by
  simp only [commit, bind_apply, get_apply, onExecutor]
  generalize Executor.commit ctx (x.dirty || force) (x.executor, w) = o
  obtain ⟨e | _, e', w'⟩ := o
  · simp [Except.isOk, Except.toBool]
  · simp [Except.isOk, Except.toBool, markClean]

theorem rollback_eq (ctx : Context) (force : Bool) (x : Session) (w : World) :
    rollback ctx force (x, w) =
      let o := Executor.rollback ctx (x.dirty || force) (x.executor, w)
      ⟨o.result, (⟨o.state.1, x.dirty && !o.result.isOk⟩, o.state.2)⟩ := by
  simp only [rollback, bind_apply, get_apply, onExecutor]
  generalize Executor.rollback ctx (x.dirty || force) (x.executor, w) = o
  obtain ⟨e | _, e', w'⟩ := o
  · simp [Except.isOk, Except.toBool]
  · simp [Except.isOk, Except.toBool, markClean]

theorem state_select_of_known {id : String} {st : Statement} (known : ctx.find id = .ok st)
    (parameters : List Value) (bounds : RowBounds) (x : Session) (w : World) :
    (perform ctx (.select id parameters bounds) (x, w)).state =
      let o := Executor.query ctx st parameters bounds (x.executor, w)
      (⟨o.state.1, x.dirty⟩, o.state.2) := by
  rw [perform, state_discard]
  simp only [selectList, bind_apply, ofExcept_apply, known]
  rfl

theorem state_select_of_unknown {id : String} {f : Fault} (unknown : ctx.find id = .error f)
    (parameters : List Value) (bounds : RowBounds) (x : Session) (w : World) :
    (perform ctx (.select id parameters bounds) (x, w)).state = (x, w) := by
  rw [perform, state_discard]
  simp only [selectList, bind_apply, ofExcept_apply, unknown]

theorem state_update_of_known {id : String} {st : Statement} (known : ctx.find id = .ok st)
    (parameters : List Value) (x : Session) (w : World) :
    (perform ctx (.update id parameters) (x, w)).state =
      let o := Executor.update ctx st parameters (x.executor, w)
      (⟨o.state.1, true⟩, o.state.2) := by
  rw [perform, state_discard]
  simp only [update, bind_apply, ofExcept_apply, known]
  rfl

theorem state_update_of_unknown {id : String} {f : Fault} (unknown : ctx.find id = .error f)
    (parameters : List Value) (x : Session) (w : World) :
    (perform ctx (.update id parameters) (x, w)).state = (x, w) := by
  rw [perform, state_discard]
  simp only [update, bind_apply, ofExcept_apply, unknown]

end Session
end StatementCache
