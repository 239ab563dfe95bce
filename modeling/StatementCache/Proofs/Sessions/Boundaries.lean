import StatementCache.Proofs.Overlay.Guarded
import StatementCache.Proofs.Sessions.Application

/-! Writes and the ends of a unit of work, written out for a session with shared caches: what the
executor's own part does, and what becomes of the overlays. -/
namespace StatementCache

def Statement.flush (st : Statement) (os : Overlays) : Overlays :=
  match st.cache with
  | none => os
  | some ref =>
    if st.flushCacheRequired then ⟨os.bySerial.insert ref.serial (os.overlay ref).clear⟩ else os

theorem Statement.flush_clears {st : Statement} {ref : CacheRef} (bound : st.cache = some ref)
    (flushes : st.flushCacheRequired = true) (os : Overlays) :
    st.flush os = ⟨os.bySerial.insert ref.serial (os.overlay ref).clear⟩ := by
  simp only [flush, bound, flushes, if_true]

theorem Statement.flush_keeps {st : Statement} (keeps : st.flushCacheRequired = false)
    (os : Overlays) : st.flush os = os := by
  unfold flush
  split
  · rfl
  · rw [keeps, if_neg Bool.false_ne_true]

theorem Coordinator.flushIfRequired_apply (st : Statement) (r : Runner) (os : Overlays) (w : World) :
    flushIfRequired st (⟨r, os⟩, w) = ⟨.ok (), (⟨r, st.flush os⟩, w)⟩ := by
  unfold flushIfRequired Statement.flush
  cases st.cache with
  | none => rfl
  | some ref =>
    dsimp only
    split
    · rfl
    · rfl

/-- A select of the statement looks into the cache before it runs. -/
structure Statement.Consults (st : Statement) (ref : CacheRef) : Prop where
  bound : st.cache = some ref
  cached : st.useCache = true
  whole : ¬(st.kind = .callable ∧ st.hasOutParameters = true)

def Coordinator.fetch (ctx : Context) (st : Statement) (ref : CacheRef) (bounds : RowBounds)
    (key : CacheKey) (bound : BoundSql) : Run Rows := do
  match ← cachedRows ctx.host ref key with
  | some rows => pure rows
  | none =>
    let rows ← onRunner (Runner.queryWithKey ctx st bounds key bound)
    onOverlays (Overlays.put ref key (.rows rows))
    pure rows

theorem Coordinator.query_consults (ctx : Context) {st : Statement} {ref : CacheRef}
    (consults : st.Consults ref) {r : Runner} (isOpen : r.closed = false) (bounds : RowBounds)
    (key : CacheKey) (bound : BoundSql) (os : Overlays) (w : World) :
    queryWithKey ctx st bounds key bound (⟨r, os⟩, w) =
      fetch ctx st ref bounds key bound (⟨r, st.flush os⟩, w) := by
  have cached : ¬(!st.useCache) = true := by simp [consults.cached]
  simp only [queryWithKey, Action.bind_apply, ensureOpen, onRunner, Runner.ensureOpen_apply, isOpen,
    Bool.false_eq_true, if_false, consults.bound, flushIfRequired_apply, if_neg cached,
    ensureCacheable, if_neg consults.whole, Action.pure_apply]
  rfl

namespace Session

open StatementCache.Action

abbrev sharing (r : Runner) (os : Overlays) (dirty : Bool) : Session :=
  ⟨.coordinated ⟨r, os⟩, dirty⟩

theorem selectList_apply {ctx : Context} {id : String} {st : Statement}
    (known : ctx.find id = .ok st) (parameters : List Value) (bounds : RowBounds) (r : Runner)
    (os : Overlays) (dirty : Bool) (w : World) :
    selectList ctx id parameters bounds (sharing r os dirty, w) =
      let bound := st.source parameters
      let o := Coordinator.queryWithKey ctx st bounds (r.keyOf st bounds bound) bound (⟨r, os⟩, w)
      ⟨o.result, (sharing o.state.1.runner o.state.1.overlays dirty, o.state.2)⟩ := by
  simp only [selectList, bind_apply, ofExcept_apply, known]
  rfl

theorem update_apply {ctx : Context} {id : String} {st : Statement} (known : ctx.find id = .ok st)
    (parameters : List Value) (r : Runner) (os : Overlays) (dirty : Bool) (w : World) :
    update ctx id parameters (sharing r os dirty, w) =
      if r.closed then ⟨.error .executorClosed, (sharing r os true, w)⟩
      else
        let executed := ctx.database.runExecute (st.source parameters) w
        ⟨executed.result, (sharing { r with results := .empty } (st.flush os) true,
          executed.state)⟩ := by
  simp only [update, bind_apply, ofExcept_apply, known, onFirst_apply, modify_apply, onExecutor,
    Executor.update, Executor.either, Coordinator.update, Coordinator.ensureOpen,
    Coordinator.onRunner, Runner.ensureOpen_apply]
  cases closed : r.closed with
  | true => rfl
  | false =>
    simp only [Bool.false_eq_true, if_false, Coordinator.flushIfRequired_apply, Runner.update,
      bind_apply, Runner.ensureOpen_apply, closed, onFirst_apply, modify_apply, onSecond_apply,
      Runner.clearResults]

theorem state_update {ctx : Context} {id : String} {st : Statement}
    (known : ctx.find id = .ok st) (parameters : List Value) {r : Runner}
    (isOpen : r.closed = false) (os : Overlays) (dirty : Bool) (w : World) :
    (update ctx id parameters (sharing r os dirty, w)).state =
      (sharing { r with results := .empty } (st.flush os) true,
        (ctx.database.runExecute (st.source parameters) w).state) := by
  rw [update_apply known, isOpen, if_neg Bool.false_ne_true]

theorem commit_apply (ctx : Context) (force : Bool) (r : Runner) (os : Overlays) (dirty : Bool)
    (w : World) :
    commit ctx force (sharing r os dirty, w) =
      match Runner.commit ctx.database (dirty || force) (r, w) with
      | ⟨.error e, (r, w)⟩ => ⟨.error e, (sharing r os dirty, w)⟩
      | ⟨.ok (), (r, w)⟩ =>
        match Overlays.commit (World.find? ctx.host) (os, w) with
        | ⟨.error e, (os, w)⟩ => ⟨.error e, (sharing r os dirty, w)⟩
        | ⟨.ok (), (os, w)⟩ => ⟨.ok (), (sharing r os false, w)⟩ := by
  simp only [commit, bind_apply, get_apply, onExecutor, Executor.commit, Executor.either,
    Coordinator.commit, Coordinator.onRunner, Coordinator.onOverlays]
  rcases Runner.commit ctx.database (dirty || force) (r, w) with ⟨e | _, r', w'⟩
  · rfl
  · dsimp only
    rcases Overlays.commit (World.find? ctx.host) (os, w') with ⟨e | _, os', w''⟩
    · rfl
    · rfl

def Durable (ctx : Context) (force : Bool) (s : Session × World) : Prop :=
  (Runner.commit ctx.database (s.1.dirty || force) (s.1.executor.runner, s.2)).result = .ok ()

theorem world_commit_of_durable {ctx : Context} {force : Bool} {r : Runner} {os : Overlays}
    {dirty : Bool} {w : World} (durable : Durable ctx force (sharing r os dirty, w)) :
    (commit ctx force (sharing r os dirty, w)).state.2 =
      let committed := Runner.commit ctx.database (dirty || force) (r, w)
      (Overlays.commit (World.find? ctx.host) (os, committed.state.2)).state.2 := by
  have durable : (Runner.commit ctx.database (dirty || force) (r, w)).result = .ok () := durable
  rw [commit_apply]
  generalize Runner.commit ctx.database (dirty || force) (r, w) = o at durable ⊢
  obtain ⟨result, r', v⟩ := o
  cases durable
  dsimp only
  rcases Overlays.commit (World.find? ctx.host) (os, v) with ⟨e | _, os', v'⟩
  · rfl
  · rfl

theorem overlays_commit_of_refused {ctx : Context} {force : Bool} {r : Runner} {os : Overlays}
    {dirty : Bool} {w : World} (refused : ¬Durable ctx force (sharing r os dirty, w)) :
    (commit ctx force (sharing r os dirty, w)).state.1.overlays = os := by
  have refused : ¬(Runner.commit ctx.database (dirty || force) (r, w)).result = .ok () := refused
  rw [commit_apply]
  generalize Runner.commit ctx.database (dirty || force) (r, w) = o at refused ⊢
  obtain ⟨e | _, r', v⟩ := o
  · rfl
  · exact absurd rfl refused

theorem rollback_apply (ctx : Context) (force : Bool) (r : Runner) (os : Overlays) (dirty : Bool)
    (w : World) :
    rollback ctx force (sharing r os dirty, w) =
      let undone := Runner.rollback ctx.database (dirty || force) (r, w)
      let released := Overlays.rollback (World.find? ctx.host) (os, undone.state.2)
      match undone.result.bind fun _ => released.result with
      | .error e => ⟨.error e, (sharing undone.state.1 released.state.1 dirty, released.state.2)⟩
      | .ok () => ⟨.ok (), (sharing undone.state.1 released.state.1 false, released.state.2)⟩ := by
  simp only [rollback, bind_apply, get_apply, onExecutor, Executor.rollback, Executor.either,
    Coordinator.rollback, both, Coordinator.onRunner, Coordinator.onOverlays]
  rcases (Runner.rollback ctx.database (dirty || force) (r, w)).result.bind fun _ =>
    (Overlays.rollback (World.find? ctx.host)
      (os, (Runner.rollback ctx.database (dirty || force) (r, w)).state.2)).result with e | _
  · rfl
  · rfl

end Session
end StatementCache
