import StatementCache.Proofs.Contents.Growth
import StatementCache.Proofs.Nesting.Tasks
import StatementCache.Proofs.Overlay.Guarded

/-! What an executor leaves alone. While statements run, and row mappers inside them, only the
executor's own bookkeeping changes, queries, writes and the ends of a unit of work are reported, and
slots are handed out. Shared caches report their operations. -/
namespace StatementCache

open StatementCache.Action

def Event.ofStatement : Event → Bool
  | .query _ _ | .execute _ _ | .commit | .rollback => true
  | .put _ | .get | .remove | .clear | .tag _ | .close => false

theorem Boundary.ofStatement_event {b : Boundary} (h : b ≠ .close) :
    b.event.ofStatement = true := by
  cases b with
  | close => exact absurd rfl h
  | _ => rfl

namespace Runner

@[simp] theorem closed_clearResults (r : Runner) : r.clearResults.closed = r.closed := by
  unfold clearResults
  split
  · rfl
  · rfl

@[simp] theorem closed_enter (st : Statement) (r : Runner) : (r.enter st).closed = r.closed := by
  simp only [enter]
  split
  · exact r.closed_clearResults
  · rfl

structure Framed (I : Runner × World → Prop) : Prop where
  runner : ∀ {r r' : Runner} {w : World}, r'.closed = r.closed → I (r, w) → I (r', w)
  report : ∀ {r : Runner} {w : World} (e : Event), e.ofStatement = true → I (r, w) →
    I (r, w.report e)
  slots : ∀ {r : Runner} {w : World} (slots : List (Option Rows)) (kept : List NestedValue),
    I (r, w) → I (r, { w with slots := slots, kept := kept })

namespace Framed

variable {I : Runner × World → Prop} {ctx : Context}

theorem ensureOpen : Keeps I ensureOpen := by
  rintro ⟨r, w⟩ h
  rw [ensureOpen_apply]
  split
  · exact h
  · exact h

variable (frame : Framed I)
include frame

theorem modifies {f : Runner → Runner} (same : ∀ r, (f r).closed = r.closed) :
    Keeps I (onFirst (modify f) : Run Unit) := fun s h => frame.runner (same s.1) h

theorem clearResults : Keeps I (onFirst (modify Runner.clearResults) : Run Unit) :=
  frame.modifies Runner.closed_clearResults

theorem fillDeferred {r : Runner} (results : Results) (waiting : List (CacheKey × Slot)) {w : World}
    (h : I (r, w)) : I (r, Runner.fillDeferred results waiting w) := by
  induction waiting generalizing w with
  | nil => exact h
  | cons entry waiting ih =>
    simp only [Runner.fillDeferred, List.foldl_cons] at ih ⊢
    split
    · exact ih (frame.slots _ w.kept h)
    · exact ih h

theorem finish (succeeded : Bool) : Keeps I (finish succeeded) := by
  rintro ⟨r, w⟩ h
  simp only [Runner.finish, modify_apply]
  cases succeeded with
  | false => exact frame.runner (r := r) rfl h
  | true => exact frame.runner (r := r) rfl (frame.fillDeferred r.results r.deferred h)

theorem update (db : Database) (st : Statement) (parameters : List Value) :
    Keeps I (update db st parameters) :=
  ensureOpen.bind fun _ => frame.clearResults.bind fun _ _ h => frame.report _ rfl h

theorem boundary (db : Database) {b : Boundary} (other : b ≠ .close) :
    Keeps I (onSecond (db.runBoundary b) : Run Unit) := by
  rintro ⟨r, w⟩ h
  rw [onSecond_apply, Database.runBoundary]
  cases db.boundary b with
  | none => exact h
  | some answer => exact frame.report _ (Boundary.ofStatement_event other) h

theorem commit (db : Database) (required : Bool) : Keeps I (commit db required) := by
  refine ensureOpen.bind fun _ => frame.clearResults.bind fun _ => ?_
  split
  · exact frame.boundary db (by decide)
  · exact Keeps.pure ()

theorem rollback (db : Database) (required : Bool) : Keeps I (rollback db required) := by
  refine Keeps.get.bind fun s => ?_
  split
  · refine frame.clearResults.bind fun _ => ?_
    split
    · exact frame.boundary db (by decide)
    · exact Keeps.pure ()
  · exact Keeps.pure ()

theorem defer (key : CacheKey) (slot : Slot) : Keeps I (defer key slot) := by
  refine ensureOpen.bind fun _ => Keeps.get.bind fun s => ?_
  split
  · exact fun s h => frame.slots _ s.2.kept h
  · exact frame.modifies fun _ => rfl

theorem select (db : Database) {hydrate : RowMapper → Rows → Run Rows}
    (work : ∀ mapper rows, Keeps I (hydrate mapper rows)) (st : Statement) (bounds : RowBounds)
    (bound : BoundSql) : Keeps I (select db hydrate st bounds bound) := by
  have asked : Keeps I (onSecond (db.runQuery bound) : Run Rows) :=
    fun _ h => frame.report _ rfl h
  refine asked.bind fun rows => ?_
  cases st.mapper with
  | none => exact Keeps.pure _
  | some mapper => exact work mapper _

theorem lookup (db : Database) {hydrate : RowMapper → Rows → Run Rows}
    (work : ∀ mapper rows, Keeps I (hydrate mapper rows)) (st : Statement) (bounds : RowBounds)
    (key : CacheKey) (bound : BoundSql) : Keeps I (lookup db hydrate st bounds key bound) := by
  refine Keeps.get.bind fun s => ?_
  split
  · exact Keeps.pure _
  · exact Keeps.fail _
  · refine Keeps.bind (frame.modifies fun _ => rfl) fun _ => ?_
    refine (frame.select db work st bounds bound).attempt.bind fun result => ?_
    cases result with
    | ok rows => exact Keeps.bind (frame.modifies fun _ => rfl) fun _ => Keeps.pure _
    | error e => exact Keeps.bind (frame.modifies fun _ => rfl) fun _ => Keeps.fail _

theorem queryVia (db : Database) {hydrate : RowMapper → Rows → Run Rows}
    (work : ∀ mapper rows, Keeps I (hydrate mapper rows)) (st : Statement) (bounds : RowBounds)
    (key : CacheKey) (bound : BoundSql) : Keeps I (queryVia db hydrate st bounds key bound) := by
  rintro ⟨r, w⟩ h
  rw [queryVia_apply]
  split
  · exact h
  · have entered : I (r.enter st, w) := frame.runner (closed_enter st r) h
    have looked := frame.lookup db work st bounds key bound _ entered
    generalize Runner.lookup db hydrate st bounds key bound (r.enter st, w) = o at looked ⊢
    have left : I (o.state.1.leave, o.state.2) := frame.runner (r := o.state.1) rfl looked
    dsimp only
    split
    · exact frame.finish _ _ left
    · exact left

variable {query : Statement → RowBounds → CacheKey → BoundSql → Run Rows}
  (asks : ∀ st bounds key bound, Keeps I (query st bounds key bound))
include asks

theorem loadVia (st : Statement) (parameters : List Value) :
    Keeps I (loadVia query st parameters) := by
  refine Keeps.get.bind fun s => ?_
  have slot : Keeps I (onSecond (total World.newSlot) : Run Slot) :=
    fun s h => frame.slots _ s.2.kept h
  dsimp only
  split
  · exact slot.bind fun slot => (frame.defer _ slot).bind fun _ => Keeps.pure _
  · exact (asks st .default _ _).bind fun rows => Keeps.pure _

theorem hydrateVia (work : Hydration) : Keeps I (hydrateVia ctx query work) := by
  have replied {α : Type} {m : Run α} (h : Keeps I m) : Keeps I (Runner.reply m) := by
    refine h.attempt.bind fun r => ?_
    split
    · exact Keeps.fail _
    · exact Keeps.pure _
  have called {α : Type} (id : String) (m : Statement → Run α) (h : ∀ st, Keeps I (m st)) :
      Keeps I (Runner.reply do
        let st ← Action.ofExcept (ctx.find id)
        m st) :=
    replied ((Keeps.ofExcept (ctx.find id)).bind h)
  induction work with
  | done rows => exact Keeps.pure rows
  | failed e => exact Keeps.fail e
  | find id next ih => exact ih _
  | load id parameters next ih =>
    exact (called id _ fun st => frame.loadVia asks st parameters).bind ih
  | query id parameters bounds next ih =>
    exact (called id _ fun st => Keeps.get.bind fun s => asks st bounds _ _).bind ih
  | cached id parameters bounds next ih =>
    exact (called id _ fun st => Keeps.get.bind fun s => Keeps.pure _).bind ih
  | update id parameters next ih =>
    exact (called id _ fun st => frame.update ctx.database st parameters).bind ih
  | commit required next ih => exact (replied (frame.commit ctx.database required)).bind ih
  | rollback required next ih => exact (replied (frame.rollback ctx.database required)).bind ih
  | clear next ih => exact frame.clearResults.bind fun _ => ih
  | keep value next ih =>
    exact Keeps.bind (fun s h => frame.slots s.2.slots (s.2.kept ++ [value]) h) fun _ => ih

omit asks

theorem queryWithin (nesting : Nat) (st : Statement) (bounds : RowBounds) (key : CacheKey)
    (bound : BoundSql) : Keeps I (queryWithin ctx nesting st bounds key bound) := by
  induction nesting generalizing st bounds key bound with
  | zero =>
    rw [queryWithin_eq]
    exact frame.queryVia _ (fun _ _ => Keeps.fail _) st bounds key bound
  | succ nesting ih =>
    rw [queryWithin_eq]
    exact frame.queryVia _ (fun mapper rows => frame.hydrateVia ih (mapper rows)) st bounds key
      bound

theorem queryWithKey (st : Statement) (bounds : RowBounds) (key : CacheKey) (bound : BoundSql) :
    Keeps I (queryWithKey ctx st bounds key bound) :=
  frame.queryWithin ctx.nesting st bounds key bound

end Framed
end Runner

def Task.closes : Task → Bool
  | .close _ => true
  | .query _ _ _ _ | .load _ _ | .update _ _ | .commit _ | .rollback _ | .clear => false

namespace Executor

variable {I : Runner × World → Prop} {ctx : Context}

theorem keeps_beside {α : Type} {m : Action (Overlays × World) α}
    (h : ∀ r, Keeps (fun s => I (r, s.2)) m) :
    Keeps (fun s => I (s.1.runner, s.2)) (Coordinator.onOverlays m) :=
  fun s hs => h s.1.runner (s.1.overlays, s.2) hs

variable (frame : Runner.Framed I)
  (caches : ∀ r ref, (World.store ctx.host ref).Keeping fun w => I (r, w))
include frame caches

theorem framed_queryWithKey (st : Statement) (bounds : RowBounds) (key : CacheKey)
    (bound : BoundSql) :
    Keeps (fun s => I (s.1.runner, s.2)) (queryWithKey ctx st bounds key bound) := by
  have run : Keeps I (Runner.queryWithKey ctx st bounds key bound) :=
    frame.queryWithKey st bounds key bound
  refine keeps_either run (Coordinator.keeps_queryWithKey (keeps_behind run) ?_ ?_ ?_)
  · exact fun _ _ hs => hs
  · exact fun ref => keeps_beside fun r =>
      Overlays.keeps_world_get (fun ref => (caches r ref).keeps_get) ref key
  · exact fun _ _ _ hs => hs

theorem framed_load (st : Statement) (parameters : List Value) :
    Keeps (fun s => I (s.1.runner, s.2)) (load ctx st parameters) := by
  refine Keeps.get.bind fun s => ?_
  have slot : Keeps (fun s => I (s.1.runner, s.2)) (onSecond (total World.newSlot) : Run Slot) :=
    fun s hs => frame.slots _ s.2.kept hs
  have defer (key : CacheKey) (slot : Slot) :
      Keeps (fun s => I (s.1.runner, s.2)) (onRunner (Runner.defer key slot)) :=
    keeps_either (frame.defer key slot) (keeps_behind (frame.defer key slot))
  dsimp only
  split
  · exact slot.bind fun slot => (defer _ slot).bind fun _ => Keeps.pure _
  · exact (framed_queryWithKey frame caches st .default _ _).bind fun rows => Keeps.pure _

/-- Every operation but a close keeps what neither statements nor shared caches touch. -/
theorem framed_perform {task : Task} (stays : task.closes = false) :
    Keeps (fun s => I (s.1.runner, s.2)) (perform ctx task) := by
  cases task with
  | query st bounds key bound =>
    exact (framed_queryWithKey frame caches st bounds key bound).discard
  | load st parameters => exact (framed_load frame caches st parameters).discard
  | update st parameters =>
    have run := frame.update ctx.database st parameters
    have behind : Keeps (fun s => I (s.1.runner, s.2)) (Coordinator.update ctx st parameters) :=
      Coordinator.keeps_update (fun _ _ hs => hs) (keeps_behind run)
    exact (keeps_either run behind).discard
  | commit required =>
    have run := frame.commit ctx.database required
    exact keeps_either run ((keeps_behind run).bind fun _ =>
      keeps_beside fun r => Overlays.keeps_world_commit (caches r))
  | rollback required =>
    have run := frame.rollback ctx.database required
    exact keeps_either run ((keeps_behind run).both
      (keeps_beside fun r => Overlays.keeps_world_rollback (caches r)))
  | clear => exact keeps_either frame.clearResults (keeps_behind frame.clearResults)
  | close required => cases stays

end Executor
end StatementCache
