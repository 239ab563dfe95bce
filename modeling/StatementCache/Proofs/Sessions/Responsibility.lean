import StatementCache.Mapper
import StatementCache.Proofs.Sessions.Closing
import StatementCache.Proofs.Sessions.Durability

/-! A session answers for what it writes. An update marks the session until a commit or a rollback
succeeds. As long as the mark is there, a commit asks the database before anything is published, and
a close has the database undo the work and publishes nothing. What a row mapper writes inside a
select goes past the mark. -/
namespace StatementCache

open StatementCache.Action

def Store.removable {σ : Type} (store : Store σ) : Store σ :=
  { unavailable store.id with remove := store.remove }

def Directory.removable {σ : Type} (directory : Directory σ) : Directory σ :=
  fun ref s => (directory ref s).map Store.removable

theorem Overlays.rollback_removable {σ : Type} (directory : Directory σ) :
    rollback directory.removable = rollback directory := by
  have same : Overlay.rollback directory.removable = Overlay.rollback directory := by
    funext ⟨o, s⟩
    simp only [Overlay.rollback, Overlay.settle, Directory.removable]
    cases directory o.target s with
    | none => rfl
    | some store => rfl
  rw [rollback, rollback, same]

namespace Executor

variable {e : Executor}

theorem commit_required (ctx : Context) (isOpen : e.isClosed = false) (w : World) :
    let asked := ctx.database.runBoundary .commit w
    let o := commit ctx true (e, w)
    match asked.result with
    | .error f => o.result = .error f ∧ o.state.1.overlays = e.overlays ∧ o.state.2 = asked.state
    | .ok () =>
      let published := Overlays.commit (World.find? ctx.host) (e.overlays, asked.state)
      o.result = published.result ∧ o.state.2 = published.state.2 := by
  have ran (r : Runner) (isOpen : r.closed = false) : Runner.commit ctx.database true (r, w) =
      ⟨(ctx.database.runBoundary .commit w).result, ({ r with results := .empty },
        (ctx.database.runBoundary .commit w).state)⟩ := by
    rw [Runner.commit_apply, isOpen, if_neg Bool.false_ne_true]
    rfl
  cases e with
  | alone r =>
    simp only [commit, either, ran r isOpen]
    cases (ctx.database.runBoundary .commit w).result with
    | error f => exact ⟨rfl, rfl, trivial⟩
    | ok _ => exact ⟨rfl, rfl⟩
  | coordinated c =>
    have opened : c.runner.closed = false := isOpen
    simp only [commit, either, Coordinator.commit, bind_apply, Coordinator.onRunner,
      ran c.runner opened]
    cases (ctx.database.runBoundary .commit w).result with
    | error f => exact ⟨rfl, rfl, rfl⟩
    | ok _ => exact ⟨rfl, rfl⟩

theorem world_close_required (ctx : Context) (isOpen : e.isClosed = false) (w : World) :
    let undone := ctx.database.runBoundary .rollback w
    let closed := ctx.database.runBoundary .close undone.state
    (close ctx true (e, w)).state.2 =
      (Overlays.rollback (World.find? ctx.host) (e.overlays, closed.state)).state.2 := by
  have ran (r : Runner) (isOpen : r.closed = false) :
      (Runner.close ctx.database true (r, w)).state.2 =
        (ctx.database.runBoundary .close (ctx.database.runBoundary .rollback w).state).state := by
    rw [Runner.close_apply, isOpen, if_neg Bool.false_ne_true, Runner.rollback_apply, isOpen,
      if_neg Bool.false_ne_true]
    rfl
  cases e with
  | alone r => exact ran r isOpen
  | coordinated c =>
    have opened : c.runner.closed = false := isOpen
    simp only [close, either, Coordinator.close, if_true, both, Coordinator.onRunner,
      Coordinator.onOverlays, ran c.runner opened]
    rfl

end Executor

namespace Session

variable {ctx : Context} {x : Session} {debt : Bool}

def Use.settles : Use → Bool
  | .called call => call.settles
  | .one _ _ | .dropped => false

def Use.updates : Use → Bool
  | .called (.update _ _) => true
  | .called _ | .one _ _ | .dropped => false

/-- Whether a session has to answer for a write after some turns: one of its updates has reached the
database since the last commit or rollback that succeeded. -/
def owes (x : Session) (debt : Bool) : Turns Use → Bool
  | [] => debt
  | (ctx, w, u) :: turns =>
    let o := use ctx u (x, w)
    owes o.state.1
      (!(u.settles && o.result.isOk) && (debt || u.updates && w.wrote o.state.2)) turns

structure Answers (x : Session) (debt : Bool) : Prop where
  sound : x.executor.Sound
  marked : x.isClosed = false → debt = true → x.dirty = true

theorem dirty_selectList (ctx : Context) (id : String) (parameters : List Value)
    (bounds : RowBounds) (x : Session) (w : World) :
    (selectList ctx id parameters bounds (x, w)).state.1.dirty = x.dirty := by
  simp only [selectList, bind_apply, ofExcept_apply]
  cases ctx.find id with
  | error e => rfl
  | ok st => rfl

theorem dirty_update (ctx : Context) (id : String) (parameters : List Value) (x : Session)
    (w : World) :
    let s := (use ctx (.called (.update id parameters)) (x, w)).state
    (x.dirty || w.wrote s.2) = true → s.1.dirty = true := by
  intro s marked
  cases found : ctx.find id with
  | error e =>
    have same : s = (x, w) := state_update_of_unknown found parameters x w
    rw [same, World.wrote_of_quiet (Quiet.refl w.log), Bool.or_false] at marked
    rw [same]
    exact marked
  | ok st =>
    have same : s = _ := state_update_of_known found parameters x w
    rw [same]

/-- One operation: the mark is there for every write that the session makes itself, until a commit
or a rollback succeeds. -/
theorem answers_use (ctx : Context) (w : World) (u : Use) (h : x.Answers debt) :
    let o := use ctx u (x, w)
    o.state.1.Answers
      (!(u.settles && o.result.isOk) && (debt || u.updates && w.wrote o.state.2)) := by
  intro o
  obtain ⟨closings, sound⟩ := closings_use ctx w u x h.sound
  refine ⟨sound, fun isOpen owed => ?_⟩
  have isOpen : o.state.1.isClosed = false := isOpen
  have wasOpen : x.isClosed = false := by
    rw [show (use ctx u (x, w)).state.1.isClosed = false from isOpen] at closings
    cases closed : x.isClosed with
    | false => rfl
    | true =>
      rw [closed] at closings
      cases Nat.le_zero.mp (Nat.le_trans (Nat.le_add_left ..) closings)
  obtain ⟨unsettled, owing⟩ := Bool.and_eq_true_iff.mp owed
  have mark (same : u.updates = false) : x.dirty = true := by
    rw [same, Bool.false_and, Bool.or_false] at owing
    exact h.marked wasOpen owing
  cases u with
  | called call =>
    cases call with
    | select id parameters bounds =>
      have kept : o.state.1.dirty = x.dirty := by
        simp only [o, use, perform, state_discard]
        exact dirty_selectList ctx id parameters bounds x w
      exact kept.trans (mark rfl)
    | update id parameters =>
      refine dirty_update ctx id parameters x w ?_
      have updates : Use.updates (.called (.update id parameters)) = true := rfl
      rw [updates, Bool.true_and] at owing
      rcases Bool.or_eq_true_iff.mp owing with before | wrote
      · rw [h.marked wasOpen before, Bool.true_or]
      · rw [show w.wrote _ = true from wrote, Bool.or_true]
    | commit force =>
      have kept : o.state.1.dirty = (x.dirty && !o.result.isOk) := by
        simp only [o, use, perform, commit_eq]
      rw [kept, mark rfl]
      exact unsettled
    | rollback force =>
      have kept : o.state.1.dirty = (x.dirty && !o.result.isOk) := by
        simp only [o, use, perform, rollback_eq]
      rw [kept, mark rfl]
      exact unsettled
    | clearCache => exact mark rfl
    | close =>
      have closed : o.state.1.isClosed = true := (final_close h.sound ctx w).isClosed
      rw [isOpen] at closed
      cases closed
  | one id parameters =>
    have kept : o.state.1.dirty = x.dirty := by
      simp only [o, use, state_discard, state_selectOne]
      exact dirty_selectList ctx id parameters .default x w
    exact kept.trans (mark rfl)
  | dropped =>
    have closed : o.state.1.isClosed = true := (final_dropped h.sound ctx w).isClosed
    rw [isOpen] at closed
    cases closed

theorem owes_answers (h : x.Answers debt) (turns : Turns Use) :
    (turns.last use x).Answers (owes x debt turns) := by
  unfold Turns.last
  induction turns generalizing x debt with
  | nil => exact h
  | cons turn turns ih => exact ih (answers_use turn.1 turn.2.1 turn.2.2 h)

/-- What being marked comes to: a commit asks the database first, publishes from there, and only if
the database agrees; a close has the database undo the work, and then only takes entries away. -/
structure Responsible (x : Session) : Prop where
  dirty : x.dirty = true
  commit : ∀ ctx w, let asked := ctx.database.runBoundary .commit w
    let o := commit ctx false (x, w)
    asked.state.caches = w.caches ∧
      match asked.result with
      | .error f => o.result = .error f ∧ o.state.1.overlays = x.overlays ∧ o.state.2 = asked.state
      | .ok () =>
        let published := Overlays.commit (World.find? ctx.host) (x.overlays, asked.state)
        o.result = published.result ∧ o.state.2 = published.state.2
  close : ∀ ctx w, let undone := ctx.database.runBoundary .rollback w
    let closed := ctx.database.runBoundary .close undone.state
    closed.state.caches = w.caches ∧
      (close ctx (x, w)).state.2 = (Overlays.rollback
        (Directory.removable (World.find? ctx.host)) (x.overlays, closed.state)).state.2

theorem responsible_of_dirty (isOpen : x.isClosed = false) (dirty : x.dirty = true) :
    x.Responsible where
  dirty := dirty
  commit ctx w := by
    have ran := Executor.commit_required ctx (e := x.executor) isOpen w
    simp only [commit_eq, dirty, Bool.true_or]
    exact ⟨ctx.database.caches_runBoundary .commit w, ran⟩
  close ctx w := by
    refine ⟨(ctx.database.caches_runBoundary ..).trans (ctx.database.caches_runBoundary ..), ?_⟩
    rw [Overlays.rollback_removable, close_eq, dirty]
    exact Executor.world_close_required ctx isOpen w

/-- An open session answers for every write of its own, whatever was done before, row mappers that
write included, and whatever others do meanwhile. -/
theorem updates_make_responsible (catalog : Catalog) (turns : Turns Use)
    (written : owes (opened catalog) false turns = true)
    (isOpen : (turns.last use (opened catalog)).isClosed = false) :
    (turns.last use (opened catalog)).Responsible := by
  have new : (opened catalog).Answers false :=
    ⟨Executor.sound_ofSettings catalog.settings, fun _ debt => by cases debt⟩
  exact responsible_of_dirty isOpen ((owes_answers new turns).marked isOpen written)

def findTouching : Statement :=
  { Statement.ofSql "find" .select "find" with
    cache := some ⟨0, "names"⟩
    mapper := some (RowMapper.updating "touch" 0) }

def touching : Catalog :=
  { Catalog.ofSettings .default .builtIn with
    statements := (Table.empty.insert "find" findTouching).insert "touch"
      (Statement.ofSql "touch" .update "touch") }

def agreeing : Database where
  query _ _ _ := .ok [[.integer 1]]
  execute _ _ _ := .ok 1
  boundary _ := some fun _ => .ok ()

theorem updates_make_responsible_of_touch :
    let ctx : Context := ⟨.calm, agreeing, touching.statement, 1⟩
    let turns : Turns Use :=
      [(ctx, World.single (Cache.base "names"), .called (.update "touch" []))]
    owes (opened touching) false turns = true ∧
      (turns.last use (opened touching)).isClosed = false ∧
      (turns.last use (opened touching)).Responsible :=
  ⟨rfl, rfl, updates_make_responsible touching _ rfl rfl⟩

/-- The write of a row mapper goes past the mark. The commit then publishes without the database,
and so does a close, which has nothing undone. -/
theorem mapper_write_unmarked :
    let ctx : Context := ⟨.calm, agreeing, touching.statement, 1⟩
    let w := World.single (Cache.base "names")
    let key := (opened touching).executor.keyOf findTouching .default (findTouching.source [])
    let s := (selectList ctx "find" [] .default (opened touching, w)).state
    let committed := (commit ctx false s).state.2
    let closed := (close ctx s).state.2
    w.wrote s.2 = true ∧ s.1.isClosed = false ∧ s.1.dirty = false ∧
      committed.log = s.2.log ∧ committed.contents 0 key = some (.rows [[.integer 1, .integer 1]]) ∧
      closed.log = s.2.log ++ [.close] ∧
      closed.contents 0 key = some (.rows [[.integer 1, .integer 1]]) := by
  intro ctx w key s committed closed
  refine ⟨rfl, rfl, rfl, rfl, ?_, rfl, ?_⟩
  · rfl
  · rfl

end Session
end StatementCache
