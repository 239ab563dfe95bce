import StatementCache.Proofs.Nesting.Frame
import StatementCache.Proofs.Sessions.Effects

/-! Closing is final. An executor closes its connection at most once. After the first close it is
closed, whatever the database answered, has nothing buffered, and leaves everything shared alone.
The same holds for a session, which adds nothing to its executor but the mark of its writes. -/
namespace StatementCache

open StatementCache.Action

def Event.closes : Event → Bool
  | .close => true
  | .put _ | .get | .remove | .clear | .tag _ | .query _ _ | .execute _ _ | .commit | .rollback =>
    false

theorem Event.closes_of_cache {e : Event} (h : e.ofCache = true) : e.closes = false := by
  cases e with
  | close => cases h
  | _ => rfl

theorem Event.closes_of_statement {e : Event} (h : e.ofStatement = true) : e.closes = false := by
  cases e with
  | close => cases h
  | _ => rfl

def World.closings (before after : World) : Nat :=
  (after.log.drop before.log.length).countP Event.closes

def Closes (floor : List Event) (n : Nat) (log : List Event) : Prop :=
  ∃ rest, log = floor ++ rest ∧ rest.countP Event.closes ≤ n

namespace Closes

variable {floor log : List Event} {n : Nat}

theorem refl (log : List Event) (n : Nat) : Closes log n log := ⟨[], by simp, by simp⟩

theorem concat {e : Event} (other : e.closes = false) (h : Closes floor n log) :
    Closes floor n (log ++ [e]) := by
  obtain ⟨rest, rfl, few⟩ := h
  refine ⟨rest ++ [e], List.append_assoc .., ?_⟩
  simpa [List.countP_append, other] using few

theorem concat_one (e : Event) (h : Closes floor n log) : Closes floor (n + 1) (log ++ [e]) := by
  obtain ⟨rest, rfl, few⟩ := h
  refine ⟨rest ++ [e], List.append_assoc .., ?_⟩
  rw [List.countP_append]
  exact Nat.add_le_add few (List.countP_le_length)

theorem closings_le {v w : World} (h : Closes v.log n w.log) : v.closings w ≤ n := by
  obtain ⟨rest, same, few⟩ := h
  unfold World.closings
  rwa [same, List.drop_left]

theorem boundary (db : Database) {b : Boundary} (other : b ≠ .close) {w : World}
    (h : Closes floor n w.log) : Closes floor n (db.runBoundary b w).state.log := by
  unfold Database.runBoundary
  cases db.boundary b with
  | none => exact h
  | some answer => exact h.concat (Event.closes_of_statement (Boundary.ofStatement_event other))

theorem boundary_one (db : Database) (b : Boundary) {w : World} (h : Closes floor n w.log) :
    Closes floor (n + 1) (db.runBoundary b w).state.log := by
  unfold Database.runBoundary
  cases db.boundary b with
  | none =>
    obtain ⟨rest, same, few⟩ := h
    exact ⟨rest, same, Nat.le_succ_of_le few⟩
  | some answer => exact h.concat_one b.event

theorem keeping_store (host : Host) (ref : CacheRef) :
    (World.store host ref).Keeping fun w => Closes floor n w.log :=
  World.keeping_log (L := Closes floor n)
    (fun _ _ cached h => h.concat (Event.closes_of_cache cached)) host ref

end Closes

/-- Operations of one executor or session, one after another. Between two of them the others may do
anything to what is shared, so each has surroundings of its own: who acts and what the database
answers, and the world that it finds. -/
abbrev Turns (τ : Type) := List (Context × World × τ)

namespace Turns

variable {σ τ : Type} (perform : Context → τ → Action (σ × World) Unit)

def last (s : σ) (turns : Turns τ) : σ :=
  turns.foldl (fun s turn => (perform turn.1 turn.2.2 (s, turn.2.1)).state.1) s

def closings (s : σ) : Turns τ → Nat
  | [] => 0
  | (ctx, w, task) :: turns =>
    let o := perform ctx task (s, w)
    w.closings o.state.2 + closings o.state.1 turns

theorem last_induction {I : σ → Prop}
    (step : ∀ ctx w task s, I s → I (perform ctx task (s, w)).state.1)
    {s : σ} (first : I s) (turns : Turns τ) : I (last perform s turns) := by
  unfold last
  induction turns generalizing s with
  | nil => exact first
  | cons turn turns ih => exact ih (step turn.1 turn.2.1 turn.2.2 s first)

theorem closings_le {I : σ → Prop} {closed : σ → Bool}
    (step : ∀ ctx w task s, I s → let o := perform ctx task (s, w)
      w.closings o.state.2 + (closed s).toNat ≤ (closed o.state.1).toNat ∧ I o.state.1)
    {s : σ} (first : I s) (turns : Turns τ) :
    closings perform s turns + (closed s).toNat ≤ (closed (last perform s turns)).toNat := by
  unfold last
  induction turns generalizing s with
  | nil => simp [closings]
  | cons turn turns ih =>
    obtain ⟨ctx, w, task⟩ := turn
    obtain ⟨one, next⟩ := step ctx w task s first
    have rest := ih next
    simp only [closings, List.foldl_cons] at rest ⊢
    omega

theorem closings_le_one {I : σ → Prop} {closed : σ → Bool}
    (step : ∀ ctx w task s, I s → let o := perform ctx task (s, w)
      w.closings o.state.2 + (closed s).toNat ≤ (closed o.state.1).toNat ∧ I o.state.1)
    {s : σ} (first : I s) (turns : Turns τ) : closings perform s turns ≤ 1 :=
  calc closings perform s turns
    _ ≤ closings perform s turns + (closed s).toNat := Nat.le_add_right ..
    _ ≤ (closed (last perform s turns)).toNat := closings_le perform step first turns
    _ ≤ 1 := Bool.toNat_le _

end Turns

namespace Executor

variable {floor : List Event} {n : Nat} {e : Executor} {ctx : Context} {w : World}

/-- A closed executor that has forgotten everything. -/
structure Final (e : Executor) : Prop extends Ended e where
  results_eq : e.runner.results = .empty

theorem Final.load (h : e.Final) (ctx : Context) (st : Statement) (parameters : List Value)
    (w : World) : load ctx st parameters (e, w) = ⟨.error .executorClosed, (e, w)⟩ := by
  have unknown (key : CacheKey) : e.isCached key = false := by
    simp only [isCached, h.results_eq]
    rfl
  simp only [Executor.load, bind_apply, get_apply, unknown, Bool.false_eq_true, if_false,
    h.queryWithKey]

/-- Nothing comes from a closed executor any more. -/
theorem Final.inert (h : e.Final) (ctx : Context) (w : World) (task : Task) :
    (perform ctx task (e, w)).state = (e, w) := by
  cases task with
  | query st bounds key bound => rw [perform, state_discard, h.queryWithKey]
  | load st parameters => rw [perform, state_discard, h.load]
  | update st parameters => rw [perform, state_discard, h.update]
  | commit required => rw [perform, h.commit]
  | rollback required => rw [perform, h.rollback]
  | clear => rw [perform, h.clearResults]
  | close required => rw [perform, h.close]

def Sound (e : Executor) : Prop := e.isClosed = true → e.Final

theorem sound_ofSettings (settings : Settings) : (ofSettings settings).Sound := by
  intro closed
  unfold ofSettings at closed
  split at closed
  · cases closed
  · cases closed

theorem framed_open : Runner.Framed fun s => s.1.closed = false ∧ Closes floor n s.2.log where
  runner same h := ⟨same.trans h.1, h.2⟩
  report _ stated h := ⟨h.1, h.2.concat (Event.closes_of_statement stated)⟩
  slots _ _ h := h

theorem perform_open (ctx : Context) (w : World) (isOpen : e.isClosed = false) {task : Task}
    (stays : task.closes = false) :
    let o := perform ctx task (e, w)
    o.state.1.isClosed = false ∧ w.closings o.state.2 ≤ 0 := by
  have caches (r : Runner) (ref : CacheRef) : (World.store ctx.host ref).Keeping fun w' =>
      r.closed = false ∧ Closes w.log 0 w'.log := (Closes.keeping_store ctx.host ref).keeping_and _
  obtain ⟨stillOpen, none⟩ :=
    framed_perform framed_open caches stays (e, w) ⟨isOpen, .refl w.log 0⟩
  exact ⟨stillOpen, none.closings_le⟩

theorem close_once (ctx : Context) (w : World) (isOpen : e.isClosed = false) (required : Bool) :
    let o := close ctx required (e, w)
    o.state.1.Final ∧ w.closings o.state.2 ≤ 1 := by
  have one (r : Runner) (isOpen : r.closed = false) (required : Bool) {v : World}
      (h : Closes w.log 0 v.log) : let o := Runner.close ctx.database required (r, v)
        (o.state.1.closed = true ∧ o.state.1.results = .empty) ∧ Closes w.log 1 o.state.2.log := by
    rw [Runner.close_apply, isOpen, if_neg Bool.false_ne_true]
    refine ⟨⟨rfl, rfl⟩, Closes.boundary_one ctx.database .close ?_⟩
    rw [Runner.rollback_apply, isOpen, if_neg Bool.false_ne_true]
    cases required with
    | true => exact Closes.boundary ctx.database (by decide) h
    | false => exact h
  have publish : Keeps (fun s : Overlays × World => Closes w.log 0 s.2.log)
      (Overlays.commit (World.find? ctx.host)) :=
    Overlays.keeps_world_commit (Closes.keeping_store ctx.host)
  have release : Keeps (fun s : Overlays × World => Closes w.log 1 s.2.log)
      (Overlays.rollback (World.find? ctx.host)) :=
    Overlays.keeps_world_rollback (Closes.keeping_store ctx.host)
  cases e with
  | alone r =>
    obtain ⟨⟨closed, forgotten⟩, few⟩ := one r isOpen required (.refl w.log 0)
    exact ⟨⟨⟨closed, rfl⟩, forgotten⟩, few.closings_le⟩
  | coordinated c =>
    cases required with
    | true =>
      obtain ⟨⟨closed, forgotten⟩, few⟩ := one c.runner isOpen true (.refl w.log 0)
      exact ⟨⟨⟨closed, rfl⟩, forgotten⟩, Closes.closings_le (release (c.overlays, _) few)⟩
    | false =>
      obtain ⟨⟨closed, forgotten⟩, few⟩ :=
        one c.runner isOpen false (publish (c.overlays, w) (.refl w.log 0))
      exact ⟨⟨⟨closed, rfl⟩, forgotten⟩, few.closings_le⟩

/-- One operation: the only close of an executor is the one that ends it. -/
theorem closings_perform (ctx : Context) (w : World) (task : Task) (h : e.Sound) :
    let o := perform ctx task (e, w)
    w.closings o.state.2 + e.isClosed.toNat ≤ o.state.1.isClosed.toNat ∧ o.state.1.Sound := by
  have none : w.closings w = 0 := Nat.le_zero.mp (Closes.refl w.log 0).closings_le
  intro o
  cases closed : e.isClosed with
  | true =>
    have same : o.state = (e, w) := (h closed).inert ctx w task
    rw [same, none, closed]
    exact ⟨Nat.le_refl _, h⟩
  | false =>
    cases closes : task.closes with
    | false =>
      obtain ⟨isOpen, none⟩ := perform_open ctx w closed closes
      have isOpen : o.state.1.isClosed = false := isOpen
      refine ⟨?_, fun closed => ?_⟩
      · rw [isOpen]
        exact none
      · rw [isOpen] at closed
        cases closed
    | true =>
      cases task with
      | close required =>
        obtain ⟨final, once⟩ := close_once ctx w closed required
        have isClosed : o.state.1.isClosed = true := final.isClosed
        rw [isClosed]
        exact ⟨once, fun _ => final⟩
      | _ => cases closes

theorem final_close (h : e.Sound) (ctx : Context) (w : World) (required : Bool) :
    (close ctx required (e, w)).state.1.Final := by
  cases closed : e.isClosed with
  | true =>
    rw [(h closed).close]
    exact h closed
  | false => exact (close_once ctx w closed required).1

/-- A closed executor has nothing buffered. Whatever is asked of it later, it stays as it is and
leaves everything shared alone, the report of its database with it. -/
structure Finished (e : Executor) : Prop where
  isClosed : e.isClosed = true
  overlays_eq : e.overlays = .empty
  inert : ∀ ctx w task, (perform ctx task (e, w)).state = (e, w)
  query : ∀ ctx w st parameters bounds,
    (query ctx st parameters bounds (e, w)).result = .error .executorClosed
  update : ∀ ctx w st parameters, (update ctx st parameters (e, w)).result = .error .executorClosed
  commit : ∀ ctx w required, (commit ctx required (e, w)).result = .error .executorClosed
  rollback : ∀ ctx w required, (rollback ctx required (e, w)).result = .ok ()
  close : ∀ ctx w required, (close ctx required (e, w)).result = .ok ()

theorem Final.last (h : e.Final) (later : Turns Task) : (later.last perform e).Final :=
  Turns.last_induction perform (fun ctx w task e (h : e.Final) => by rwa [h.inert]) h later

theorem sound_last (h : e.Sound) (past : Turns Task) : (past.last perform e).Sound :=
  Turns.last_induction perform (I := Sound)
    (fun ctx w task _ h => (closings_perform ctx w task h).2) h past

theorem closings_le_one (h : e.Sound) (turns : Turns Task) : turns.closings perform e ≤ 1 :=
  Turns.closings_le_one perform (fun ctx w task _ h => closings_perform ctx w task h) h turns

theorem Final.finished (h : e.Final) : e.Finished where
  isClosed := h.isClosed
  overlays_eq := h.overlays_eq
  inert := h.inert
  query ctx w st parameters bounds := by rw [h.query]
  update ctx w st parameters := by rw [h.update]
  commit ctx w required := by rw [h.commit]
  rollback ctx w required := by rw [h.rollback]
  close ctx w required := by rw [h.close]

end Executor

namespace Session

variable {ctx : Context} {w : World} {x : Session}

inductive Use where
  | called (call : Call)
  /-- A select of one row at most. -/
  | one (id : String) (parameters : List Value)
  /-- The session goes out of use, closed or not. -/
  | dropped

def use (ctx : Context) : Use → Run Unit
  | .called call => perform ctx call
  | .one id parameters => discard (selectOne ctx id parameters)
  | .dropped => dropped ctx

def asksQuery (ctx : Context) (x : Session) (id : String) (parameters : List Value)
    (bounds : RowBounds) : Option Task :=
  match ctx.find id with
  | .error _ => none
  | .ok st =>
    let bound := st.source parameters
    some (.query st bounds (x.executor.keyOf st bounds bound) bound)

def asks (ctx : Context) (x : Session) : Use → Option Task
  | .called (.select id parameters bounds) => asksQuery ctx x id parameters bounds
  | .called (.update id parameters) =>
    match ctx.find id with
    | .error _ => none
    | .ok st => some (.update st parameters)
  | .called (.commit force) => some (.commit (x.dirty || force))
  | .called (.rollback force) => some (.rollback (x.dirty || force))
  | .called .clearCache => some .clear
  | .called .close => some (.close x.dirty)
  | .one id parameters => asksQuery ctx x id parameters .default
  | .dropped => if x.isClosed then none else some (.close x.dirty)

def asked (ctx : Context) (x : Session) (w : World) : Option Task → Executor × World
  | none => (x.executor, w)
  | some task => (Executor.perform ctx task (x.executor, w)).state

theorem asked_select (ctx : Context) (id : String) (parameters : List Value) (bounds : RowBounds)
    (x : Session) (w : World) :
    let s := (selectList ctx id parameters bounds (x, w)).state
    (s.1.executor, s.2) = asked ctx x w (asksQuery ctx x id parameters bounds) := by
  simp only [selectList, bind_apply, ofExcept_apply, asksQuery]
  cases ctx.find id with
  | error e => rfl
  | ok st =>
    dsimp only [asked]
    rw [Executor.perform, state_discard]
    rfl

theorem state_selectOne (ctx : Context) (id : String) (parameters : List Value) (x : Session)
    (w : World) :
    (selectOne ctx id parameters (x, w)).state =
      (selectList ctx id parameters .default (x, w)).state := by
  simp only [selectOne, bind_apply]
  rcases selectList ctx id parameters .default (x, w) with ⟨_ | rows, s⟩
  · rfl
  · dsimp only
    split
    · rfl
    · rfl
    · rfl

theorem close_eq (ctx : Context) (x : Session) (w : World) :
    close ctx (x, w) =
      let o := Executor.close ctx x.dirty (x.executor, w)
      ⟨o.result, (⟨o.state.1, false⟩, o.state.2)⟩ := rfl

theorem dropped_eq (ctx : Context) (x : Session) (w : World) :
    dropped ctx (x, w) =
      if x.isClosed then ⟨.ok (), (x, w)⟩ else ⟨.ok (), (close ctx (x, w)).state⟩ := by
  simp only [dropped, bind_apply, get_apply]
  cases x.isClosed with
  | true => rfl
  | false => rfl

theorem executor_use (ctx : Context) (u : Use) (x : Session) (w : World) :
    let s := (use ctx u (x, w)).state
    (s.1.executor, s.2) = asked ctx x w (asks ctx x u) := by
  cases u with
  | called call =>
    cases call with
    | select id parameters bounds =>
      rw [use, perform, state_discard]
      exact asked_select ctx id parameters bounds x w
    | update id parameters =>
      simp only [asks]
      cases found : ctx.find id with
      | error e =>
        rw [use, state_update_of_unknown found]
        rfl
      | ok st =>
        rw [use, state_update_of_known found, asked, Executor.perform, state_discard]
    | commit force =>
      rw [use, perform, commit_eq]
      rfl
    | rollback force =>
      rw [use, perform, rollback_eq]
      rfl
    | clearCache => rfl
    | close => rfl
  | one id parameters =>
    rw [use, state_discard, state_selectOne]
    exact asked_select ctx id parameters .default x w
  | dropped =>
    rw [use, dropped_eq, asks]
    split
    · rfl
    · rfl

/-- A closed session has nothing buffered. Whatever is asked of it later, its executor stays as it
is, and everything shared is left alone. -/
structure Finished (x : Session) : Prop where
  isClosed : x.isClosed = true
  overlays_eq : x.overlays = .empty
  inert : ∀ ctx w u, let s := (use ctx u (x, w)).state
    s.1.executor = x.executor ∧ s.2 = w
  selectList : ∀ ctx w id st parameters bounds, ctx.find id = .ok st →
    (selectList ctx id parameters bounds (x, w)).result = .error .executorClosed
  selectOne : ∀ ctx w id st parameters, ctx.find id = .ok st →
    (selectOne ctx id parameters (x, w)).result = .error .executorClosed
  update : ∀ ctx w id st parameters, ctx.find id = .ok st →
    (update ctx id parameters (x, w)).result = .error .executorClosed
  commit : ∀ ctx w force, (commit ctx force (x, w)).result = .error .executorClosed
  rollback : ∀ ctx w force, (rollback ctx force (x, w)).result = .ok ()
  close : ∀ ctx w, (close ctx (x, w)).result = .ok ()

theorem finished_of_final (h : x.executor.Final) : x.Finished where
  isClosed := h.isClosed
  overlays_eq := h.overlays_eq
  inert ctx w u := by
    have unchanged : asked ctx x w (asks ctx x u) = (x.executor, w) := by
      cases asks ctx x u with
      | none => rfl
      | some task => exact h.inert ctx w task
    exact Prod.mk.inj ((executor_use ctx u x w).trans unchanged)
  selectList ctx w id st parameters bounds known := by
    simp only [Session.selectList, bind_apply, ofExcept_apply, known, onExecutor, h.query]
  selectOne ctx w id st parameters known := by
    simp only [Session.selectOne, Session.selectList, bind_apply, ofExcept_apply, known, onExecutor,
      h.query]
  update ctx w id st parameters known := by
    simp only [Session.update, bind_apply, ofExcept_apply, known, onFirst_apply, modify_apply,
      onExecutor, h.update]
  commit ctx w force := by rw [commit_eq, h.commit]
  rollback ctx w force := by rw [rollback_eq, h.rollback]
  close ctx w := by rw [close_eq, h.close]

theorem closings_use (ctx : Context) (w : World) (u : Use) (x : Session) (h : x.executor.Sound) :
    let o := use ctx u (x, w)
    w.closings o.state.2 + x.isClosed.toNat ≤ o.state.1.isClosed.toNat ∧
      o.state.1.executor.Sound := by
  intro o
  obtain ⟨executor, world⟩ := Prod.mk.inj (executor_use ctx u x w)
  have closed : o.state.1.isClosed = o.state.1.executor.isClosed := rfl
  rw [closed, show o.state.1.executor = _ from executor, show o.state.2 = _ from world]
  cases asks ctx x u with
  | none =>
    have none : w.closings w = 0 := Nat.le_zero.mp (Closes.refl w.log 0).closings_le
    simp only [none, Nat.zero_add]
    exact ⟨Nat.le_refl _, h⟩
  | some task => exact Executor.closings_perform ctx w task h

theorem sound_last (h : x.executor.Sound) (past : Turns Use) : (past.last use x).executor.Sound :=
  Turns.last_induction use (I := fun x => x.executor.Sound)
    (fun ctx w u x h => (closings_use ctx w u x h).2) h past

theorem final_last (h : x.executor.Final) (later : Turns Use) :
    (later.last use x).executor.Final := by
  refine Turns.last_induction use (I := fun x => x.executor.Final) (fun ctx w u x h => ?_) h later
  rwa [((finished_of_final h).inert ctx w u).1]

theorem final_close (h : x.executor.Sound) (ctx : Context) (w : World) :
    (close ctx (x, w)).state.1.executor.Final :=
  Executor.final_close h ctx w x.dirty

theorem final_dropped (h : x.executor.Sound) (ctx : Context) (w : World) :
    (dropped ctx (x, w)).state.1.executor.Final := by
  rw [dropped_eq]
  split
  · rename_i closed
    exact h closed
  · exact final_close h ctx w

end Session

/-- Whatever is done to an executor or a session, in any order and among whatever others do, its
database is closed once at most. After the first close nothing comes from it any more, even if the
database has refused the rollback or the close. -/
theorem closing_is_final (catalog : Catalog) :
    (∀ turns : Turns Task, turns.closings Executor.perform catalog.newExecutor ≤ 1) ∧
    (∀ (past later : Turns Task) (ctx : Context) (w : World) (required : Bool),
      let e := past.last Executor.perform catalog.newExecutor
      (later.last Executor.perform (Executor.close ctx required (e, w)).state.1).Finished) ∧
    (∀ turns : Turns Session.Use, turns.closings Session.use (Session.opened catalog) ≤ 1) ∧
    ∀ (past later : Turns Session.Use) (ctx : Context) (w : World),
      let x := past.last Session.use (Session.opened catalog)
      (later.last Session.use (Session.close ctx (x, w)).state.1).Finished ∧
        (later.last Session.use (Session.dropped ctx (x, w)).state.1).Finished := by
  have new : catalog.newExecutor.Sound := Executor.sound_ofSettings catalog.settings
  have opened : (Session.opened catalog).executor.Sound := new
  refine ⟨Executor.closings_le_one new, fun past later ctx w required => ?_, fun turns => ?_,
    fun past later ctx w => ⟨?_, ?_⟩⟩
  · have ended := Executor.final_close (Executor.sound_last new past) ctx w required
    exact (ended.last later).finished
  · exact Turns.closings_le_one Session.use (I := fun x => x.executor.Sound)
      (fun ctx w u x h => Session.closings_use ctx w u x h) opened turns
  · have ended := Session.final_close (Session.sound_last opened past) ctx w
    exact Session.finished_of_final (Session.final_last ended later)
  · have ended := Session.final_dropped (Session.sound_last opened past) ctx w
    exact Session.finished_of_final (Session.final_last ended later)

/-- The bound is reached, also where the database refuses everything. -/
example :
    let refusing : Database :=
      { Application.counting with boundary := fun _ => some fun _ => .error (.execution "lost") }
    let ctx : Context := ⟨.calm, refusing, fun id => .error (.statementNotFound id), 0⟩
    Turns.closings Executor.perform (Executor.ofSettings .default)
      [(ctx, .empty, .close true), (ctx, .empty, .rollback true), (ctx, .empty, .close true)] = 1 :=
  rfl

end StatementCache
