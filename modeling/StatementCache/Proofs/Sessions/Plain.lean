import StatementCache.Proofs.Sessions.Origin

/-! Statements without row mappers. A select of such a statement sends one query, and none of its
work goes anywhere else. The ends of a unit of work are written out beside it. -/
namespace StatementCache

open StatementCache.Action

def Event.isWrite : Event → Bool
  | .execute _ _ => true
  | .put _ | .get | .remove | .clear | .tag _ | .query _ _ | .commit | .rollback | .close => false

def Quiet (log log' : List Event) : Prop :=
  ∃ rest, log' = log ++ rest ∧ ∀ e ∈ rest, e.isWrite = false

namespace Quiet

variable {log log' log'' : List Event}

theorem refl (log : List Event) : Quiet log log := ⟨[], by simp, by simp⟩

theorem trans (first : Quiet log log') (second : Quiet log' log'') : Quiet log log'' := by
  obtain ⟨rest, rfl, quiet⟩ := first
  obtain ⟨rest', rfl, quiet'⟩ := second
  refine ⟨rest ++ rest', List.append_assoc .., fun e mem => ?_⟩
  rcases List.mem_append.mp mem with earlier | later
  · exact quiet e earlier
  · exact quiet' e later

theorem concat {e : Event} (h : Quiet log log') (quiet : e.isWrite = false) :
    Quiet log (log' ++ [e]) := by
  refine h.trans ⟨[e], rfl, fun e' mem => ?_⟩
  rw [List.mem_singleton.mp mem, quiet]

end Quiet

namespace Database

theorem log_runBoundary (db : Database) (b : Boundary) {log : List Event} {w : World}
    (h : Quiet log w.log) : Quiet log (db.runBoundary b w).state.log := by
  unfold runBoundary
  cases db.boundary b with
  | none => exact h
  | some answer =>
    refine h.concat ?_
    cases b with
    | commit => rfl
    | rollback => rfl
    | close => rfl

theorem caches_runBoundary (db : Database) (b : Boundary) (w : World) :
    (db.runBoundary b w).state.caches = w.caches := by
  unfold runBoundary
  cases db.boundary b with
  | none => rfl
  | some answer => rfl

end Database

namespace Runner

theorem select_plain {db : Database} {hydrate : RowMapper → Rows → Run Rows} {st : Statement}
    (plain : st.mapper = none) (bounds : RowBounds) (bound : BoundSql) (r : Runner) (w : World) :
    select db hydrate st bounds bound (r, w) =
      ⟨(db.query (w.log ++ [.query bound.sql bound.parameters]) bound.sql bound.parameters).map
        bounds.page, (r, w.report (.query bound.sql bound.parameters))⟩ := by
  simp only [select, bind_apply, onSecond_apply, Database.runQuery, World.report, plain]
  cases db.query (w.log ++ [.query bound.sql bound.parameters]) bound.sql bound.parameters with
  | error e => rfl
  | ok rows => rfl

theorem Ends.caches_eq {db : Database} {b : Boundary} {r : Runner} {w : World}
    {o : Outcome (Runner × World) Unit} (h : Ends db b r w o) : o.state.2.caches = w.caches := by
  cases h with
  | asked => exact db.caches_runBoundary b w
  | unasked reply said => rfl

theorem caches_commit (db : Database) (required : Bool) (r : Runner) (w : World) :
    (commit db required (r, w)).state.2.caches = w.caches :=
  (ends_commit db required r w).caches_eq

theorem caches_rollback (db : Database) (required : Bool) (r : Runner) (w : World) :
    (rollback db required (r, w)).state.2.caches = w.caches :=
  (ends_rollback db required r w).caches_eq

theorem caches_close (db : Database) (required : Bool) (r : Runner) (w : World) :
    (close db required (r, w)).state.2.caches = w.caches := by
  rw [close_apply]
  split
  · rfl
  · exact (db.caches_runBoundary .close _).trans (caches_rollback db required r w)

structure Ready (r : Runner) : Prop where
  isOpen : r.closed = false
  scope_eq : r.scope = .session
  depth_eq : r.depth = 0
  deferred_eq : r.deferred = []

theorem Ready.enter_leave {r : Runner} (h : r.Ready) {st : Statement}
    (keeps : st.flushCacheRequired = false) (results : Results) :
    { r.enter st with results := results }.leave = { r with results := results } := by
  simp only [enter, leave, h.depth_eq, keeps, Bool.false_eq_true, and_false, if_false]

theorem Ready.finish {r : Runner} (h : r.Ready) (succeeded : Bool) (w : World) :
    (finish succeeded (r, w)).state = (r, w) := by
  obtain ⟨scope, environmentId, results, deferred, depth, closed⟩ := r
  obtain ⟨-, scope_eq, -, deferred_eq⟩ := h
  dsimp only at scope_eq deferred_eq
  subst scope_eq deferred_eq
  cases succeeded with
  | false => rfl
  | true => rfl

theorem Ready.query {r : Runner} (h : r.Ready) {ctx : Context} {st : Statement}
    (keeps : st.flushCacheRequired = false) {bounds : RowBounds} {key : CacheKey} {bound : BoundSql}
    {w w' : World} {result : Except Fault Rows} {results : Results}
    (looked : lookup ctx.database (hydrateWithin ctx ctx.nesting) st bounds key bound
      (r.enter st, w) = ⟨result, ({ r.enter st with results := results }, w')⟩) :
    queryWithKey ctx st bounds key bound (r, w) = ⟨result, ({ r with results := results }, w')⟩ := by
  have isOpen : ¬r.closed = true := by
    rw [h.isOpen]
    exact Bool.false_ne_true
  have left := h.enter_leave keeps results
  have ready : Ready { r with results := results } :=
    ⟨h.isOpen, h.scope_eq, h.depth_eq, h.deferred_eq⟩
  have settled := ready.finish result.isOk w'
  rw [queryWithKey, queryWithin_eq, queryVia_apply, if_neg isOpen, looked]
  dsimp only at left settled ⊢
  rw [left, if_pos h.depth_eq, settled]

theorem results_enter (r : Runner) {st : Statement} (keeps : st.flushCacheRequired = false) :
    (r.enter st).results = r.results := by
  simp only [enter, keeps, Bool.false_eq_true, and_false, if_false]

theorem query_kept (ctx : Context) {r : Runner} (h : r.Ready) {st : Statement}
    (keeps : st.flushCacheRequired = false) {key : CacheKey} {rows : Rows}
    (found : r.results.find? key = some (.rows rows)) (bounds : RowBounds) (bound : BoundSql)
    (w : World) :
    queryWithKey ctx st bounds key bound (r, w) = ⟨.ok rows, (r, w)⟩ := by
  apply h.query keeps
  rw [lookup_apply, r.results_enter keeps, found, ← r.results_enter keeps]

theorem query_sent (ctx : Context) {r : Runner} (h : r.Ready) {st : Statement}
    (keeps : st.flushCacheRequired = false) (plain : st.mapper = none) {key : CacheKey}
    (absent : r.results.find? key = none) (bounds : RowBounds) {bound : BoundSql} {w : World}
    {rows : Rows} (answered : ctx.database.query (w.log ++ [.query bound.sql bound.parameters])
      bound.sql bound.parameters = .ok rows) :
    queryWithKey ctx st bounds key bound (r, w) =
      ⟨.ok (bounds.page rows),
        ({ r with results := (r.results.mark key).complete key (bounds.page rows) },
          w.report (.query bound.sql bound.parameters))⟩ := by
  apply h.query keeps
  rw [lookup_apply, r.results_enter keeps, absent]
  dsimp only
  rw [select_plain plain, answered]
  rfl

structure Idle (v : World) (s : Runner × World) : Prop where
  isOpen : s.1.closed = false
  caches_eq : s.2.caches = v.caches
  quiet : Quiet v.log s.2.log

variable {v : World} {r r' : Runner} {w : World}

theorem Idle.runner (h : Idle v (r, w)) (same : r'.closed = r.closed) : Idle v (r', w) :=
  ⟨same.trans h.isOpen, h.caches_eq, h.quiet⟩

theorem keeps_idle_boundary (db : Database) (b : Boundary) :
    Keeps (Idle v) (onSecond (db.runBoundary b)) := by
  intro s h
  refine ⟨h.isOpen, ?_, ?_⟩
  · exact (db.caches_runBoundary b s.2).trans h.caches_eq
  · exact db.log_runBoundary b h.quiet

theorem keeps_idle_clearResults :
    Keeps (Idle v) (onFirst (modify clearResults) : Run Unit) := by
  rintro ⟨r, w⟩ h
  simp only [onFirst_apply, modify_apply, clearResults]
  split
  · exact h
  · exact h.runner rfl

theorem keeps_idle_finish (succeeded : Bool) : Keeps (Idle v) (finish succeeded) := by
  rintro ⟨r, w⟩ h
  simp only [finish, modify_apply]
  cases succeeded with
  | false => exact h.runner rfl
  | true =>
    obtain ⟨caches, log⟩ := Application.keeps_fillDeferred r.results r.deferred w
    refine ⟨h.isOpen, caches.trans h.caches_eq, ?_⟩
    simp only [if_true, log]
    exact h.quiet

theorem keeps_idle_lookup (db : Database) (hydrate : RowMapper → Rows → Run Rows) {st : Statement}
    (plain : st.mapper = none) (bounds : RowBounds) (key : CacheKey) (bound : BoundSql) :
    Keeps (Idle v) (lookup db hydrate st bounds key bound) := by
  intro s h
  rw [lookup_apply]
  cases s.1.results.find? key with
  | some entry =>
    cases entry with
    | inProgress => exact h
    | rows _ => exact h
  | none =>
    rw [select_plain plain]
    have quiet : Quiet v.log (s.2.report (.query bound.sql bound.parameters)).log :=
      h.quiet.concat rfl
    cases db.query (s.2.log ++ [.query bound.sql bound.parameters]) bound.sql bound.parameters with
    | error e => exact ⟨h.isOpen, h.caches_eq, quiet⟩
    | ok rows => exact ⟨h.isOpen, h.caches_eq, quiet⟩

theorem keeps_idle_query {ctx : Context} {st : Statement} (plain : st.mapper = none)
    (bounds : RowBounds) (key : CacheKey) (bound : BoundSql) :
    Keeps (Idle v) (queryWithKey ctx st bounds key bound) := by
  rintro ⟨r, w⟩ h
  have entered : Idle v (r.enter st, w) := by
    apply h.runner
    unfold enter clearResults
    split
    · split
      · rfl
      · rfl
    · rfl
  rw [queryWithKey, queryWithin_eq, queryVia_apply]
  split
  · exact h
  · have looked := keeps_idle_lookup ctx.database (hydrateWithin ctx ctx.nesting) plain bounds key
      bound _ entered
    have left : Idle v (Runner.leave _, _) := looked.runner rfl
    dsimp only
    split
    · exact keeps_idle_finish _ _ left
    · exact left

theorem Ends.idle {db : Database} {b : Boundary} {r : Runner} {w : World}
    {o : Outcome (Runner × World) Unit} (ends : Ends db b r w o) (h : Idle v (r, w)) :
    Idle v o.state := by
  have cleared := keeps_idle_clearResults _ h
  cases ends with
  | asked => exact keeps_idle_boundary db b _ cleared
  | unasked reply said => exact cleared

end Runner

namespace Application

def Plain (a : Application) : Prop :=
  ∀ id st, a.catalog.statement id = .ok st → st.mapper = none

theorem plain_pair (connect : Nat → Database) : (pair connect).Plain := by
  intro id st known
  simp only [pair, Catalog.statement, Table.get?_insert, Table.get?_empty] at known
  split at known
  · rename_i found
    cases known
    split at found
    · cases found
      rfl
    · split at found
      · cases found
        rfl
      · cases found
  · cases known

end Application
end StatementCache
