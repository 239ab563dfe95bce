import StatementCache.Config.Settings
import StatementCache.Executor.Database
import StatementCache.Executor.Results

/-! Running statements against a database, with the results of one executor kept for it alone.
Nested selects of a row mapper run in the same executor. A nested select of a key that is already
known is answered when the outermost query is done. -/
namespace StatementCache

structure Runner where
  scope : LocalCacheScope
  environmentId : Option String
  results : Results
  /-- Slots that wait for the result of a key, in the order in which they were handed out. -/
  deferred : List (CacheKey × Slot)
  /-- The number of queries that are running inside one another. -/
  depth : Nat
  closed : Bool

/-- What an executor needs to run: who acts, the database, and the statements that row mappers may
call. Row mappers run inside one another at most `nesting` deep. -/
structure Context where
  host : Host
  database : Database
  find : String → Except Fault Statement
  nesting : Nat

namespace Runner

def ofSettings (s : Settings) : Runner where
  scope := s.localCacheScope
  environmentId := s.environmentId
  results := .empty
  deferred := []
  depth := 0
  closed := false

/-- Everything that decides a result: statement, bounds, text, parameters, and the environment if
there is one. -/
def keyOf (r : Runner) (st : Statement) (bounds : RowBounds) (bound : BoundSql) : CacheKey :=
  let common := CacheKey.ofValues
    [.text st.id, .integer bounds.offset.toInt64, .integer bounds.limit.toInt64, .text bound.sql]
  let key := common.updateAll bound.parameters
  match r.environmentId with
  | none => key
  | some environment => key.update (.text environment)

def clearResults (r : Runner) : Runner := if r.closed then r else { r with results := .empty }

theorem clearResults_of_closed {r : Runner} (closed : r.closed = true) : r.clearResults = r := by
  rw [clearResults, if_pos closed]

theorem clearResults_of_open {r : Runner} (isOpen : ¬r.closed = true) :
    r.clearResults = { r with results := .empty } := by
  rw [clearResults, if_neg isOpen]

abbrev Run := Action (Runner × World)

def ensureOpen : Run Unit := do
  if (← Action.get).1.closed then Action.fail .executorClosed

def fillDeferred (results : Results) (waiting : List (CacheKey × Slot)) (w : World) : World :=
  waiting.foldl (fun w (k, slot) =>
    match results.rows? k with
    | some r => w.fill slot r
    | none => w) w

/-- After the outermost query: waiting slots are settled, and dropped when it failed; results that
are kept for one statement only are forgotten. -/
def finish (succeeded : Bool) : Run Unit := Action.modify fun (r, w) =>
  ({ r with
      deferred := []
      results := if r.scope = .statement then .empty else r.results },
    if succeeded then fillDeferred r.results r.deferred w else w)

def select (db : Database) (hydrate : RowMapper → Rows → Run Rows) (st : Statement)
    (bounds : RowBounds) (bound : BoundSql) : Run Rows := do
  let rows := bounds.page (← Action.onSecond (db.runQuery bound))
  match st.mapper with
  | none => pure rows
  | some mapper => hydrate mapper rows

def lookup (db : Database) (hydrate : RowMapper → Rows → Run Rows) (st : Statement)
    (bounds : RowBounds) (key : CacheKey) (bound : BoundSql) : Run Rows := do
  match (← Action.get).1.results.find? key with
  | some (.rows r) => pure r
  | some .inProgress => Action.fail (.queryInProgress key.display)
  | none =>
    Action.onFirst (Action.modify fun r => { r with results := r.results.mark key })
    match ← Action.attempt (select db hydrate st bounds bound) with
    | .ok rows =>
      Action.onFirst (Action.modify fun r => { r with results := r.results.complete key rows })
      pure rows
    | .error e =>
      Action.onFirst (Action.modify fun r => { r with results := r.results.abort key })
      Action.fail e

theorem lookup_apply (db : Database) (hydrate : RowMapper → Rows → Run Rows) (st : Statement)
    (bounds : RowBounds) (key : CacheKey) (bound : BoundSql) (r : Runner) (w : World) :
    lookup db hydrate st bounds key bound (r, w) =
      match r.results.find? key with
      | some (.rows rows) => ⟨.ok rows, (r, w)⟩
      | some .inProgress => ⟨.error (.queryInProgress key.display), (r, w)⟩
      | none =>
        match select db hydrate st bounds bound ({ r with results := r.results.mark key }, w) with
        | ⟨.ok rows, (r, w)⟩ => ⟨.ok rows, ({ r with results := r.results.complete key rows }, w)⟩
        | ⟨.error e, (r, w)⟩ => ⟨.error e, ({ r with results := r.results.abort key }, w)⟩ := by
  simp only [lookup, Action.bind_apply, Action.get_apply]
  rcases r.results.find? key with _ | _ | rows
  · simp only [Action.bind_apply, Action.onFirst_apply, Action.modify_apply, Action.attempt_apply]
    rcases select db hydrate st bounds bound ({ r with results := r.results.mark key }, w) with
      ⟨e | rows, r, w⟩
    · rfl
    · rfl
  · rfl
  · rfl

def queryVia (db : Database) (hydrate : RowMapper → Rows → Run Rows) (st : Statement)
    (bounds : RowBounds) (key : CacheKey) (bound : BoundSql) : Run Rows := do
  ensureOpen
  if (← Action.get).1.depth = 0 ∧ st.flushCacheRequired then
    Action.onFirst (Action.modify clearResults)
  Action.onFirst (Action.modify fun r => { r with depth := r.depth + 1 })
  let result ← Action.attempt (lookup db hydrate st bounds key bound)
  Action.onFirst (Action.modify fun r => { r with depth := r.depth - 1 })
  if (← Action.get).1.depth = 0 then finish result.isOk
  Action.ofExcept result

theorem ensureOpen_apply (r : Runner) (w : World) :
    ensureOpen (r, w) = if r.closed then ⟨.error .executorClosed, (r, w)⟩ else ⟨.ok (), (r, w)⟩ := by
  simp only [ensureOpen, Action.bind_apply, Action.get_apply]
  cases r.closed with
  | true => rfl
  | false => rfl

def enter (st : Statement) (r : Runner) : Runner :=
  let begun := if r.depth = 0 ∧ st.flushCacheRequired then r.clearResults else r
  { begun with depth := begun.depth + 1 }

def leave (r : Runner) : Runner := { r with depth := r.depth - 1 }

theorem queryVia_apply (db : Database) (hydrate : RowMapper → Rows → Run Rows) (st : Statement)
    (bounds : RowBounds) (key : CacheKey) (bound : BoundSql) (r : Runner) (w : World) :
    queryVia db hydrate st bounds key bound (r, w) =
      if r.closed then ⟨.error .executorClosed, (r, w)⟩
      else
        let o := lookup db hydrate st bounds key bound (r.enter st, w)
        let s := (o.state.1.leave, o.state.2)
        ⟨o.result, if s.1.depth = 0 then (finish o.result.isOk s).state else s⟩ := by
  have settled (result : Except Fault Rows) (s : Runner × World) :
      (do if (← Action.get).1.depth = 0 then finish result.isOk
          Action.ofExcept result : Run Rows) s =
        ⟨result, if s.1.depth = 0 then (finish result.isOk s).state else s⟩ := by
    simp only [Action.bind_apply, Action.get_apply]
    split <;> rfl
  simp only [queryVia, Action.bind_apply, ensureOpen_apply, Action.get_apply]
  cases r.closed with
  | true => rfl
  | false =>
    simp only [Bool.false_eq_true, if_false, enter]
    split
    · exact settled _ _
    · exact settled _ _

def update (db : Database) (st : Statement) (parameters : List Value) : Run UInt64 := do
  ensureOpen
  Action.onFirst (Action.modify clearResults)
  Action.onSecond (db.runExecute (st.source parameters))

def commit (db : Database) (required : Bool) : Run Unit := do
  ensureOpen
  Action.onFirst (Action.modify clearResults)
  if required then Action.onSecond (db.runBoundary .commit)

theorem commit_apply (db : Database) (required : Bool) (r : Runner) (w : World) :
    commit db required (r, w) =
      if r.closed then ⟨.error .executorClosed, (r, w)⟩
      else
        let ended := if required then db.runBoundary .commit w else ⟨.ok (), w⟩
        ⟨ended.result, ({ r with results := .empty }, ended.state)⟩ := by
  simp only [commit, Action.bind_apply, ensureOpen_apply]
  cases closed : r.closed with
  | true => rfl
  | false =>
    simp only [Bool.false_eq_true, if_false, Action.onFirst_apply, Action.modify_apply,
      clearResults, closed]
    cases required with
    | true => rfl
    | false => rfl

/-- Nothing is left to undo in a closed executor. -/
def rollback (db : Database) (required : Bool) : Run Unit := do
  if !(← Action.get).1.closed then
    Action.onFirst (Action.modify clearResults)
    if required then Action.onSecond (db.runBoundary .rollback)

theorem rollback_apply (db : Database) (required : Bool) (r : Runner) (w : World) :
    rollback db required (r, w) =
      if r.closed then ⟨.ok (), (r, w)⟩
      else
        let ended := if required then db.runBoundary .rollback w else ⟨.ok (), w⟩
        ⟨ended.result, ({ r with results := .empty }, ended.state)⟩ := by
  simp only [rollback, Action.bind_apply, Action.get_apply]
  cases closed : r.closed with
  | true => rfl
  | false =>
    simp only [Bool.not_false, Bool.false_eq_true, if_true, if_false, Action.bind_apply,
      Action.onFirst_apply, Action.modify_apply, clearResults, closed]
    cases required with
    | true => rfl
    | false => rfl

/-- What the end of a unit of work comes to: the results are forgotten, and the database is asked
if there is something to ask it. -/
inductive Ends (db : Database) (b : Boundary) (r : Runner) (w : World) :
    Outcome (Runner × World) Unit → Prop where
  | asked : Ends db b r w
      ⟨(db.runBoundary b w).result, (r.clearResults, (db.runBoundary b w).state)⟩
  | unasked (reply : Except Fault Unit)
      (said : reply = .ok () ∨ r.closed = true ∧ reply = .error .executorClosed) :
      Ends db b r w ⟨reply, (r.clearResults, w)⟩

theorem ends_commit (db : Database) (required : Bool) (r : Runner) (w : World) :
    Ends db .commit r w (commit db required (r, w)) := by
  rw [commit_apply]
  split
  · have ended : Ends db .commit r w _ := .unasked (.error .executorClosed) (.inr ⟨‹_›, rfl⟩)
    rwa [clearResults_of_closed ‹_›] at ended
  · rw [← clearResults_of_open ‹_›]
    cases required with
    | true => exact .asked
    | false => exact .unasked (.ok ()) (.inl rfl)

theorem ends_rollback (db : Database) (required : Bool) (r : Runner) (w : World) :
    Ends db .rollback r w (rollback db required (r, w)) := by
  rw [rollback_apply]
  split
  · have ended : Ends db .rollback r w _ := .unasked (.ok ()) (.inl rfl)
    rwa [clearResults_of_closed ‹_›] at ended
  · rw [← clearResults_of_open ‹_›]
    cases required with
    | true => exact .asked
    | false => exact .unasked (.ok ()) (.inl rfl)

/-- A slot that receives the result of the key: at once when it is known, otherwise when the
outermost query is done. -/
def defer (key : CacheKey) (slot : Slot) : Run Unit := do
  ensureOpen
  match (← Action.get).1.results.rows? key with
  | some r => Action.onSecond (Action.modify (World.fill slot r))
  | none => Action.onFirst (Action.modify fun r => { r with deferred := r.deferred ++ [(key, slot)] })

/-- A nested select: a key that is known, completed or not, is not run again. -/
def loadVia (query : Statement → RowBounds → CacheKey → BoundSql → Run Rows) (st : Statement)
    (parameters : List Value) : Run NestedValue := do
  let bound := st.source parameters
  let (r, _) ← Action.get
  let key := r.keyOf st .default bound
  if r.results.contains key then
    let slot ← Action.onSecond (Action.total World.newSlot)
    defer key slot
    pure (.deferred slot)
  else return .loaded (← query st .default key bound)

def withKey (query : Statement → RowBounds → CacheKey → BoundSql → Run Rows) (st : Statement)
    (parameters : List Value) (bounds : RowBounds) : Run Rows := do
  let bound := st.source parameters
  query st bounds ((← Action.get).1.keyOf st bounds bound) bound

def isCached (st : Statement) (parameters : List Value) (bounds : RowBounds) : Run Bool := do
  let (r, _) ← Action.get
  pure (r.results.contains (r.keyOf st bounds (st.source parameters)))

/-- A reply for a row mapper. A run that is too deep ends as a whole, no mapper sees it. -/
def reply {α : Type} (m : Run α) : Run (Except Fault α) := do
  match ← Action.attempt m with
  | .error .nestedTooDeep => Action.fail .nestedTooDeep
  | r => pure r

def hydrateVia (ctx : Context) (query : Statement → RowBounds → CacheKey → BoundSql → Run Rows) :
    Hydration → Run Rows
  | .done rows => pure rows
  | .failed e => Action.fail e
  | .find id next => hydrateVia ctx query (next ((fun _ => ()) <$> ctx.find id))
  | .load id parameters next => do
    let r ← reply do
      let st ← Action.ofExcept (ctx.find id)
      loadVia query st parameters
    hydrateVia ctx query (next r)
  | .query id parameters bounds next => do
    let r ← reply do
      let st ← Action.ofExcept (ctx.find id)
      withKey query st parameters bounds
    hydrateVia ctx query (next r)
  | .cached id parameters bounds next => do
    let r ← reply do
      let st ← Action.ofExcept (ctx.find id)
      isCached st parameters bounds
    hydrateVia ctx query (next r)
  | .update id parameters next => do
    let r ← reply do
      let st ← Action.ofExcept (ctx.find id)
      update ctx.database st parameters
    hydrateVia ctx query (next r)
  | .commit required next => do
    let r ← reply (commit ctx.database required)
    hydrateVia ctx query (next r)
  | .rollback required next => do
    let r ← reply (rollback ctx.database required)
    hydrateVia ctx query (next r)
  | .clear next => do
    Action.onFirst (Action.modify clearResults)
    hydrateVia ctx query next
  | .keep value next => do
    Action.onSecond (Action.modify fun w => { w with kept := w.kept ++ [value] })
    hydrateVia ctx query next

def queryWithin (ctx : Context) :
    Nat → Statement → RowBounds → CacheKey → BoundSql → Run Rows
  | 0 => queryVia ctx.database fun _ _ => Action.fail .nestedTooDeep
  | nesting + 1 => queryVia ctx.database fun mapper rows =>
      hydrateVia ctx (queryWithin ctx nesting) (mapper rows)

def queryWithKey (ctx : Context) : Statement → RowBounds → CacheKey → BoundSql → Run Rows :=
  queryWithin ctx ctx.nesting

/-- Closed is closed, whatever the database answers; a failed rollback is what the caller hears
of first. -/
def close (db : Database) (rollbackRequired : Bool) : Run Unit := do
  if !(← Action.get).1.closed then
    let rolledBack ← Action.attempt (rollback db rollbackRequired)
    let closed ← Action.attempt (Action.onSecond (db.runBoundary .close))
    Action.onFirst (Action.modify fun r =>
      { r with closed := true, results := .empty, deferred := [] })
    Action.ofExcept (rolledBack.bind fun _ => closed)

theorem close_apply (db : Database) (required : Bool) (r : Runner) (w : World) :
    close db required (r, w) =
      if r.closed then ⟨.ok (), (r, w)⟩
      else
        let undone := rollback db required (r, w)
        let ended := db.runBoundary .close undone.state.2
        ⟨undone.result.bind fun _ => ended.result,
          ({ undone.state.1 with closed := true, results := .empty, deferred := [] },
            ended.state)⟩ := by
  simp only [close, Action.bind_apply, Action.get_apply]
  cases closed : r.closed with
  | true => rfl
  | false =>
    simp only [Bool.not_false, Bool.false_eq_true, if_true, if_false]
    rfl

end Runner
end StatementCache
