import StatementCache.Catalog

/-! A unit of work. A session knows whether it has written, and bothers the database at the end
only when it has, or when it is told to. -/
namespace StatementCache

structure Session where
  executor : Executor
  /-- A write was tried since the last commit or rollback that succeeded. -/
  dirty : Bool

namespace Session

abbrev Run := Action (Session × World)

variable {α : Type}

def opened (c : Catalog) : Session := ⟨c.newExecutor, false⟩

def isClosed (s : Session) : Bool := s.executor.isClosed

def onExecutor (m : Executor.Run α) : Run α := fun (s, w) =>
  let o := m (s.executor, w)
  ⟨o.result, ({ s with executor := o.state.1 }, o.state.2)⟩

def selectList (ctx : Context) (id : String) (parameters : List Value) (bounds : RowBounds) :
    Run Rows := do
  let st ← Action.ofExcept (ctx.find id)
  onExecutor (Executor.query ctx st parameters bounds)

def selectOne (ctx : Context) (id : String) (parameters : List Value) : Run (Option Row) := do
  match ← selectList ctx id parameters .default with
  | [] => pure none
  | [row] => pure (some row)
  | rows => Action.fail (.tooManyResults id rows.length)

/-- Inserts, updates and deletes. An attempt makes the session dirty even when it fails. -/
def update (ctx : Context) (id : String) (parameters : List Value) : Run UInt64 := do
  let st ← Action.ofExcept (ctx.find id)
  Action.onFirst (Action.modify fun s => { s with dirty := true })
  onExecutor (Executor.update ctx st parameters)

def markClean : Run Unit := Action.onFirst (Action.modify fun s => { s with dirty := false })

def commit (ctx : Context) (force : Bool) : Run Unit := do
  onExecutor (Executor.commit ctx ((← Action.get).1.dirty || force))
  markClean

def rollback (ctx : Context) (force : Bool) : Run Unit := do
  onExecutor (Executor.rollback ctx ((← Action.get).1.dirty || force))
  markClean

def clearCache : Run Unit := onExecutor Executor.clearResults

/-- Uncommitted work is rolled back. -/
def close (ctx : Context) : Run Unit := do
  let result ← Action.attempt (onExecutor (Executor.close ctx (← Action.get).1.dirty))
  markClean
  Action.ofExcept result

def dropped (ctx : Context) : Run Unit := do
  if !(← Action.get).1.isClosed then discard (Action.attempt (close ctx))

end Session
end StatementCache
