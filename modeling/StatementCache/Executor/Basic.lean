import StatementCache.Executor.Coordinator

/-! The two kinds of executor behind one set of operations. -/
namespace StatementCache

inductive Executor where
  /-- No shared caches. -/
  | alone (r : Runner)
  | coordinated (c : Coordinator)

namespace Executor

abbrev Run := Action (Executor × World)

variable {α : Type}

/-- With caching disabled nothing stands in front of the statements. -/
def ofSettings (s : Settings) : Executor :=
  if s.cacheEnabled then .coordinated (.ofRunner (.ofSettings s)) else .alone (.ofSettings s)

def runner : Executor → Runner
  | .alone r => r
  | .coordinated c => c.runner

def isClosed (e : Executor) : Bool := e.runner.closed

def keyOf (e : Executor) : Statement → RowBounds → BoundSql → CacheKey := e.runner.keyOf

def isCached (e : Executor) (key : CacheKey) : Bool := e.runner.results.contains key

def either (alone : Runner.Run α) (coordinated : Coordinator.Run α) : Run α := fun (e, w) =>
  match e with
  | .alone r =>
    let o := alone (r, w)
    ⟨o.result, (.alone o.state.1, o.state.2)⟩
  | .coordinated c =>
    let o := coordinated (c, w)
    ⟨o.result, (.coordinated o.state.1, o.state.2)⟩

def onRunner (m : Runner.Run α) : Run α := either m (Coordinator.onRunner m)

def queryWithKey (ctx : Context) (st : Statement) (bounds : RowBounds) (key : CacheKey)
    (bound : BoundSql) : Run Rows :=
  either (Runner.queryWithKey ctx st bounds key bound) (Coordinator.queryWithKey ctx st bounds key bound)

def query (ctx : Context) (st : Statement) (parameters : List Value) (bounds : RowBounds) :
    Run Rows := do
  let bound := st.source parameters
  queryWithKey ctx st bounds ((← Action.get).1.keyOf st bounds bound) bound

def load (ctx : Context) (st : Statement) (parameters : List Value) : Run NestedValue := do
  let bound := st.source parameters
  let (e, _) ← Action.get
  let key := e.keyOf st .default bound
  if e.isCached key then
    let slot ← Action.onSecond (Action.total World.newSlot)
    onRunner (Runner.defer key slot)
    pure (.deferred slot)
  else return .loaded (← queryWithKey ctx st .default key bound)

def update (ctx : Context) (st : Statement) (parameters : List Value) : Run UInt64 :=
  either (Runner.update ctx.database st parameters) (Coordinator.update ctx st parameters)

def commit (ctx : Context) (required : Bool) : Run Unit :=
  either (Runner.commit ctx.database required) (Coordinator.commit ctx required)

def rollback (ctx : Context) (required : Bool) : Run Unit :=
  either (Runner.rollback ctx.database required) (Coordinator.rollback ctx required)

def close (ctx : Context) (rollbackRequired : Bool) : Run Unit :=
  either (Runner.close ctx.database rollbackRequired) (Coordinator.close ctx rollbackRequired)

def clearResults : Run Unit := onRunner (Action.onFirst (Action.modify Runner.clearResults))

end Executor
end StatementCache
