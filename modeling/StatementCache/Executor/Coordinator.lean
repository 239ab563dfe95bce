import StatementCache.Executor.Runner
import StatementCache.Overlay.Set

/-! An executor in front of the shared caches. A select of a statement with a cache asks the
overlay first and buffers what it had to run; buffered results and clears reach the shared caches
only after the database has committed. -/
namespace StatementCache

structure Coordinator where
  runner : Runner
  overlays : Overlays

namespace Coordinator

abbrev Run := Action (Coordinator × World)

variable {α : Type}

def ofRunner (r : Runner) : Coordinator := ⟨r, .empty⟩

def pendingCaches (c : Coordinator) : Nat := c.overlays.touched

def onRunner (m : Runner.Run α) : Run α := fun (c, w) =>
  let o := m (c.runner, w)
  ⟨o.result, ({ c with runner := o.state.1 }, o.state.2)⟩

def onOverlays (m : Action (Overlays × World) α) : Run α := fun (c, w) =>
  let o := m (c.overlays, w)
  ⟨o.result, ({ c with overlays := o.state.1 }, o.state.2)⟩

def ensureOpen : Run Unit := onRunner Runner.ensureOpen

/-- The clear that a statement asks for waits for the commit. -/
def flushIfRequired (st : Statement) : Run Unit :=
  match st.cache with
  | none => pure ()
  | some ref => if st.flushCacheRequired then onOverlays (Overlays.clear ref) else pure ()

def ensureCacheable (st : Statement) : Run Unit :=
  if st.kind = .callable ∧ st.hasOutParameters then
    Action.fail (.unsupportedCaching ("statement '" ++ st.id ++
      "' has OUT parameters; set useCache=false"))
  else pure ()

def cachedRows (host : Host) (ref : CacheRef) (key : CacheKey) : Run (Option Rows) := do
  match ← onOverlays (Overlays.get (World.find? host) ref key) with
  | none => pure none
  | some (.rows r) => pure (some r)
  | some e =>
    Action.fail (.config ("cache '" ++ ref.id ++ "' holds " ++ e.diagnose ++ " for key " ++
      key.display ++ "; expected rows"))

def queryWithKey (ctx : Context) (st : Statement) (bounds : RowBounds) (key : CacheKey)
    (bound : BoundSql) : Run Rows := do
  ensureOpen
  match st.cache with
  | none => onRunner (Runner.queryWithKey ctx st bounds key bound)
  | some ref =>
    flushIfRequired st
    if !st.useCache then onRunner (Runner.queryWithKey ctx st bounds key bound)
    else
      ensureCacheable st
      match ← cachedRows ctx.host ref key with
      | some rows => pure rows
      | none =>
        let rows ← onRunner (Runner.queryWithKey ctx st bounds key bound)
        onOverlays (Overlays.put ref key (.rows rows))
        pure rows

def update (ctx : Context) (st : Statement) (parameters : List Value) : Run UInt64 := do
  ensureOpen
  flushIfRequired st
  onRunner (Runner.update ctx.database st parameters)

/-- Nothing is published unless the database has committed. -/
def commit (ctx : Context) (required : Bool) : Run Unit := do
  onRunner (Runner.commit ctx.database required)
  onOverlays (Overlays.commit (World.find? ctx.host))

def rollback (ctx : Context) (required : Bool) : Run Unit :=
  Action.both (onRunner (Runner.rollback ctx.database required))
    (onOverlays (Overlays.rollback (World.find? ctx.host)))

/-- A close that rolls back does so before the overlays are given up; any other close publishes
what is buffered before the database closes. The fault of the database counts first. -/
def close (ctx : Context) (rollbackRequired : Bool) : Run Unit := do
  if rollbackRequired then
    Action.both (onRunner (Runner.close ctx.database true))
      (onOverlays (Overlays.rollback (World.find? ctx.host)))
  else
    let published ← Action.attempt (onOverlays (Overlays.commit (World.find? ctx.host)))
    let closed ← Action.attempt (onRunner (Runner.close ctx.database false))
    Action.ofExcept (closed.bind fun _ => published)

end Coordinator
end StatementCache
