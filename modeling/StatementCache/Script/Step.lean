import StatementCache.Session

/-! Scripts: steps that name caches, overlays, executors and sessions, and what each step
answers. -/
namespace StatementCache.Script

inductive LayerSpec where
  | lru (capacity : Option Nat)
  | fifo (capacity : Option Nat)
  | tiered (sizes : Option (Nat × Nat)) (timeToLive : Option Nat)
  | scheduled (interval : Nat)
  | serialized
  | counted
  | synchronized
  | blocking (timeout : Option Nat)
  | recording
  | faulty

def LayerSpec.wrap (now : Nat) : LayerSpec → Cache → Cache
  | .lru capacity => Cache.lru (capacity.getD Setting.defaultCapacity)
  | .fifo capacity => Cache.fifo (capacity.getD Setting.defaultCapacity)
  | .tiered (some (hot, warm)) timeToLive => Cache.tiered hot warm timeToLive
  | .tiered none _ => CacheFactories.tieredDefault
  | .scheduled interval => Cache.scheduled interval now
  | .serialized => Cache.serialized
  | .counted => Cache.counted
  | .synchronized => Cache.synchronized
  | .blocking timeout => Cache.blocking timeout
  | .recording => Cache.recording
  | .faulty => Cache.faulty

inductive Bottom where
  | base (id : String)
  | shared (cache : String)

inductive ExecutorKind where
  | runner
  | coordinated
  /-- What the settings of the catalog ask for. -/
  | catalog

structure Call where
  statement : String
  parameters : List Value
  bounds : RowBounds

inductive Step where
  -- surroundings
  | table (sql : String) (rows : Rows)
  | refuse (operations : List Operation)
  | takeLog
  | takeNested
  -- caches
  | layers (cache : String) (bottom : Bottom) (layers : List LayerSpec)
  | build (cache : String) (blueprint : Blueprint)
  | registerStore (name : String) (layer : LayerSpec)
  | registerDecorator (name : String) (layer : LayerSpec)
  | dropCache (cache : String)
  | assign (cache name value : String)
  | inspect (cache : String) (key : Option CacheKey)
  | drain (cache : String)
  | put (cache : String) (key : CacheKey) (entry : Entry)
  | get (cache : String) (key : CacheKey)
  | remove (cache : String) (key : CacheKey)
  | clear (cache : String)
  | size (cache : String)
  | id (cache : String)
  | stats (cache : String)
  | getLater (cache : String) (key : CacheKey) (thread handle : String)
  | join (handle : String)
  -- overlays
  | openOverlay (overlay cache : String)
  | overlayGet (overlay : String) (key : CacheKey)
  | overlayPut (overlay : String) (key : CacheKey) (entry : Entry)
  | overlayClear (overlay : String)
  | overlayCommit (overlay : String)
  | overlayRollback (overlay : String)
  | overlayState (overlay : String)
  -- sets of overlays
  | managerGet (manager cache : String) (key : CacheKey)
  | managerPut (manager cache : String) (key : CacheKey) (entry : Entry)
  | managerClear (manager cache : String)
  | managerCommit (manager : String)
  | managerRollback (manager : String)
  | managerTouched (manager : String)
  -- catalogs
  | newCatalog (settings : Except Fault Settings) (builtInOnly : Bool)
  | buildCache (config : Except Fault CacheConfig)
  | addCache (cache : String)
  | removeCache (id : String)
  | findCache (id : String)
  | cacheIds
  | clearCaches
  | addStatement (statement : Statement) (cache : Option String)
  | showStatement (id : String) (parameters : List Value)
  | hasStatement (id : String)
  -- executors
  | newExecutor (executor : String) (kind : ExecutorKind) (plain : Bool)
  | executorState (executor : String)
  | executorCommit (executor : String) (required : Bool)
  | executorRollback (executor : String) (required : Bool)
  | executorClose (executor : String) (force : Bool)
  | executorClear (executor : String)
  | query (executor : String) (call : Call) (key : Option CacheKey)
  | update (executor : String) (call : Call)
  | keyOf (executor : String) (call : Call) (key : Option CacheKey)
  | isCached (executor : String) (call : Call) (key : Option CacheKey)
  | load (executor : String) (call : Call) (slot : String)
  | defer (executor : String) (call : Call) (key : Option CacheKey) (slot : String)
  -- sessions
  | openSession (session : String) (plain : Bool)
  | selectList (session : String) (call : Call)
  | selectOne (session : String) (call : Call)
  | write (session : String) (call : Call)
  | sessionCommit (session : String) (force : Bool)
  | sessionRollback (session : String) (force : Bool)
  | sessionClear (session : String)
  | sessionClose (session : String)
  | sessionDrop (session : String)
  | sessionState (session : String)
  -- slots
  | newSlot (slot : String)
  | fillSlot (slot : String) (rows : Rows)
  | copySlot (source slot : String)
  | showSlot (slot : String)
  -- a statement cache on its own
  | localMark (key : CacheKey)
  | localComplete (key : CacheKey) (rows : Rows)
  | localAbort (key : CacheKey)
  | localClear
  | localGet (key : CacheKey)

inductive Inspection where
  | base (text : String) (contains : Option Bool)
  | capacity (n : Nat)
  | hotSize (n : Nat)
  | clearInterval (millis : Nat)
  | hitRatio (ratio : Binary64)
  | locks (timeout : Option Nat) (active : Nat)
  | nothing

inductive NestedView where
  | loaded (rows : Rows)
  | deferred (rows : Option Rows)

inductive Answer where
  | done
  | started
  | flag (b : Bool)
  | count (n : Nat)
  | changed (n : UInt64)
  | text (s : String)
  | texts (lines : List String)
  | entry (e : Option Entry)
  | rows (r : Rows)
  | row (r : Option Row)
  | stats (s : Option Stats)
  | inspection (i : Inspection)
  | overlay (o : Overlay)
  | touched (n : Nat)
  | catalog (cacheEnabled : Bool)
  | found (id : Option String)
  | statement (st : Statement)
  | binding (bound : BoundSql) (cache : Option String)
  | runnerState (r : Runner)
  | coordinatorState (closed : Bool) (pending : Nat)
  | closed (b : Bool)
  | key (k : CacheKey)
  | nested (v : NestedView)
  | nestedList (vs : List NestedView)
  | session (dirty closed : Bool)
  | localSize (n : Nat)
  | localEntry (entry : Option ResultEntry)
  /-- The step names something that is not there. -/
  | unknown (name : String)

end StatementCache.Script
