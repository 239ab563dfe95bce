import StatementCache.Script.Step

/-! The state of a script: what its names stand for, and what surrounds them. -/
namespace StatementCache.Script

/-- A cache that a name stands for. The layers of a cache that the script has put together can be
looked into; an assembled cache is closed. -/
structure NamedCache where
  ref : CacheRef
  isOpen : Bool

structure NamedExecutor where
  executor : Executor
  kind : ExecutorKind
  plain : Bool

structure NamedSession where
  session : Session
  catalog : Nat
  plain : Bool

structure Workspace where
  world : World
  refused : List Operation
  tables : Table String Rows
  factories : CacheFactories
  /-- All catalogs ever made; sessions hold on to the one they were opened by. -/
  catalogs : List Catalog
  /-- The number of the catalog in use. -/
  current : Nat
  caches : Table String NamedCache
  overlays : Table String Overlay
  managers : Table String Overlays
  executors : Table String NamedExecutor
  sessions : Table String NamedSession
  slots : Table String NestedValue
  results : Results
  /-- Lookups that run when they are joined. -/
  later : Table String (CacheRef × CacheKey × String)
  /-- Threads in the order in which they were named; the main thread has the number zero. -/
  threads : List String

namespace Workspace

def startFactories : CacheFactories :=
  let stores := (((CacheFactories.builtIn.registerStore "memo" Cache.base).registerStore "Renamed"
    (fun _ => Cache.base "other")).registerStore "recording-store"
    (fun id => (Cache.base id).recording)).registerStore "faulty-store" (fun id => (Cache.base id).faulty)
  (stores.registerDecorator "recording" Cache.recording).registerDecorator "faulty" Cache.faulty

def start : Workspace where
  world := .empty
  refused := []
  tables := .empty
  factories := startFactories
  catalogs := [.ofSettings .default startFactories]
  current := 0
  caches := .empty
  overlays := .empty
  managers := .empty
  executors := .empty
  sessions := .empty
  slots := .empty
  results := .empty
  later := .empty
  threads := []

def host (ws : Workspace) (thread : Thread) : Host :=
  ⟨thread, 0, fun _ op => ws.refused.contains op⟩

def threadOf (ws : Workspace) : Option String → Thread × Workspace
  | none => (0, ws)
  | some name =>
    if name ∈ ws.threads then (ws.threads.idxOf name + 1, ws)
    else (ws.threads.length + 1, { ws with threads := ws.threads ++ [name] })

/-- The rows whose first value equals the first parameter, or all rows without parameters. -/
def matching (parameters : List Value) (rows : Rows) : Rows :=
  match parameters with
  | [] => rows
  | p :: _ => rows.filter fun row => row.head?.any (·.equal p)

def database (ws : Workspace) (plain : Bool) : Database :=
  let orRefuse {α : Type} (op : Operation) (answer : Except Fault α) : Except Fault α :=
    if ws.refused.contains op then .error (.refused op) else answer
  let db : Database := {
    query := fun _ sql parameters => orRefuse .query <|
      match ws.tables.get? sql with
      | none => .error (.execution ("no such table for: " ++ sql))
      | some rows => .ok (matching parameters rows)
    execute := fun _ _ parameters => orRefuse .execute (.ok (UInt64.ofNat parameters.length))
    boundary := fun b => some fun _ => orRefuse b.operation (.ok ()) }
  if plain then db.withoutBoundaries else db

def catalogAt (ws : Workspace) (n : Nat) : Catalog :=
  (ws.catalogs[n]?).getD (.ofSettings .default ws.factories)

def catalog (ws : Workspace) : Catalog := ws.catalogAt ws.current

def setCatalog (ws : Workspace) (c : Catalog) : Workspace :=
  { ws with catalogs := ws.catalogs.set ws.current c }

/-- More nested queries than there can be distinct keys: every nested key has a statement and a
value of some table, or null. -/
def nesting (ws : Workspace) (c : Catalog) : Nat :=
  let values := ws.tables.values.foldl (fun n rows => rows.foldl (fun n row => n + row.length) n) 0
  (c.statements.size + 1) * (values + 2)

def context (ws : Workspace) (thread : Thread) (c : Catalog) (plain : Bool) : Context :=
  ⟨ws.host thread, ws.database plain, c.statement, ws.nesting c⟩

def owned (ws : Workspace) : List Nat :=
  let inUse := ws.current :: ws.sessions.values.map (·.catalog)
  let ofCatalog (n : Nat) : List CacheRef :=
    let c := ws.catalogAt n
    c.caches.values ++ c.statements.values.filterMap (·.cache)
  ((ws.caches.values.map (·.ref) ++ ws.later.values.map (·.1)) ++ inUse.flatMap ofCatalog).map (·.serial)

/-- The owned caches, and those that they reach. A cache reaches older ones only, so one pass from
the youngest to the oldest finds all. -/
def reachable (ws : Workspace) : List Nat :=
  ws.world.caches.entries.reverse.foldl (fun found (serial, c) =>
    match c.chain.target? with
    | some target => if serial ∈ found then target.serial :: found else found
    | none => found) ws.owned

def sweep (ws : Workspace) : Workspace :=
  let live := ws.reachable
  { ws with world := { ws.world with caches := ws.world.caches.filter fun s => live.contains s } }

def nameCache (ws : Workspace) (name : String) (isOpen : Bool) (c : Cache) : Workspace :=
  let (ref, world) := ws.world.addCache c
  { ws with world := world, caches := ws.caches.insert name ⟨ref, isOpen⟩ }

def view (w : World) : NestedValue → NestedView
  | .loaded rows => .loaded rows
  | .deferred slot => .deferred (w.slotRows slot)

end Workspace
end StatementCache.Script
