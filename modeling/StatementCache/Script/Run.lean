import StatementCache.Script.Workspace

/-! Running scripts. A step that fails answers with its fault, and the script goes on. -/
namespace StatementCache.Script

abbrev Reply := Except Fault Answer × Workspace

namespace Workspace

variable {α : Type}

def answer (ws : Workspace) (a : Answer) : Reply := (.ok a, ws)

def onWorld (ws : Workspace) (m : Action World α) (shown : α → Answer) : Reply :=
  let o := m ws.world
  (o.result.map shown, { ws with world := o.state })

def onState {σ : Type} (ws : Workspace) (state : σ) (m : Action (σ × World) α)
    (write : σ → Workspace → Workspace) (shown : α → σ → Answer) : Reply :=
  let o := m (state, ws.world)
  (o.result.map fun a => shown a o.state.1, write o.state.1 { ws with world := o.state.2 })

def withCache (ws : Workspace) (name : String) (f : CacheRef → Reply) : Reply :=
  match ws.caches.get? name with
  | none => ws.answer (.unknown name)
  | some c => f c.ref

def withLayers (ws : Workspace) (name : String) (closed : Answer) (f : CacheRef → Reply) : Reply :=
  match ws.caches.get? name with
  | none => ws.answer (.unknown name)
  | some c => if c.isOpen then f c.ref else ws.answer closed

def inspection (key : Option CacheKey) : Cache → Inspection
  | ⟨.base id, entries⟩ =>
    let entries : Entries := entries
    .base (entries.diagnose id) (key.map entries.contains)
  | ⟨.lru _, state⟩ => .capacity (Prod.fst state : Recency).capacity
  | ⟨.fifo _, state⟩ => .capacity (Prod.fst state : Arrivals).capacity
  | ⟨.tiered _, state⟩ => .hotSize (Prod.fst state : Tiers).hotSize
  | ⟨.scheduled _, state⟩ => .clearInterval (Prod.fst state : Schedule).interval
  | ⟨.counted _, state⟩ =>
    let counters : Counters := Prod.fst state
    .hitRatio (Stats.ratio counters.requests counters.hits)
  | ⟨.blocking _, state⟩ =>
    let locks : Locks := Prod.fst state
    .locks locks.timeout locks.byKey.size
  | _ => .nothing

def drainReclaimed (site : Site World) : (c : Cache) → Action (c.chain.State × World) Nat
  | ⟨.tiered inner, _⟩ => fun s =>
    let s : (Tiers × inner.State) × World := s
    let o := Layer.drain (inner.store site) (s.1.1, (s.1.2, s.2))
    ⟨o.result, ((o.state.1, o.state.2.1), o.state.2.2)⟩
  | ⟨_, _⟩ => pure 0

def cacheStep (ws : Workspace) (host : Host) (name : String)
    (shown : α → Answer) (m : Store World → Action World α) : Reply :=
  ws.withCache name fun ref => ws.onWorld (m (World.store host ref)) shown

def overlayStep (ws : Workspace) (name : String) (m : Action (Overlay × World) α)
    (shown : α → Overlay → Answer) : Reply :=
  match ws.overlays.get? name with
  | none => ws.answer (.unknown name)
  | some o => ws.onState o m (fun o ws => { ws with overlays := ws.overlays.insert name o }) shown

def managerStep (ws : Workspace) (name : String) (m : Action (Overlays × World) α)
    (shown : α → Overlays → Answer) : Reply :=
  ws.onState ((ws.managers.get? name).getD .empty) m
    (fun os ws => { ws with managers := ws.managers.insert name os }) shown

def showTouched (_ : Unit) (os : Overlays) : Answer := .touched os.touched

def executorStep (ws : Workspace) (thread : Thread) (name : String)
    (m : Context → Executor.Run α) (shown : α → Executor → Answer) : Reply :=
  match ws.executors.get? name with
  | none => ws.answer (.unknown name)
  | some e =>
    ws.onState e.executor (m (ws.context thread ws.catalog e.plain))
      (fun x ws => { ws with executors := ws.executors.insert name { e with executor := x } }) shown

def callStep (ws : Workspace) (thread : Thread) (name : String) (call : Call)
    (m : Context → Statement → Executor.Run α) (shown : α → Executor → Answer) : Reply :=
  ws.executorStep thread name (fun ctx => do
    let st ← Action.ofExcept (ctx.find call.statement)
    m ctx st) shown

def keyFor (call : Call) (key : Option CacheKey) (st : Statement) : Executor.Run CacheKey := do
  match key with
  | some k => pure k
  | none => return (← Action.get).1.keyOf st call.bounds (st.source call.parameters)

def nestedStep (r : Except Fault NestedValue × Workspace) (slot : String) : Reply :=
  match r with
  | (.error e, ws) => (.error e, ws)
  | (.ok v, ws) => { ws with slots := ws.slots.insert slot v }.answer (.nested (view ws.world v))

def callNested (ws : Workspace) (thread : Thread) (name slot : String) (call : Call)
    (m : Context → Statement → Executor.Run NestedValue) : Reply :=
  match ws.executors.get? name with
  | none => ws.answer (.unknown name)
  | some e =>
    let ctx := ws.context thread ws.catalog e.plain
    let o := (do
      let st ← Action.ofExcept (ctx.find call.statement)
      m ctx st : Executor.Run NestedValue) (e.executor, ws.world)
    nestedStep (o.result, { ws with
      world := o.state.2
      executors := ws.executors.insert name { e with executor := o.state.1 } }) slot

def sessionStep (ws : Workspace) (thread : Thread) (name : String)
    (m : Context → Session.Run α) (shown : α → Answer) : Reply :=
  match ws.sessions.get? name with
  | none => ws.answer (.unknown name)
  | some s =>
    ws.onState s.session (m (ws.context thread (ws.catalogAt s.catalog) s.plain))
      (fun x ws => { ws with sessions := ws.sessions.insert name { s with session := x } })
      fun a _ => shown a

def dropSession (ws : Workspace) (thread : Thread) (name : String) : Workspace :=
  let (_, ws) := ws.sessionStep thread name Session.dropped fun _ => .done
  { ws with sessions := ws.sessions.erase name }

def slotStep (ws : Workspace) (slot : String) : Reply :=
  match ws.slots.get? slot with
  | none => ws.answer (.unknown slot)
  | some v => ws.answer (.nested (view ws.world v))

def localStep (ws : Workspace) (c : Results) : Reply :=
  { ws with results := c }.answer (.localSize (Table.size c))

def done (_ : Unit) : Answer := .done

def runStep (ws : Workspace) (thread : Thread) : Step → Reply
  | .table sql rows => { ws with tables := ws.tables.insert sql rows }.answer .done
  | .refuse operations => { ws with refused := operations }.answer .done
  | .takeLog =>
    { ws with world := { ws.world with log := [] } }.answer (.texts (ws.world.log.map Event.display))
  | .takeNested =>
    { ws with world := { ws.world with kept := [] } }.answer
      (.nestedList (ws.world.kept.map (view ws.world)))
  | .layers name bottom layers =>
    let host := ws.host thread
    let place (c : Cache) : Reply :=
      (ws.nameCache name true (layers.foldl (fun c layer => layer.wrap host.now c) c)).answer .done
    match bottom with
    | .base id => place (.base id)
    | .shared target => ws.withCache target fun ref => place (.shared ref)
  | .build name blueprint =>
    let o := blueprint.build (World.siteAt (ws.host thread) 0) ws.factories ws.world
    let ws := { ws with world := o.state }
    match o.result with
    | .error e => (.error e, ws)
    | .ok c => (ws.nameCache name false c).answer .done
  | .registerStore name layer =>
    { ws with factories := ws.factories.registerStore name fun id => layer.wrap 0 (.base id) }.answer .done
  | .registerDecorator name layer =>
    { ws with factories := ws.factories.registerDecorator name (layer.wrap 0) }.answer .done
  | .dropCache name => { ws with caches := ws.caches.erase name }.answer .done
  | .assign name setting value =>
    ws.withLayers name (.flag false) fun ref =>
      ws.onWorld (World.onCache ref fun c =>
        (c.chain.store (World.siteAt (ws.host thread) ref.serial)).assign setting value) .flag
  | .inspect name key =>
    ws.withLayers name (.inspection .nothing) fun ref =>
      match ws.world.caches.get? ref.serial with
      | none => ws.answer (.unknown name)
      | some c => ws.answer (.inspection (inspection key c))
  | .drain name =>
    ws.withLayers name (.count 0) fun ref =>
      ws.onWorld (World.onCache ref (drainReclaimed (World.siteAt (ws.host thread) ref.serial))) .count
  | .put name k e => ws.cacheStep (ws.host thread) name done fun s => s.put k e
  | .get name k => ws.cacheStep (ws.host thread) name .entry fun s => s.get k
  | .remove name k => ws.cacheStep (ws.host thread) name .entry fun s => s.remove k
  | .clear name => ws.cacheStep (ws.host thread) name done fun s => s.clear
  | .size name => ws.cacheStep (ws.host thread) name .count fun s => Action.total s.size
  | .id name => ws.withCache name fun ref => ws.answer (.text ref.id)
  | .stats name => ws.cacheStep (ws.host thread) name .stats fun s => Action.total s.stats
  | .getLater name k thread handle =>
    ws.withCache name fun ref =>
      { ws with later := ws.later.insert handle (ref, k, thread) }.answer .started
  | .join handle =>
    match ws.later.get? handle with
    | none => ws.answer (.unknown handle)
    | some (ref, k, thread) =>
      let (thread, ws) := ws.threadOf (some thread)
      { ws with later := ws.later.erase handle }.onWorld
        ((World.store (ws.host thread) ref).get k) .entry
  | .openOverlay name cache =>
    ws.withCache cache fun ref =>
      { ws with overlays := ws.overlays.insert name (.fresh ref) }.answer .done
  | .overlayGet name k =>
    ws.overlayStep name (Overlay.get (World.find? (ws.host thread)) k) fun e _ => .entry e
  | .overlayPut name k e =>
    ws.overlayStep name (Action.onFirst (Action.modify (·.put k e))) fun _ o => .overlay o
  | .overlayClear name =>
    ws.overlayStep name (Action.onFirst (Action.modify Overlay.clear)) fun _ o => .overlay o
  | .overlayCommit name =>
    ws.overlayStep name (Overlay.commit (World.find? (ws.host thread))) fun _ o => .overlay o
  | .overlayRollback name =>
    ws.overlayStep name (Overlay.rollback (World.find? (ws.host thread))) fun _ o => .overlay o
  | .overlayState name => ws.overlayStep name (pure ()) fun _ o => .overlay o
  | .managerGet name cache k =>
    ws.withCache cache fun ref =>
      ws.managerStep name (Overlays.get (World.find? (ws.host thread)) ref k) fun e _ => .entry e
  | .managerPut name cache k e =>
    ws.withCache cache fun ref => ws.managerStep name (Overlays.put ref k e) showTouched
  | .managerClear name cache =>
    ws.withCache cache fun ref => ws.managerStep name (Overlays.clear ref) showTouched
  | .managerCommit name =>
    ws.managerStep name (Overlays.commit (World.find? (ws.host thread))) showTouched
  | .managerRollback name =>
    ws.managerStep name (Overlays.rollback (World.find? (ws.host thread))) showTouched
  | .managerTouched name => ws.managerStep name (pure ()) showTouched
  | .newCatalog settings builtInOnly =>
    match settings with
    | .error e => (.error e, ws)
    | .ok settings =>
      let factories := if builtInOnly then CacheFactories.builtIn else ws.factories
      { ws with
        catalogs := ws.catalogs ++ [Catalog.ofSettings settings factories]
        current := ws.catalogs.length }.answer (.catalog settings.cacheEnabled)
  | .buildCache config =>
    match config with
    | .error e => (.error e, ws)
    | .ok config =>
      let o := Catalog.buildCache config (ws.host thread) (ws.catalog, ws.world)
      let ws := { ws with world := o.state.2 }.setCatalog o.state.1
      match o.result with
      | .error e => (.error e, ws)
      | .ok ref => { ws with caches := ws.caches.insert ref.id ⟨ref, false⟩ }.answer (.text ref.id)
  | .addCache name =>
    ws.withCache name fun ref =>
      match ws.catalog.addCache ref with
      | .error e => (.error e, ws)
      | .ok c => (ws.setCatalog c).answer .done
  | .removeCache id =>
    match ws.catalog.removeCache id with
    | .error e => (.error e, ws)
    | .ok (ref, c) => (ws.setCatalog c).answer (.text ref.id)
  | .findCache id => ws.answer (.found ((ws.catalog.cache? id).map (·.id)))
  | .cacheIds => ws.answer (.texts ws.catalog.cacheIds)
  | .clearCaches => ws.onWorld (ws.catalog.clearCaches (ws.host thread)) done
  | .addStatement st cache =>
    let add (st : Statement) : Reply :=
      match ws.catalog.addStatement st with
      | .error e => (.error e, ws)
      | .ok c => (ws.setCatalog c).answer (.statement st)
    match cache with
    | none => add st
    | some name => ws.withCache name fun ref => add { st with cache := some ref }
  | .showStatement id parameters =>
    match ws.catalog.statement id with
    | .error e => (.error e, ws)
    | .ok st => ws.answer (.binding (st.source parameters) (st.cache.map (·.id)))
  | .hasStatement id => ws.answer (.flag (ws.catalog.hasStatement id))
  | .newExecutor name kind plain =>
    let settings := ws.catalog.settings
    let executor : Executor := match kind with
      | .runner => .alone (.ofSettings settings)
      | .coordinated => .coordinated (.ofRunner (.ofSettings settings))
      | .catalog => ws.catalog.newExecutor
    { ws with executors := ws.executors.insert name ⟨executor, kind, plain⟩ }.answer .done
  | .executorState name =>
    match ws.executors.get? name with
    | none => ws.answer (.unknown name)
    | some e =>
      match e.kind, e.executor with
      | .runner, x => ws.answer (.runnerState x.runner)
      | .coordinated, .coordinated c => ws.answer (.coordinatorState c.runner.closed c.pendingCaches)
      | _, x => ws.answer (.closed x.isClosed)
  | .executorCommit name required =>
    ws.executorStep thread name (fun ctx => Executor.commit ctx required) fun _ _ => .done
  | .executorRollback name required =>
    ws.executorStep thread name (fun ctx => Executor.rollback ctx required) fun _ _ => .done
  | .executorClose name force =>
    ws.executorStep thread name (fun ctx => Executor.close ctx force) fun _ _ => .done
  | .executorClear name => ws.executorStep thread name (fun _ => Executor.clearResults) fun _ _ => .done
  | .query name call key =>
    ws.callStep thread name call (fun ctx st => do
      let k ← keyFor call key st
      Executor.queryWithKey ctx st call.bounds k (st.source call.parameters)) fun r _ => .rows r
  | .update name call =>
    ws.callStep thread name call (fun ctx st => Executor.update ctx st call.parameters)
      fun n _ => .changed n
  | .keyOf name call key =>
    ws.callStep thread name call (fun _ st => keyFor call key st) fun k _ => .key k
  | .isCached name call key =>
    ws.callStep thread name call (fun _ st => do
      let k ← keyFor call key st
      return (← Action.get).1.isCached k) fun b _ => .flag b
  | .load name call slot =>
    ws.callNested thread name slot call fun ctx st => Executor.load ctx st call.parameters
  | .defer name call key slot =>
    ws.callNested thread name slot call fun _ st => do
      let k ← keyFor call key st
      let place ← Action.onSecond (Action.total World.newSlot)
      Executor.onRunner (Runner.defer k place)
      pure (.deferred place)
  | .openSession name plain =>
    let ws := if ws.sessions.contains name then ws.dropSession thread name else ws
    { ws with
      sessions := ws.sessions.insert name ⟨.opened ws.catalog, ws.current, plain⟩ }.answer .done
  | .selectList name call =>
    ws.sessionStep thread name
      (fun ctx => Session.selectList ctx call.statement call.parameters call.bounds) .rows
  | .selectOne name call =>
    ws.sessionStep thread name (fun ctx => Session.selectOne ctx call.statement call.parameters) .row
  | .write name call =>
    ws.sessionStep thread name (fun ctx => Session.update ctx call.statement call.parameters) .changed
  | .sessionCommit name force =>
    ws.sessionStep thread name (fun ctx => Session.commit ctx force) done
  | .sessionRollback name force =>
    ws.sessionStep thread name (fun ctx => Session.rollback ctx force) done
  | .sessionClear name => ws.sessionStep thread name (fun _ => Session.clearCache) done
  | .sessionClose name => ws.sessionStep thread name Session.close done
  | .sessionDrop name => (ws.dropSession thread name).answer .done
  | .sessionState name =>
    match ws.sessions.get? name with
    | none => ws.answer (.unknown name)
    | some s => ws.answer (.session s.session.dirty s.session.isClosed)
  | .newSlot name =>
    let (slot, world) := ws.world.newSlot
    { ws with world := world, slots := ws.slots.insert name (.deferred slot) }.slotStep name
  | .fillSlot name rows =>
    match ws.slots.get? name with
    | some (.deferred slot) => { ws with world := ws.world.fill slot rows }.slotStep name
    | _ => ws.slotStep name
  | .copySlot source name =>
    match ws.slots.get? source with
    | none => ws.answer (.unknown source)
    | some v => { ws with slots := ws.slots.insert name v }.slotStep name
  | .showSlot name => ws.slotStep name
  | .localMark k => ws.localStep (ws.results.mark k)
  | .localComplete k rows => ws.localStep (ws.results.complete k rows)
  | .localAbort k => ws.localStep (ws.results.abort k)
  | .localClear => ws.localStep .empty
  | .localGet k => ws.answer (.localEntry (ws.results.find? k))

/-- One step on the named thread, or on the main one. Caches that nobody owns after it are gone. -/
def run (ws : Workspace) (thread : Option String) (step : Step) : Reply :=
  let (number, ws) := ws.threadOf thread
  let (result, ws) := ws.runStep number step
  (result, ws.sweep)

end Workspace

def run (steps : List (Option String × Step)) : List (Except Fault Answer) :=
  go .start steps
where
  go (ws : Workspace) : List (Option String × Step) → List (Except Fault Answer)
    | [] => []
    | (thread, step) :: rest =>
      let (result, ws) := ws.run thread step
      result :: go ws rest

end StatementCache.Script
