import StatementCache.Cache.Chain
import StatementCache.Config.CacheConfig

/-! Assembly of a shared cache: store, eviction layers in the order named, scheduled clear,
copying, counting, synchronization, blocking. Every layer is offered every property as it is
added, and a property that no layer takes is a mistake in the description. -/
namespace StatementCache

/-- Named stores and layers. Names are alike when they differ in the case of ASCII letters only. -/
structure CacheFactories where
  stores : Table String (String → Cache)
  decorators : Table String (Cache → Cache)

namespace CacheFactories

def defaultStore : String := "MAP"
def defaultEviction : String := "LRU"

def registerStore (f : CacheFactories) (name : String) (make : String → Cache) : CacheFactories :=
  { f with stores := f.stores.insert name.toUpper make }

def registerDecorator (f : CacheFactories) (name : String) (wrap : Cache → Cache) : CacheFactories :=
  { f with decorators := f.decorators.insert name.toUpper wrap }

def tieredDefault : Cache → Cache := Cache.tiered Tiers.defaultHotSize Tiers.defaultWarmCapacity none

def builtIn : CacheFactories :=
  let bare : CacheFactories := ⟨.empty, .empty⟩
  let stores := bare.registerStore defaultStore Cache.base
  let lru := stores.registerDecorator defaultEviction (Cache.lru Setting.defaultCapacity)
  let fifo := lru.registerDecorator "FIFO" (Cache.fifo Setting.defaultCapacity)
  (fifo.registerDecorator "SOFT" tieredDefault).registerDecorator "TIERED" tieredDefault

def store (f : CacheFactories) (name : String) : Except Fault (String → Cache) :=
  match f.stores.get? name.toUpper with
  | some make => .ok make
  | none => .error (.config ("unknown cache implementation '" ++ name ++ "'"))

def decorator (f : CacheFactories) (name : String) : Except Fault (Cache → Cache) :=
  match f.decorators.get? name.toUpper with
  | some wrap => .ok wrap
  | none => .error (.config ("unknown cache decorator '" ++ name ++ "'"))

end CacheFactories

structure Blueprint where
  id : String
  implementation : Option String
  decorators : List String
  size : Option UInt64
  clearInterval : Option Nat
  copyOnRead : Bool
  blocking : Bool
  blockingTimeout : Option Nat
  properties : Properties

namespace Blueprint

def ofId (id : String) : Blueprint where
  id := id
  implementation := none
  decorators := []
  size := none
  clearInterval := none
  copyOnRead := false
  blocking := false
  blockingTimeout := none
  properties := .empty

def ofConfig (c : CacheConfig) : Blueprint where
  id := c.id
  implementation := c.implementation
  decorators := c.eviction
  size := c.size
  clearInterval := c.flushInterval.map (·.toNat)
  copyOnRead := c.readOnly
  blocking := c.blocking
  blockingTimeout := c.blockingTimeout.map (·.toNat)
  properties := c.properties

structure Draft where
  cache : Cache
  taken : List String

variable {ω : Type}

def offer (site : Site ω) : List (String × String) → Draft → Action ω Draft
  | [], d => pure d
  | (name, value) :: rest, d => do
    let (known, cache) ← d.cache.assign site name value
    offer site rest ⟨cache, if known then name :: d.taken else d.taken⟩

def add (b : Blueprint) (site : Site ω) (wrap : Cache → Cache) (d : Draft) : Action ω Draft :=
  offer site b.properties.entries { d with cache := wrap d.cache }

def addEach (b : Blueprint) (site : Site ω) (factories : CacheFactories) :
    List String → Draft → Action ω Draft
  | [], d => pure d
  | name :: rest, d => do
    let wrap ← Action.ofExcept (factories.decorator name)
    addEach b site factories rest (← b.add site wrap d)

/-- The size of the description goes to the outermost eviction layer alone. -/
def applySize (b : Blueprint) (site : Site ω) (d : Draft) : Action ω Draft :=
  match b.size with
  | none => pure d
  | some size => do
    let (_, cache) ← d.cache.assign site "size" (toString size.toNat)
    pure { d with cache := cache }

/-- The layers above eviction. Copying, counting and synchronization have no settings. -/
def addStandard (b : Blueprint) (site : Site ω) (d : Draft) : Action ω Draft := do
  let d ← match b.clearInterval with
    | none => pure d
    | some interval => b.add site (Cache.scheduled interval site.now) d
  let cache := if b.copyOnRead then d.cache.serialized else d.cache
  let d : Draft := { d with cache := cache.counted.synchronized }
  if b.blocking then b.add site (Cache.blocking b.blockingTimeout) d else pure d

/-- A store of another name than the default one is only counted, whatever else is described. -/
def build (b : Blueprint) (site : Site ω) (factories : CacheFactories) : Action ω Cache := do
  let name := b.implementation.getD CacheFactories.defaultStore
  let make ← Action.ofExcept (factories.store name)
  let cache := make b.id
  if cache.id ≠ b.id then
    Action.fail (.config ("cache implementation '" ++ name ++ "' built id '" ++ cache.id ++
      "' instead of '" ++ b.id ++ "'"))
  else
    let d ← b.add site (fun _ => cache) ⟨cache, []⟩
    if name.toUpper ≠ CacheFactories.defaultStore then pure d.cache.counted
    else
      let names := if b.decorators.isEmpty then [CacheFactories.defaultEviction] else b.decorators
      let d ← b.addEach site factories names d
      let d ← b.applySize site d
      let d ← b.addStandard site d
      let left := b.properties.names.filter fun name => !d.taken.contains name
      if left.isEmpty then pure d.cache
      else
        Action.fail (.config ("cache '" ++ b.id ++ "' has no setting for properties: " ++
          ", ".intercalate left))

end Blueprint
end StatementCache
