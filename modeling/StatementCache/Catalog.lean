import StatementCache.Cache.Blueprint
import StatementCache.Executor.Basic

/-! Settings, factories, and the caches and statements that are known by their ids. -/
namespace StatementCache

structure Catalog where
  settings : Settings
  factories : CacheFactories
  caches : Table String CacheRef
  statements : Table String Statement

namespace Catalog

def ofSettings (settings : Settings) (factories : CacheFactories) : Catalog :=
  ⟨settings, factories, .empty, .empty⟩

def cache? (c : Catalog) (id : String) : Option CacheRef := c.caches.get? id

def addCache (c : Catalog) (ref : CacheRef) : Except Fault Catalog :=
  if c.caches.contains ref.id then .error (.config ("Cache '" ++ ref.id ++ "' already exists"))
  else .ok { c with caches := c.caches.insert ref.id ref }

/-- Statements that use the cache go on doing so. -/
def removeCache (c : Catalog) (id : String) : Except Fault (CacheRef × Catalog) :=
  match c.cache? id with
  | none => .error (.config ("Cache '" ++ id ++ "' not found"))
  | some ref => .ok (ref, { c with caches := c.caches.erase id })

def cacheIds (c : Catalog) : List String := c.caches.keys.mergeSort fun a b => decide (a ≤ b)

def addStatement (c : Catalog) (st : Statement) : Except Fault Catalog :=
  if c.statements.contains st.id then
    .error (.config ("Mapped statement '" ++ st.id ++ "' already exists"))
  else .ok { c with statements := c.statements.insert st.id st }

def hasStatement (c : Catalog) (id : String) : Bool := c.statements.contains id

def statement (c : Catalog) (id : String) : Except Fault Statement :=
  match c.statements.get? id with
  | some st => .ok st
  | none => .error (.statementNotFound id)

/-- Builds a cache and registers it; a cache whose id is taken is built in vain. -/
def buildCache (config : CacheConfig) (host : Host) : Action (Catalog × World) CacheRef :=
  fun (c, w) =>
    let o := (Blueprint.ofConfig config).build (World.siteAt host 0) c.factories w
    match o.result with
    | .error e => ⟨.error e, (c, o.state)⟩
    | .ok cache =>
      let (ref, w) := o.state.addCache cache
      match c.addCache ref with
      | .error e => ⟨.error e, (c, w)⟩
      | .ok c => ⟨.ok ref, (c, w)⟩

/-- Clears every registered cache, and tries all of them. -/
def clearCaches (c : Catalog) (host : Host) : Action World Unit :=
  Action.all (c.caches.values.map fun ref => (World.store host ref).clear)

def newExecutor (c : Catalog) : Executor := .ofSettings c.settings

end Catalog
end StatementCache
