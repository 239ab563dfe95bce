import StatementCache.World

/-! Mapped statements: what the caches have to know of a statement, and what happens to the rows
of a select before the caller sees them. -/
namespace StatementCache

inductive StatementKind where
  | select
  | insert
  | update
  | delete
  /-- A stored procedure. -/
  | callable
  deriving DecidableEq

namespace StatementKind

def isSelect (k : StatementKind) : Bool := k == .select

def name : StatementKind → String
  | .select => "Select"
  | .insert => "Insert"
  | .update => "Update"
  | .delete => "Delete"
  | .callable => "Callable"

end StatementKind

structure BoundSql where
  sql : String
  parameters : List Value

/-- The work of a row mapper on the rows it was given: what it finally answers, and the calls it
makes on the way, each with what it does next for every reply. Statements are called by their
ids, under the keys that the executor makes for them. -/
inductive Hydration where
  | done (rows : Rows)
  | failed (fault : Fault)
  /-- Asks whether a statement is known. -/
  | find (id : String) (next : Except Fault Unit → Hydration)
  /-- A nested select that may be answered later. -/
  | load (id : String) (parameters : List Value) (next : Except Fault NestedValue → Hydration)
  | query (id : String) (parameters : List Value) (bounds : RowBounds)
      (next : Except Fault Rows → Hydration)
  /-- Asks whether the executor knows the result of a select, completed or in progress. -/
  | cached (id : String) (parameters : List Value) (bounds : RowBounds)
      (next : Except Fault Bool → Hydration)
  | update (id : String) (parameters : List Value) (next : Except Fault UInt64 → Hydration)
  | commit (required : Bool) (next : Except Fault Unit → Hydration)
  | rollback (required : Bool) (next : Except Fault Unit → Hydration)
  /-- Forgets the results of the executor. -/
  | clear (next : Hydration)
  /-- Takes a nested value into its result. -/
  | keep (value : NestedValue) (next : Hydration)

abbrev RowMapper := Rows → Hydration

structure Statement where
  id : String
  kind : StatementKind
  source : List Value → BoundSql
  useCache : Bool
  flushCacheRequired : Bool
  hasOutParameters : Bool
  cache : Option CacheRef
  mapper : Option RowMapper

namespace Statement

def fixedSource (sql : String) (parameters : List Value) : BoundSql := ⟨sql, parameters⟩

/-- Selects use the shared cache; every other kind flushes it. -/
def ofSql (id : String) (kind : StatementKind) (sql : String) : Statement where
  id := id
  kind := kind
  source := fixedSource sql
  useCache := kind.isSelect
  flushCacheRequired := !kind.isSelect
  hasOutParameters := false
  cache := none
  mapper := none

def diagnose (s : Statement) : String :=
  let bool (b : Bool) : String := if b then "true" else "false"
  let cache := match s.cache with
    | none => "None"
    | some ref => "Some(" ++ Text.quoted ref.id ++ ")"
  "MappedStatement \x7b id: " ++ Text.quoted s.id ++ ", kind: " ++ s.kind.name ++
    ", use_cache: " ++ bool s.useCache ++ ", flush_cache_required: " ++
    bool s.flushCacheRequired ++ ", cache: " ++ cache ++ " \x7d"

end Statement
end StatementCache
