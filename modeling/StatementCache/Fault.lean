import StatementCache.Json.Reader

/-! Why an operation fails. -/
namespace StatementCache

inductive Operation where
  | put
  | get
  | remove
  | clear
  | query
  | execute
  | commit
  | rollback
  | close
  deriving DecidableEq

namespace Operation

def all : List Operation := [.put, .get, .remove, .clear, .query, .execute, .commit, .rollback, .close]

def name : Operation → String
  | .put => "put"
  | .get => "get"
  | .remove => "remove"
  | .clear => "clear"
  | .query => "db.query"
  | .execute => "db.execute"
  | .commit => "db.commit"
  | .rollback => "db.rollback"
  | .close => "db.close"

end Operation

inductive Fault where
  /-- Another thread kept the key's lock for longer than the caller would wait. -/
  | lockTimeout (cache key : String) (millis : UInt64)
  | notSerializable (reason : String)
  | serialization (reason : String)
  | config (reason : String)
  | cacheUnavailable (reason : String)
  /-- The key's query is running further up in the same executor. -/
  | queryInProgress (key : String)
  | unsupportedCaching (reason : String)
  | statementNotFound (id : String)
  | tooManyResults (statement : String) (found : Nat)
  | executorClosed
  | execution (reason : String)
  | json (problem : Json.Problem)
  /-- Nested queries went deeper than the run allows. -/
  | nestedTooDeep
  deriving DecidableEq

namespace Fault

def refused (op : Operation) : Fault := .execution (op.name ++ " refused")

/-- The wording of JSON problems is not fixed. -/
def message : Fault → String
  | .lockTimeout cache key millis =>
    "Timed out after " ++ toString millis.toNat ++ "ms waiting for lock on key " ++ key ++
      " in cache " ++ cache
  | .notSerializable reason => "Value is not serializable: " ++ reason
  | .serialization reason => "Serialization error: " ++ reason
  | .config reason => "Cache configuration error: " ++ reason
  | .cacheUnavailable reason => "Cache unavailable: " ++ reason
  | .queryInProgress key => "Query already in progress for key: " ++ key
  | .unsupportedCaching reason => "Caching not supported: " ++ reason
  | .statementNotFound id => "Mapped statement not found: " ++ id
  | .tooManyResults statement found =>
    "Expected one row from " ++ statement ++ ", found " ++ toString found
  | .executorClosed => "Executor was closed"
  | .execution reason => "Execution error: " ++ reason
  | .json _ => "JSON error"
  | .nestedTooDeep => "Nested queries are too deep"

def isCacheFault : Fault → Bool
  | .execution _ => false
  | _ => true

def isRetryable : Fault → Bool
  | .lockTimeout _ _ _ => true
  | _ => false

end Fault
end StatementCache
