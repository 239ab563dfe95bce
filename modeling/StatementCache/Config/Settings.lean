import StatementCache.Fault
import StatementCache.Json.Basic
import StatementCache.Json.Shape
import StatementCache.Json.Skip

/-! Settings that hold for every statement of a catalog, and their JSON form. -/
namespace StatementCache

inductive LocalCacheScope where
  | session
  | statement
  deriving DecidableEq

namespace LocalCacheScope

def name : LocalCacheScope → String
  | .session => "Session"
  | .statement => "Statement"

def keyword : LocalCacheScope → String
  | .session => "SESSION"
  | .statement => "STATEMENT"

open Json Reader in
def ofKeyword (s : String) : Reader LocalCacheScope :=
  if s = keyword .session then pure .session
  else if s = keyword .statement then pure .statement
  else fail .mismatched

open Json Reader in
/-- The keyword alone, or an object that maps it to null. -/
def reader : Reader LocalCacheScope := do
  match ← look with
  | none => fail .truncated
  | some '"' => advance; ofKeyword (← stringBody)
  | some '\x7b' =>
    advance
    let scope ← ofKeyword (← quotedName)
    memberValue null
    punctuation '\x7d'
    pure scope
  | some _ => fail .malformed

end LocalCacheScope

structure Settings where
  cacheEnabled : Bool
  localCacheScope : LocalCacheScope
  environmentId : Option String
  deriving DecidableEq

namespace Settings

def default : Settings := ⟨true, .session, none⟩

def localOnly : Settings := { default with cacheEnabled := false }

def statementScope : Settings := { default with localCacheScope := .statement }

def testing : Settings := { default with environmentId := some "test" }

def toJson (s : Settings) : Json :=
  .object [("cacheEnabled", .bool s.cacheEnabled),
    ("localCacheScope", .string s.localCacheScope.keyword),
    ("environmentId", Json.ofOption .string s.environmentId)]

structure Draft where
  cacheEnabled : Option Bool
  localCacheScope : Option LocalCacheScope
  environmentId : Option (Option String)

def Draft.complete (d : Draft) : Settings where
  cacheEnabled := d.cacheEnabled.getD default.cacheEnabled
  localCacheScope := d.localCacheScope.getD default.localCacheScope
  environmentId := d.environmentId.getD default.environmentId

open Json Reader

def member (name : String) (d : Draft) : Reader Draft :=
  match name with
  | "cacheEnabled" => return { d with cacheEnabled := ← once d.cacheEnabled bool }
  | "localCacheScope" =>
    return { d with localCacheScope := ← once d.localCacheScope LocalCacheScope.reader }
  | "environmentId" => return { d with environmentId := ← once d.environmentId (optional string) }
  | _ => do
    memberValue skip
    pure d

def positional : Reader Draft := do
  let cacheEnabled ← position true bool
  let localCacheScope ← position false LocalCacheScope.reader
  let environmentId ← position false (optional string)
  closeArray
  pure ⟨cacheEnabled, localCacheScope, environmentId⟩

def reader : Reader Settings := do
  match ← look with
  | some '[' => advance; return (← positional).complete
  | some '\x7b' => advance; return (← members member ⟨none, none, none⟩).complete
  | _ => mismatch

def ofJson (text : String) : Except Fault Settings := (read reader text).mapError Fault.json

end Settings
end StatementCache
