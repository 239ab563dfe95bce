import StatementCache.Config.Properties
import StatementCache.Config.Settings

/-! The declarative description of one shared cache, and its JSON form. -/
namespace StatementCache

structure CacheConfig where
  id : String
  implementation : Option String
  eviction : List String
  size : Option UInt64
  flushInterval : Option UInt64
  readOnly : Bool
  blocking : Bool
  blockingTimeout : Option UInt64
  properties : Properties

namespace CacheConfig

def ofId (id : String) : CacheConfig where
  id := id
  implementation := none
  eviction := ["LRU"]
  size := none
  flushInterval := none
  readOnly := false
  blocking := false
  blockingTimeout := none
  properties := .empty

/-- One policy in place of all that were named before. -/
def withEviction (c : CacheConfig) (name : String) : CacheConfig := { c with eviction := [name] }

def withSize (c : CacheConfig) (size : UInt64) : CacheConfig := { c with size := some size }

def withFlushInterval (c : CacheConfig) (millis : UInt64) : CacheConfig :=
  { c with flushInterval := some millis }

def withReadOnly (c : CacheConfig) (readOnly : Bool) : CacheConfig := { c with readOnly := readOnly }

def withBlocking (c : CacheConfig) (timeout : Option UInt64) : CacheConfig :=
  { c with blocking := true, blockingTimeout := timeout }

def withProperty (c : CacheConfig) (name value : String) : CacheConfig :=
  { c with properties := c.properties.insert name value }

def wordJson (n : UInt64) : Json := .integer n.toNat

def toJson (c : CacheConfig) : Json :=
  .object [("id", .string c.id),
    ("implementation", Json.ofOption .string c.implementation),
    ("eviction", .array (c.eviction.map .string)),
    ("size", Json.ofOption wordJson c.size),
    ("flushInterval", Json.ofOption wordJson c.flushInterval),
    ("readOnly", .bool c.readOnly),
    ("blocking", .bool c.blocking),
    ("blockingTimeout", Json.ofOption wordJson c.blockingTimeout),
    ("properties", .object (c.properties.entries.map fun (name, value) => (name, .string value)))]

structure Draft where
  id : Option String
  implementation : Option (Option String)
  eviction : Option (List String)
  size : Option (Option UInt64)
  flushInterval : Option (Option UInt64)
  readOnly : Option Bool
  blocking : Option Bool
  blockingTimeout : Option (Option UInt64)
  properties : Option Properties

namespace Draft

def empty : Draft := ⟨none, none, none, none, none, none, none, none, none⟩

def complete (d : Draft) : Json.Reader CacheConfig := do
  let base := ofId (← Json.Reader.required d.id)
  pure {
    id := base.id
    implementation := d.implementation.getD base.implementation
    eviction := d.eviction.getD base.eviction
    size := d.size.getD base.size
    flushInterval := d.flushInterval.getD base.flushInterval
    readOnly := d.readOnly.getD base.readOnly
    blocking := d.blocking.getD base.blocking
    blockingTimeout := d.blockingTimeout.getD base.blockingTimeout
    properties := d.properties.getD base.properties }

end Draft

open Json Reader

/-- Of a name that occurs twice the later value holds. -/
def propertiesReader : Reader Properties := do
  match ← look with
  | some '\x7b' =>
    advance
    members (fun name p => return p.insert name (← memberValue string)) Properties.empty
  | _ => mismatch

def member (name : String) (d : Draft) : Reader Draft :=
  match name with
  | "id" => return { d with id := ← once d.id string }
  | "implementation" => return { d with implementation := ← once d.implementation (optional string) }
  | "eviction" => return { d with eviction := ← once d.eviction (array string) }
  | "size" => return { d with size := ← once d.size (optional word) }
  | "flushInterval" => return { d with flushInterval := ← once d.flushInterval (optional word) }
  | "readOnly" => return { d with readOnly := ← once d.readOnly bool }
  | "blocking" => return { d with blocking := ← once d.blocking bool }
  | "blockingTimeout" =>
    return { d with blockingTimeout := ← once d.blockingTimeout (optional word) }
  | "properties" => return { d with properties := ← once d.properties propertiesReader }
  | _ => do
    memberValue skip
    pure d

/-- The fields of an array are those of the object in their order; only the id has to be there. -/
def positional : Reader CacheConfig := do
  let id ← position true string
  let base ← (Draft.complete { Draft.empty with id := id })
  let implementation ← position false (optional string)
  let eviction ← position false (array string)
  let size ← position false (optional word)
  let flushInterval ← position false (optional word)
  let readOnly ← position false bool
  let blocking ← position false bool
  let blockingTimeout ← position false (optional word)
  let properties ← position false propertiesReader
  let config ← Draft.complete ⟨some base.id, implementation, eviction, size, flushInterval, readOnly,
    blocking, blockingTimeout, properties⟩
  closeArray
  pure config

def reader : Reader CacheConfig := do
  match ← look with
  | some '[' => advance; positional
  | some '\x7b' => advance; (← members member Draft.empty).complete
  | _ => mismatch

def ofJson (text : String) : Except Fault CacheConfig := (read reader text).mapError Fault.json

end CacheConfig
end StatementCache
