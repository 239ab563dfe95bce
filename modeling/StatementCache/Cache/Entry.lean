import StatementCache.Value.Json
import StatementCache.Value.Text

/-! What a shared cache holds under a key. -/
namespace StatementCache

/-- An object of the running process. Handles with equal names are different objects when their
serial numbers differ. -/
structure Handle where
  serial : Nat
  name : String
  deriving DecidableEq

inductive Entry where
  /-- A statement's result. -/
  | rows (result : Rows)
  /-- The bytes of a result. -/
  | snapshot (bytes : List UInt8)
  | handle (h : Handle)
  /-- Says that a lookup missed; readers take it for an absent value. -/
  | placeholder

namespace Entry

def isPlaceholder : Entry → Bool
  | .placeholder => true
  | _ => false

def asRows? : Entry → Option Rows
  | .rows r => some r
  | _ => none

def equal : Entry → Entry → Bool
  | .rows a, .rows b => a.equal b
  | .snapshot a, .snapshot b => a == b
  | .handle a, .handle b => a.serial == b.serial
  | .placeholder, .placeholder => true
  | _, _ => false

def diagnose : Entry → String
  | .rows r => "Rows(" ++ r.diagnose ++ ")"
  | .snapshot bytes => "Serialized(<" ++ toString bytes.length ++ " bytes>)"
  | .handle _ => "Handle(..)"
  | .placeholder => "Null"

def short : Entry → Json
  | .rows r => .object [("rows", r.short)]
  | .snapshot bytes => .object [("bytes", .string (Text.hex bytes))]
  | .handle h => .object [("handle", .string h.name)]
  | .placeholder => .string "null"

end Entry
end StatementCache
