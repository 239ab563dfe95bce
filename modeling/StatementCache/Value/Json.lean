import StatementCache.Json.Basic
import StatementCache.Json.Shape
import StatementCache.Json.Skip
import StatementCache.Text.Bytes
import StatementCache.Value.Basic

/-! Two JSON forms of a value. The tagged form names the kind of every value and is read back; the
short form leaves the kind of the common ones to JSON and stands in log lines. -/
namespace StatementCache

open Json Reader

def Scalar.tagged : Scalar → Json
  | .integer n => .object [("Integer", .integer n.toInt)]
  | .float x => .object [("Float", .float x)]
  | .bool b => .object [("Bool", .bool b)]
  | .text s => .object [("Text", .string s)]
  | .bytes content => .object [("Bytes", .array (content.map fun b => .integer b.toNat))]
  | .timestamp t => .object [("Timestamp", .integer t.toInt)]
  | .null => .string "Null"

def Scalar.short : Scalar → Json
  | .integer n => .integer n.toInt
  | .float x => .object [("f", .string (Text.hex64 x.bits))]
  | .bool b => .bool b
  | .text s => .string s
  | .bytes content => .object [("x", .string (Text.hex content))]
  | .timestamp t => .object [("t", .integer t.toInt)]
  | .null => .null

namespace Value

mutual

def tagged : Value → Json
  | .scalar s => s.tagged
  | .list items => .object [("List", .array (taggedItems items))]

def taggedItems : List Value → List Json
  | [] => []
  | v :: vs => tagged v :: taggedItems vs

end

mutual

def short : Value → Json
  | .scalar s => s.short
  | .list items => .array (shortItems items)

def shortItems : List Value → List Json
  | [] => []
  | v :: vs => short v :: shortItems vs

end

def arrayWithin {α : Type} (inner : Nat) (item : Reader α) : Reader (List α) := do
  match ← look with
  | some '[' => if inner = 0 then fail .malformed else advance; items item
  | _ => mismatch

def readerWithin : Nat → Reader Value
  | depth + 2 => do
    match ← look with
    | none => fail .truncated
    | some '"' =>
      advance
      if (← stringBody) = "Null" then pure .null else fail .mismatched
    | some '\x7b' =>
      advance
      let value ← (do
        match ← quotedName with
        | "Integer" => return .scalar (.integer (← memberValue int64))
        | "Float" => return .scalar (.float (← memberValue double))
        | "Bool" => return .scalar (.bool (← memberValue bool))
        | "Text" => return .scalar (.text (← memberValue string))
        | "Bytes" => return .scalar (.bytes (← memberValue (arrayWithin depth byte)))
        | "Timestamp" => return .scalar (.timestamp (← memberValue int64))
        | "List" => return .list (← memberValue (arrayWithin depth (readerWithin depth)))
        | "Null" => do
          memberValue Json.Reader.null
          pure Value.null
        | _ => fail .mismatched)
      punctuation '\x7d'
      pure value
    | some _ => fail .malformed
  | _ => do
    match ← look with
    | none => fail .truncated
    | some '"' =>
      advance
      if (← stringBody) = "Null" then pure .null else fail .mismatched
    | some _ => fail .malformed

/-- No text may open 128 containers inside each other. -/
def depthLimit : Nat := 128

def reader : Reader Value := readerWithin depthLimit

end Value

def Row.short (row : Row) : Json := .array (Value.shortItems row)

def Rows.short (rows : Rows) : Json := .array (rows.map Row.short)

def Rows.reader : Reader Rows := array (array (Value.readerWithin (Value.depthLimit - 2)))

namespace RowBounds

def toJson (b : RowBounds) : Json :=
  .object [("offset", .integer b.offset.toNat), ("limit", .integer b.limit.toNat)]

abbrev Draft := Option UInt64 × Option UInt64

def member (name : String) (d : Draft) : Reader Draft :=
  match name with
  | "offset" => return (← once d.1 word, d.2)
  | "limit" => return (d.1, ← once d.2 word)
  | _ => do
    memberValue skip
    pure d

def reader : Reader RowBounds := do
  match ← look with
  | some '[' =>
    advance
    let offset ← required (← position true word)
    let limit ← required (← position false word)
    closeArray
    pure ⟨offset, limit⟩
  | some '\x7b' =>
    advance
    let d ← members member (none, none)
    pure ⟨← required d.1, ← required d.2⟩
  | _ => mismatch

end RowBounds
end StatementCache
