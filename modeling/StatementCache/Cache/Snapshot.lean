import StatementCache.Text.Bytes
import StatementCache.Text.Utf8
import StatementCache.Value.Basic

/-! Results as bytes. Numbers have a fixed width and start with their low byte, a sequence starts
with its length in eight bytes, and a value starts with the number of its kind in four. -/
namespace StatementCache.Snapshot

inductive Defect where
  | ended
  /-- A text is declared longer than what is left. -/
  | overlong
  | unknownKind (index : Nat)
  | notBool (byte : UInt8)
  | text (defect : Text.Utf8Defect)
  deriving DecidableEq

def Defect.message : Defect → String
  | .ended => "io error: unexpected end of file"
  | .overlong => "io error: "
  | .unknownKind index =>
    "invalid value: integer `" ++ toString index ++ "`, expected variant index 0 <= i < 8"
  | .notBool byte =>
    "invalid u8 while decoding bool, expected 0 or 1, found " ++ toString byte.toNat
  | .text defect => "string is not valid utf8: " ++ defect.message

/-! Writing. -/

def word (n : Nat) : List UInt8 := Text.toLittleEndian 8 n

def kind (n : Nat) : List UInt8 := Text.toLittleEndian 4 n

def ofScalar : Scalar → List UInt8
  | .integer n => kind 0 ++ word n.toUInt64.toNat
  | .float x => kind 1 ++ word x.bits.toNat
  | .bool b => kind 2 ++ [b.toUInt8]
  | .text s => kind 3 ++ word (Text.utf8 s).length ++ Text.utf8 s
  | .bytes content => kind 4 ++ word content.length ++ content
  | .timestamp t => kind 5 ++ word t.toUInt64.toNat
  | .null => kind 7

mutual

def ofValue : Value → List UInt8
  | .scalar s => ofScalar s
  | .list items => kind 6 ++ word items.length ++ ofValues items

def ofValues : List Value → List UInt8
  | [] => []
  | v :: vs => ofValue v ++ ofValues vs

end

def ofRow (row : Row) : List UInt8 := word row.length ++ ofValues row

def ofRows (rows : Rows) : List UInt8 := word rows.length ++ rows.flatMap ofRow

/-! Reading. -/

abbrev Decoder := StateT (List UInt8) (Except Defect)

def fail {α : Type} (d : Defect) : Decoder α := fun _ => .error d

def number (count : Nat) : Decoder Nat := fun bytes =>
  if bytes.length < count then .error .ended
  else .ok (Text.ofLittleEndian (bytes.take count), bytes.drop count)

def byte : Decoder UInt8 := fun bytes =>
  match bytes with
  | [] => .error .ended
  | b :: rest => .ok (b, rest)

/-- The next `count` items; a count that the bytes cannot hold ends with them. -/
def many {α : Type} (item : Decoder α) : Nat → Decoder (List α)
  | 0 => pure []
  | count + 1 => do
    let first ← item
    return first :: (← many item count)

def sequence {α : Type} (item : Decoder α) : Decoder (List α) := do many item (← number 8)

def text : Decoder String := do
  let length ← number 8
  let bytes ← get
  if bytes.length < length then fail .overlong
  else
    match Text.ofUtf8 (bytes.take length) with
    | .error d => fail (.text d)
    | .ok s => do
      set (bytes.drop length)
      pure s

def signedWord : Decoder Int64 := return (UInt64.ofNat (← number 8)).toInt64

def value : Nat → Decoder Value
  | 0 => fail .ended
  | depth + 1 => do
    match ← number 4 with
    | 0 => return .scalar (.integer (← signedWord))
    | 1 => return .scalar (.float ⟨UInt64.ofNat (← number 8)⟩)
    | 2 => do
      let b ← byte
      if b = 0 then pure (.scalar (.bool false))
      else if b = 1 then pure (.scalar (.bool true))
      else fail (.notBool b)
    | 3 => return .scalar (.text (← text))
    | 4 => return .scalar (.bytes (← sequence byte))
    | 5 => return .scalar (.timestamp (← signedWord))
    | 6 => return .list (← sequence (value depth))
    | 7 => pure .null
    | index => fail (.unknownKind index)

/-- Every level of nesting takes bytes, so their number bounds the depth. Bytes after the result
do not matter. -/
def toRows (bytes : List UInt8) : Except Defect Rows :=
  (·.1) <$> (sequence (sequence (value (bytes.length + 1)))).run bytes

end StatementCache.Snapshot
