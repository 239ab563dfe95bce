import StatementCache.Binary64.Style

/-! JSON trees and their compact text: no blanks, members in the order given. -/
namespace StatementCache

inductive Json where
  | null
  | bool (b : Bool)
  | integer (i : Int)
  | float (x : Binary64)
  | string (s : String)
  | array (items : List Json)
  | object (members : List (String × Json))

namespace Json

/-- Control characters have short or four-digit escapes; everything else stands for itself. -/
def escape (c : Char) : List Char :=
  match c with
  | '"' => ['\\', '"']
  | '\\' => ['\\', '\\']
  | '\x08' => ['\\', 'b']
  | '\x0c' => ['\\', 'f']
  | '\n' => ['\\', 'n']
  | '\r' => ['\\', 'r']
  | '\t' => ['\\', 't']
  | c =>
    if c.toNat < 0x20 then
      ['\\', 'u', '0', '0', Nat.digitChar (c.toNat / 16), Nat.digitChar (c.toNat % 16)]
    else [c]

def quote (s : String) : List Char := '"' :: s.toList.flatMap escape ++ ['"']

def integerText (i : Int) : List Char :=
  if i < 0 then '-' :: Nat.toDigits 10 i.natAbs else Nat.toDigits 10 i.natAbs

mutual

def write : Json → List Char
  | .null => "null".toList
  | .bool b => (if b then "true" else "false").toList
  | .integer i => integerText i
  | .float x => (NumberStyle.json.render x).toList
  | .string s => quote s
  | .array items => '[' :: writeItems items ++ [']']
  | .object members => '\x7b' :: writeMembers members ++ ['\x7d']

def writeItems : List Json → List Char
  | [] => []
  | [item] => write item
  | item :: rest => write item ++ ',' :: writeItems rest

def writeMembers : List (String × Json) → List Char
  | [] => []
  | [(name, item)] => quote name ++ ':' :: write item
  | (name, item) :: rest => quote name ++ ':' :: write item ++ ',' :: writeMembers rest

end

def render (j : Json) : String := String.ofList j.write

def ofNat (n : Nat) : Json := .integer n

def ofOption {α : Type} (f : α → Json) : Option α → Json
  | none => .null
  | some a => f a

end Json
end StatementCache
