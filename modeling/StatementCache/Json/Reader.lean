/-! Reading JSON text from left to right for an expected shape. Each reader consumes a part of the
text or names the first problem it meets. -/
namespace StatementCache.Json

inductive Problem where
  /-- The text breaks the grammar, or nests or grows beyond the limits. -/
  | malformed
  /-- The text ends too early. -/
  | truncated
  /-- The text is well formed so far, but has not the expected shape. -/
  | mismatched
  deriving DecidableEq

abbrev Reader := StateT (List Char) (Except Problem)

namespace Reader

def fail {α : Type} (p : Problem) : Reader α := fun _ => .error p

def isBlank (c : Char) : Bool := c == ' ' || c == '\n' || c == '\t' || c == '\r'

def peek : Reader (Option Char) := fun s => .ok (s.head?, s)

def advance : Reader Unit := fun s => .ok ((), s.tail)

def look : Reader (Option Char) := fun s =>
  let s := s.dropWhile isBlank
  .ok (s.head?, s)

def keyword : List Char → Reader Unit
  | [] => pure ()
  | expected :: rest => do
    match ← peek with
    | none => fail .truncated
    | some c => if c = expected then advance; keyword rest else fail .malformed

def punctuation (expected : Char) : Reader Unit := do
  match ← look with
  | none => fail .truncated
  | some c => if c = expected then advance else fail .malformed

def digits : Reader (List Nat) := fun s =>
  .ok ((s.takeWhile Char.isDigit).map (fun c => c.toNat - '0'.toNat), s.dropWhile Char.isDigit)

end Reader

def read {α : Type} (reader : Reader α) (text : String) : Except Problem α :=
  match reader text.toList with
  | .error p => .error p
  | .ok (a, rest) => if (rest.dropWhile Reader.isBlank).isEmpty then .ok a else .error .malformed

end StatementCache.Json
