import StatementCache.Json.Reader

/-! Strings in JSON text. -/
namespace StatementCache.Json.Reader

def hexValue? (c : Char) : Option Nat :=
  if c.isDigit then some (c.toNat - '0'.toNat)
  else if 'a' ≤ c ∧ c ≤ 'f' then some (c.toNat - 'a'.toNat + 10)
  else if 'A' ≤ c ∧ c ≤ 'F' then some (c.toNat - 'A'.toNat + 10)
  else none

def fourHex : Reader Nat := fun s =>
  match s with
  | a :: b :: c :: d :: rest =>
    match hexValue? a, hexValue? b, hexValue? c, hexValue? d with
    | some a, some b, some c, some d => .ok (((a * 16 + b) * 16 + c) * 16 + d, rest)
    | _, _, _, _ => .error .malformed
  | s => if s.foldl (fun n c => n + c.utf8Size) 0 < 4 then .error .truncated else .error .malformed

/-- The character of an escape after its backslash and `u`. A leading surrogate needs the escape
of a trailing one behind it. -/
def unicodeEscape : Reader Char := do
  let first ← fourHex
  if 0xDC00 ≤ first ∧ first ≤ 0xDFFF then fail .malformed
  else if 0xD800 ≤ first ∧ first ≤ 0xDBFF then
    keyword ['\\', 'u']
    let second ← fourHex
    if 0xDC00 ≤ second ∧ second ≤ 0xDFFF then
      pure (Char.ofNat (0x10000 + (first - 0xD800) * 0x400 + (second - 0xDC00)))
    else fail .malformed
  else pure (Char.ofNat first)

def escaped (unicode : Reader Char) : Reader Char := do
  match ← peek with
  | none => fail .truncated
  | some c =>
    advance
    match c with
    | '"' => pure '"'
    | '\\' => pure '\\'
    | '/' => pure '/'
    | 'b' => pure '\x08'
    | 'f' => pure '\x0c'
    | 'n' => pure '\n'
    | 'r' => pure '\r'
    | 't' => pure '\t'
    | 'u' => unicode
    | _ => fail .malformed

def stringRest (unicode : Reader Char) : Nat → Reader (List Char)
  | 0 => fail .truncated
  | fuel + 1 => do
    match ← peek with
    | none => fail .truncated
    | some c =>
      if c = '"' then advance; pure []
      else if c = '\\' then
        advance
        let first ← escaped unicode
        return first :: (← stringRest unicode fuel)
      else if c.toNat < 0x20 then fail .malformed
      else
        advance
        return c :: (← stringRest unicode fuel)

def stringBody : Reader String := do
  let s ← get
  return String.ofList (← stringRest unicodeEscape (s.length + 1))

/-- A string whose content nobody needs: escapes are checked, surrogates are not. -/
def skipString : Reader Unit := do
  let s ← get
  discard (stringRest (do discard fourHex; pure ' ') (s.length + 1))

end StatementCache.Json.Reader
