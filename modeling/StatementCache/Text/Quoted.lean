import StatementCache.Text.Shown

/-! Text inside double quotes, as it stands in diagnostics: every character that would not show is
written as an escape. -/
namespace StatementCache.Text

def codePoint (c : Char) : String :=
  "\\u\x7b" ++ String.ofList (Nat.toDigits 16 c.toNat) ++ "\x7d"

def escaped (c : Char) : String :=
  match c with
  | '"' => "\\\""
  | '\\' => "\\\\"
  | '\n' => "\\n"
  | '\t' => "\\t"
  | '\r' => "\\r"
  | '\x00' => "\\0"
  | c => if isShown c then c.toString else codePoint c

def quoted (s : String) : String :=
  "\"" ++ String.join (s.toList.map escaped) ++ "\""

end StatementCache.Text
