import StatementCache.Binary64.Style
import StatementCache.Text.Quoted
import StatementCache.Value.Basic

/-! Two texts of a value: the bare one of keys and log lines, and the diagnostic one, which names
the kind of everything it shows. -/
namespace StatementCache

def Scalar.display : Scalar → String
  | .integer n => toString n.toInt
  | .float x => NumberStyle.plain.render x
  | .bool b => if b then "true" else "false"
  | .text s => s
  | .bytes content => "<" ++ toString content.length ++ " bytes>"
  | .timestamp t => "ts(" ++ toString t.toInt ++ ")"
  | .null => "null"

def bracketed (items : List String) : String := "[" ++ ", ".intercalate items ++ "]"

def Scalar.diagnose : Scalar → String
  | .integer n => "Integer(" ++ toString n.toInt ++ ")"
  | .float x => "Float(" ++ NumberStyle.detailed.render x ++ ")"
  | .bool b => "Bool(" ++ (if b then "true" else "false") ++ ")"
  | .text s => "Text(" ++ Text.quoted s ++ ")"
  | .bytes content => "Bytes(" ++ bracketed (content.map fun b => toString b.toNat) ++ ")"
  | .timestamp t => "Timestamp(" ++ toString t.toInt ++ ")"
  | .null => "Null"

namespace Value

mutual

def display : Value → String
  | .scalar s => s.display
  | .list items => "[" ++ ",".intercalate (displayItems items) ++ "]"

def displayItems : List Value → List String
  | [] => []
  | v :: vs => display v :: displayItems vs

end

mutual

def diagnose : Value → String
  | .scalar s => s.diagnose
  | .list items => "List(" ++ bracketed (diagnoseItems items) ++ ")"

def diagnoseItems : List Value → List String
  | [] => []
  | v :: vs => diagnose v :: diagnoseItems vs

end

end Value

def Row.diagnose (row : Row) : String := bracketed (Value.diagnoseItems row)

def Rows.diagnose (rows : Rows) : String := bracketed (rows.map Row.diagnose)

end StatementCache
