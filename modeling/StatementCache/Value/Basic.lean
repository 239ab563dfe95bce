import StatementCache.Binary64.Basic

/-! Values that a database gives back and that a statement takes as parameters. A scalar is a value
without parts; a list may hold lists. -/
namespace StatementCache

/-- Two scalars are the same data exactly when they agree in kind and content, floats by bits. -/
inductive Scalar where
  | integer (n : Int64)
  | float (x : Binary64)
  | bool (b : Bool)
  | text (s : String)
  | bytes (content : List UInt8)
  | timestamp (t : Int64)
  | null
  deriving DecidableEq

inductive Value where
  | scalar (s : Scalar)
  | list (items : List Value)

abbrev Row := List Value

abbrev Rows := List Row

namespace Scalar

def isNull : Scalar → Bool
  | .null => true
  | _ => false

def equal : Scalar → Scalar → Bool
  | .float x, .float y => x.numEq y
  | a, b => a == b

/-- Only scalars of one kind, and integers with floats, are ordered; nulls and byte strings are
not. An integer is rounded to a float before the two are compared. -/
def compare? : Scalar → Scalar → Option Ordering
  | .integer a, .integer b => some (compare a b)
  | .float a, .float b => a.compare? b
  | .text a, .text b => some (compare a b)
  | .bool a, .bool b => some (compare a.toNat b.toNat)
  | .timestamp a, .timestamp b => some (compare a b)
  | .integer a, .float b => (Binary64.ofInt a.toInt).compare? b
  | .float a, .integer b => a.compare? (Binary64.ofInt b.toInt)
  | _, _ => none

end Scalar

namespace Value

abbrev null : Value := .scalar .null
abbrev integer (n : Int64) : Value := .scalar (.integer n)
abbrev text (s : String) : Value := .scalar (.text s)

def isNull : Value → Bool
  | .scalar s => s.isNull
  | .list _ => false

def asInteger? : Value → Option Int64
  | .scalar (.integer n) => some n
  | _ => none

def asText? : Value → Option String
  | .scalar (.text s) => some s
  | _ => none

mutual

def equal : Value → Value → Bool
  | .scalar a, .scalar b => a.equal b
  | .list xs, .list ys => equalItems xs ys
  | _, _ => false

def equalItems : List Value → List Value → Bool
  | [], [] => true
  | x :: xs, y :: ys => equal x y && equalItems xs ys
  | _, _ => false

end

def compare? : Value → Value → Option Ordering
  | .scalar a, .scalar b => a.compare? b
  | _, _ => none

mutual

def flatten : Value → List Scalar
  | .scalar s => [s]
  | .list items => flattenItems items

def flattenItems : List Value → List Scalar
  | [] => []
  | v :: vs => flatten v ++ flattenItems vs

end

theorem flattenItems_eq_flatMap (vs : List Value) : flattenItems vs = vs.flatMap flatten := by
  induction vs with
  | nil => rfl
  | cons v vs ih => simp [flattenItems, ih]

end Value

def Rows.equal : Rows → Rows → Bool
  | [], [] => true
  | r :: rs, s :: ss => Value.equalItems r s && Rows.equal rs ss
  | _, _ => false

structure RowBounds where
  offset : UInt64
  limit : UInt64
  deriving DecidableEq

namespace RowBounds

/-- From the first row on, and no more rows than a 32-bit index counts. -/
def default : RowBounds := ⟨0, 2147483647⟩

def page (bounds : RowBounds) (rows : Rows) : Rows :=
  (rows.drop bounds.offset.toNat).take bounds.limit.toNat

end RowBounds
end StatementCache
