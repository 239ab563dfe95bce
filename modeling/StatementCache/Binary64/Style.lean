import StatementCache.Binary64.Shortest

/-! The written forms of a double: shortest digits laid out by a style, and a fixed number of
places. -/
namespace StatementCache

/-- The decisions of one written form. `positional` says for the exponent of the leading digit
whether the number is written without an exponent. -/
structure NumberStyle where
  positional : Int → Bool
  pointZero : Bool
  plusSign : Bool
  tie : Tie
  nan : String
  infinity : String
  negativeInfinity : String

namespace NumberStyle

def zeros (n : Nat) : String := String.ofList (List.replicate n '0')

def positionalText (style : NumberStyle) (d : Decimal) : String :=
  let ds := d.text
  if 0 ≤ d.exponent then
    String.ofList ds ++ zeros d.exponent.toNat ++ (if style.pointZero then ".0" else "")
  else if 0 < ds.length + d.exponent then
    let whole := (ds.length + d.exponent).toNat
    String.ofList (ds.take whole) ++ "." ++ String.ofList (ds.drop whole)
  else "0." ++ zeros (-(ds.length + d.exponent)).toNat ++ String.ofList ds

def exponentText (style : NumberStyle) (d : Decimal) : String :=
  let coefficient := match d.text with
    | [] => ""
    | [c] => c.toString
    | c :: rest => c.toString ++ "." ++ String.ofList rest
  let sign := if d.leading < 0 then "-" else if style.plusSign then "+" else ""
  coefficient ++ "e" ++ sign ++ toString d.leading.natAbs

def unsignedText (style : NumberStyle) (x : Binary64) : String :=
  if x.magnitude = 0 then (if style.pointZero then "0.0" else "0")
  else
    let d := x.shortest style.tie
    if style.positional d.leading then style.positionalText d else style.exponentText d

def render (style : NumberStyle) (x : Binary64) : String :=
  if x.isNaN then style.nan
  else if x.isInfinite then (if x.negative then style.negativeInfinity else style.infinity)
  else (if x.negative then "-" else "") ++ style.unsignedText x

def plain : NumberStyle where
  positional _ := true
  pointZero := false
  plusSign := false
  tie := .up
  nan := "NaN"
  infinity := "inf"
  negativeInfinity := "-inf"

/-- A point in every number, and an exponent below 0.0001 and from 10¹⁶ on. -/
def detailed : NumberStyle where
  positional e := decide (-4 ≤ e) && decide (e ≤ 15)
  pointZero := true
  plusSign := false
  tie := .up
  nan := "NaN"
  infinity := "inf"
  negativeInfinity := "-inf"

/-- The form inside JSON text, which has neither NaN nor infinities. -/
def json : NumberStyle where
  positional e := decide (-5 ≤ e) && decide (e ≤ 15)
  pointZero := true
  plusSign := true
  tie := .toEven
  nan := "null"
  infinity := "null"
  negativeInfinity := "null"

end NumberStyle

def Binary64.oneDecimal (x : Binary64) : String :=
  let tenths := Tie.toEven.roundDiv (x.magnitude * 10) (Nat.pow 2 1074)
  (if x.negative then "-" else "") ++ toString (tenths / 10) ++ "." ++ toString (tenths % 10)

end StatementCache
