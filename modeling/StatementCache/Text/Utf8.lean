/-! UTF-8: the bytes of a text, and the strict reading that accepts nothing else. -/
namespace StatementCache.Text

inductive Utf8Defect where
  /-- `length` bytes from `index` on start no character. -/
  | invalid (length index : Nat)
  /-- The bytes end inside the character that starts at `index`. -/
  | incomplete (index : Nat)
  deriving DecidableEq

def Utf8Defect.message : Utf8Defect → String
  | .invalid length index =>
    "invalid utf-8 sequence of " ++ toString length ++ " bytes from index " ++ toString index
  | .incomplete index => "incomplete utf-8 byte sequence from index " ++ toString index

def encodeChar (c : Char) : List UInt8 :=
  let n := c.toNat
  let tail (k : Nat) : UInt8 := UInt8.ofNat (0x80 + k % 64)
  if n < 0x80 then [UInt8.ofNat n]
  else if n < 0x800 then [UInt8.ofNat (0xC0 + n / 64), tail n]
  else if n < 0x10000 then [UInt8.ofNat (0xE0 + n / 4096), tail (n / 64), tail n]
  else [UInt8.ofNat (0xF0 + n / 262144), tail (n / 4096), tail (n / 64), tail n]

def utf8 (s : String) : List UInt8 := s.toList.flatMap encodeChar

def isTail (b : UInt8) : Bool := decide (0x80 ≤ b.toNat) && decide (b.toNat ≤ 0xBF)

/-- Which second bytes may follow a lead byte: no overlong forms, no surrogates, and nothing beyond
the last code point. -/
def isSecond (lead b : UInt8) : Bool :=
  let low := if lead = 0xE0 then 0xA0 else if lead = 0xF0 then 0x90 else 0x80
  let high := if lead = 0xED then 0x9F else if lead = 0xF4 then 0x8F else 0xBF
  decide (low ≤ b.toNat) && decide (b.toNat ≤ high)

def decodeFrom (index : Nat) : List UInt8 → Except Utf8Defect (List Char)
  | [] => .ok []
  | a :: rest =>
    let n := a.toNat
    if n < 0x80 then (Char.ofNat n :: ·) <$> decodeFrom (index + 1) rest
    else if n < 0xC2 ∨ 0xF4 < n then .error (.invalid 1 index)
    else
      match rest with
      | [] => .error (.incomplete index)
      | b :: rest =>
        if !isSecond a b then .error (.invalid 1 index)
        else if n < 0xE0 then
          (Char.ofNat ((n - 0xC0) * 64 + (b.toNat - 0x80)) :: ·) <$> decodeFrom (index + 2) rest
        else
          match rest with
          | [] => .error (.incomplete index)
          | c :: rest =>
            if !isTail c then .error (.invalid 2 index)
            else if n < 0xF0 then
              (Char.ofNat (((n - 0xE0) * 64 + (b.toNat - 0x80)) * 64 + (c.toNat - 0x80)) :: ·) <$>
                decodeFrom (index + 3) rest
            else
              match rest with
              | [] => .error (.incomplete index)
              | d :: rest =>
                if !isTail d then .error (.invalid 3 index)
                else
                  (Char.ofNat ((((n - 0xF0) * 64 + (b.toNat - 0x80)) * 64 + (c.toNat - 0x80)) * 64 +
                    (d.toNat - 0x80)) :: ·) <$> decodeFrom (index + 4) rest

def ofUtf8 (bytes : List UInt8) : Except Utf8Defect String :=
  String.ofList <$> decodeFrom 0 bytes

end StatementCache.Text
