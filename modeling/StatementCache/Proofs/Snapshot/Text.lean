import StatementCache.Text.Utf8

/-! The bytes of a text are read back as the same text. -/
namespace StatementCache.Text

theorem isSecond_of (lead b : UInt8) (tail : 0x80 ≤ b.toNat ∧ b.toNat ≤ 0xBF)
    (overlongThree : lead.toNat = 0xE0 → 0xA0 ≤ b.toNat)
    (overlongFour : lead.toNat = 0xF0 → 0x90 ≤ b.toNat)
    (surrogate : lead.toNat = 0xED → b.toNat ≤ 0x9F)
    (last : lead.toNat = 0xF4 → b.toNat ≤ 0x8F) : isSecond lead b = true := by
  have low : (if lead = 0xE0 then 0xA0 else if lead = 0xF0 then 0x90 else 0x80) ≤ b.toNat := by
    split
    · rename_i same
      exact overlongThree (congrArg UInt8.toNat same)
    · split
      · rename_i same
        exact overlongFour (congrArg UInt8.toNat same)
      · exact tail.1
  have high : b.toNat ≤ if lead = 0xED then 0x9F else if lead = 0xF4 then 0x8F else 0xBF := by
    split
    · rename_i same
      exact surrogate (congrArg UInt8.toNat same)
    · split
      · rename_i same
        exact last (congrArg UInt8.toNat same)
      · exact tail.2
  simp only [isSecond, low, high, decide_true, Bool.and_self]

theorem toNat_byte (n : Nat) : (UInt8.ofNat n).toNat = n % 256 := UInt8.toNat_ofNat

theorem isTail_byte (k : Nat) : isTail (UInt8.ofNat (0x80 + k % 64)) = true := by
  simp only [isTail, toNat_byte, Bool.and_eq_true, decide_eq_true_eq]
  omega

section

variable (c : Char) (rest : List UInt8) (index : Nat)

theorem ofNat_eq {n : Nat} (h : n = c.toNat) : Char.ofNat n = c := h ▸ Char.ofNat_toNat c

theorem decodeFrom_one (high : c.toNat < 0x80) :
    decodeFrom index (UInt8.ofNat c.toNat :: rest) =
      (c :: ·) <$> decodeFrom (index + 1) rest := by
  have lead : (UInt8.ofNat c.toNat).toNat = c.toNat := by rw [toNat_byte]; omega
  rw [decodeFrom.eq_def]
  simp only [lead]
  rw [if_pos (by omega), ofNat_eq c rfl]

theorem decodeFrom_two (low : ¬c.toNat < 0x80) (high : c.toNat < 0x800) :
    decodeFrom index (UInt8.ofNat (0xC0 + c.toNat / 64) :: UInt8.ofNat (0x80 + c.toNat % 64) ::
      rest) = (c :: ·) <$> decodeFrom (index + 2) rest := by
  have lead : (UInt8.ofNat (0xC0 + c.toNat / 64)).toNat = 0xC0 + c.toNat / 64 := by
    rw [toNat_byte]; omega
  have second : (UInt8.ofNat (0x80 + c.toNat % 64)).toNat = 0x80 + c.toNat % 64 := by
    rw [toNat_byte]; omega
  have follows := isSecond_of (UInt8.ofNat (0xC0 + c.toNat / 64))
    (UInt8.ofNat (0x80 + c.toNat % 64)) (by omega) (by omega) (by omega) (by omega) (by omega)
  rw [decodeFrom.eq_def]
  simp only [lead, second, follows]
  rw [if_neg (by omega), if_neg (by omega), if_neg (by simp), if_pos (by omega),
    ofNat_eq c (by omega)]

theorem decodeFrom_three (low : ¬c.toNat < 0x800) (high : c.toNat < 0x10000) :
    decodeFrom index (UInt8.ofNat (0xE0 + c.toNat / 4096) ::
      UInt8.ofNat (0x80 + c.toNat / 64 % 64) :: UInt8.ofNat (0x80 + c.toNat % 64) :: rest) =
        (c :: ·) <$> decodeFrom (index + 3) rest := by
  have valid : c.toNat < 0xD800 ∨ (0xDFFF < c.toNat ∧ c.toNat < 0x110000) := c.valid
  have lead : (UInt8.ofNat (0xE0 + c.toNat / 4096)).toNat = 0xE0 + c.toNat / 4096 := by
    rw [toNat_byte]; omega
  have second : (UInt8.ofNat (0x80 + c.toNat / 64 % 64)).toNat = 0x80 + c.toNat / 64 % 64 := by
    rw [toNat_byte]; omega
  have third : (UInt8.ofNat (0x80 + c.toNat % 64)).toNat = 0x80 + c.toNat % 64 := by
    rw [toNat_byte]; omega
  have follows := isSecond_of (UInt8.ofNat (0xE0 + c.toNat / 4096))
    (UInt8.ofNat (0x80 + c.toNat / 64 % 64)) (by omega) (by omega) (by omega) (by omega)
    (by omega)
  rw [decodeFrom.eq_def]
  simp only [lead, second, third, follows, isTail_byte]
  rw [if_neg (by omega), if_neg (by omega), if_neg (by simp), if_neg (by omega), if_neg (by simp),
    if_pos (by omega), ofNat_eq c (by omega)]

theorem decodeFrom_four (low : ¬c.toNat < 0x10000) :
    decodeFrom index (UInt8.ofNat (0xF0 + c.toNat / 262144) ::
      UInt8.ofNat (0x80 + c.toNat / 4096 % 64) :: UInt8.ofNat (0x80 + c.toNat / 64 % 64) ::
        UInt8.ofNat (0x80 + c.toNat % 64) :: rest) =
          (c :: ·) <$> decodeFrom (index + 4) rest := by
  have valid : c.toNat < 0xD800 ∨ (0xDFFF < c.toNat ∧ c.toNat < 0x110000) := c.valid
  have lead : (UInt8.ofNat (0xF0 + c.toNat / 262144)).toNat = 0xF0 + c.toNat / 262144 := by
    rw [toNat_byte]; omega
  have second : (UInt8.ofNat (0x80 + c.toNat / 4096 % 64)).toNat =
      0x80 + c.toNat / 4096 % 64 := by
    rw [toNat_byte]; omega
  have third : (UInt8.ofNat (0x80 + c.toNat / 64 % 64)).toNat = 0x80 + c.toNat / 64 % 64 := by
    rw [toNat_byte]; omega
  have fourth : (UInt8.ofNat (0x80 + c.toNat % 64)).toNat = 0x80 + c.toNat % 64 := by
    rw [toNat_byte]; omega
  have follows := isSecond_of (UInt8.ofNat (0xF0 + c.toNat / 262144))
    (UInt8.ofNat (0x80 + c.toNat / 4096 % 64)) (by omega) (by omega) (by omega) (by omega)
    (by omega)
  rw [decodeFrom.eq_def]
  simp only [lead, second, third, fourth, follows, isTail_byte]
  rw [if_neg (by omega), if_neg (by omega), if_neg (by simp), if_neg (by omega), if_neg (by simp),
    if_neg (by omega), if_neg (by simp), ofNat_eq c (by omega)]

theorem decodeFrom_encodeChar :
    decodeFrom index (encodeChar c ++ rest) =
      (c :: ·) <$> decodeFrom (index + (encodeChar c).length) rest := by
  unfold encodeChar
  dsimp only
  split
  · rename_i one
    exact decodeFrom_one c rest index one
  · rename_i low
    split
    · rename_i two
      exact decodeFrom_two c rest index low two
    · rename_i low
      split
      · rename_i three
        exact decodeFrom_three c rest index low three
      · rename_i low
        exact decodeFrom_four c rest index low

end

theorem decodeFrom_encodeChars (chars : List Char) (index : Nat) :
    decodeFrom index (chars.flatMap encodeChar) = .ok chars := by
  induction chars generalizing index with
  | nil => simp only [List.flatMap_nil, decodeFrom]
  | cons c chars ih =>
    rw [List.flatMap_cons, decodeFrom_encodeChar, ih]
    rfl

theorem ofUtf8_utf8 (s : String) : ofUtf8 (utf8 s) = .ok s := by
  rw [ofUtf8, utf8, decodeFrom_encodeChars]
  exact congrArg Except.ok String.ofList_toList

end StatementCache.Text
