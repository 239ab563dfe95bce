import StatementCache.Layer.Serialized
import StatementCache.Proofs.Snapshot.RoundTrip

/-! A result has one snapshot. Whatever the decoder accepts is what is written for the result that
it gives, followed by bytes that it does not read: no text, truth value, kind or length has a second
spelling. -/
namespace StatementCache

theorem eq_ok_of_map {ε α β : Type} {f : α → β} {e : Except ε α} {b : β} (h : f <$> e = .ok b) :
    ∃ a, e = .ok a ∧ f a = b := by
  cases e with
  | error x => cases h
  | ok a => exact ⟨a, rfl, Except.ok.inj h⟩

namespace Text

/-! Little-endian numbers. -/

theorem toLittleEndian_ofLittleEndian (bytes : List UInt8) :
    toLittleEndian bytes.length (ofLittleEndian bytes) = bytes := by
  induction bytes with
  | nil => rfl
  | cons b rest ih =>
    have small := b.toNat_lt
    have low : UInt8.ofNat (b.toNat + 256 * ofLittleEndian rest) = b :=
      UInt8.toNat_inj.mp (by rw [toNat_byte]; omega)
    have high : (b.toNat + 256 * ofLittleEndian rest) / 256 = ofLittleEndian rest := by omega
    rw [List.length_cons, ofLittleEndian, toLittleEndian, low, high, ih]

theorem ofLittleEndian_lt (bytes : List UInt8) :
    ofLittleEndian bytes < Nat.pow 256 bytes.length := by
  induction bytes with
  | nil => exact Nat.one_pos
  | cons b rest ih =>
    have small := b.toNat_lt
    have step : Nat.pow 256 (rest.length + 1) = 256 * Nat.pow 256 rest.length := Nat.mul_comm _ _
    rw [List.length_cons, ofLittleEndian, step]
    omega

/-! UTF-8. -/

theorem ofNat_byte {b : UInt8} {n : Nat} (h : n % 256 = b.toNat) : UInt8.ofNat n = b :=
  UInt8.toNat_inj.mp (by rw [toNat_byte, h])

theorem toNat_ofNat {n : Nat} (valid : n.isValidChar) : (Char.ofNat n).toNat = n := by
  rw [Char.ofNat, dif_pos valid]
  rfl

theorem bounds_of_isTail {b : UInt8} (h : isTail b = true) : 0x80 ≤ b.toNat ∧ b.toNat ≤ 0xBF := by
  simpa [isTail] using h

structure Seconds (lead b : Nat) : Prop where
  low : 0x80 ≤ b
  high : b ≤ 0xBF
  overlongThree : lead = 0xE0 → 0xA0 ≤ b
  overlongFour : lead = 0xF0 → 0x90 ≤ b
  surrogate : lead = 0xED → b ≤ 0x9F
  last : lead = 0xF4 → b ≤ 0x8F

theorem seconds_of_isSecond {lead b : UInt8} (h : isSecond lead b = true) :
    Seconds lead.toNat b.toNat := by
  have named (n : UInt8) : lead = n ↔ lead.toNat = n.toNat := UInt8.toNat_inj.symm
  simp only [isSecond, named, UInt8.reduceToNat, Bool.and_eq_true, decide_eq_true_eq] at h
  obtain ⟨low, high⟩ := h
  have low : 0x80 ≤ b.toNat ∧ (lead.toNat = 0xE0 → 0xA0 ≤ b.toNat) ∧
      (lead.toNat = 0xF0 → 0x90 ≤ b.toNat) := by
    split at low
    · omega
    · split at low <;> omega
  have high : b.toNat ≤ 0xBF ∧ (lead.toNat = 0xED → b.toNat ≤ 0x9F) ∧
      (lead.toNat = 0xF4 → b.toNat ≤ 0x8F) := by
    split at high
    · omega
    · split at high <;> omega
  exact ⟨low.1, high.1, low.2.1, low.2.2, high.2.1, high.2.2⟩

section

variable {a b c d : UInt8}

theorem encodeChar_one (lead : a.toNat < 0x80) : encodeChar (Char.ofNat a.toNat) = [a] := by
  have code := toNat_ofNat (n := a.toNat) (.inl (by omega))
  simp only [encodeChar, code, lead, if_true, UInt8.ofNat_toNat]

theorem encodeChar_two (lead : 0xC2 ≤ a.toNat ∧ a.toNat < 0xE0) (second : Seconds a.toNat b.toNat) :
    encodeChar (Char.ofNat ((a.toNat - 0xC0) * 64 + (b.toNat - 0x80))) = [a, b] := by
  obtain ⟨low, high, -⟩ := second
  have code := toNat_ofNat (n := (a.toNat - 0xC0) * 64 + (b.toNat - 0x80)) (.inl (by omega))
  simp only [encodeChar, code]
  rw [if_neg (by omega), if_pos (by omega), ofNat_byte (b := a) (by omega),
    ofNat_byte (b := b) (by omega)]

theorem encodeChar_three (lead : 0xE0 ≤ a.toNat ∧ a.toNat < 0xF0)
    (second : Seconds a.toNat b.toNat) (third : 0x80 ≤ c.toNat ∧ c.toNat ≤ 0xBF) :
    encodeChar (Char.ofNat (((a.toNat - 0xE0) * 64 + (b.toNat - 0x80)) * 64 + (c.toNat - 0x80))) =
      [a, b, c] := by
  obtain ⟨low, high, overlong, -, surrogate, -⟩ := second
  have code := toNat_ofNat
    (n := ((a.toNat - 0xE0) * 64 + (b.toNat - 0x80)) * 64 + (c.toNat - 0x80))
    (by unfold Nat.isValidChar; omega)
  simp only [encodeChar, code]
  rw [if_neg (by omega), if_neg (by omega), if_pos (by omega), ofNat_byte (b := a) (by omega),
    ofNat_byte (b := b) (by omega), ofNat_byte (b := c) (by omega)]

theorem encodeChar_four (lead : 0xF0 ≤ a.toNat ∧ a.toNat ≤ 0xF4)
    (second : Seconds a.toNat b.toNat) (third : 0x80 ≤ c.toNat ∧ c.toNat ≤ 0xBF)
    (fourth : 0x80 ≤ d.toNat ∧ d.toNat ≤ 0xBF) :
    encodeChar (Char.ofNat ((((a.toNat - 0xF0) * 64 + (b.toNat - 0x80)) * 64 +
      (c.toNat - 0x80)) * 64 + (d.toNat - 0x80))) = [a, b, c, d] := by
  obtain ⟨low, high, -, overlong, -, last⟩ := second
  have code := toNat_ofNat (n := (((a.toNat - 0xF0) * 64 + (b.toNat - 0x80)) * 64 +
    (c.toNat - 0x80)) * 64 + (d.toNat - 0x80)) (by unfold Nat.isValidChar; omega)
  simp only [encodeChar, code]
  rw [if_neg (by omega), if_neg (by omega), if_neg (by omega), ofNat_byte (b := a) (by omega),
    ofNat_byte (b := b) (by omega), ofNat_byte (b := c) (by omega), ofNat_byte (b := d) (by omega)]

end

theorem eq_of_decodeFrom {index : Nat} {bytes : List UInt8} {chars : List Char}
    (h : decodeFrom index bytes = .ok chars) : bytes = chars.flatMap encodeChar := by
  fun_induction decodeFrom index bytes generalizing chars with
  | case1 => cases h; rfl
  | case2 index a rest n one =>
    rename_i ih
    obtain ⟨more, read, rfl⟩ := eq_ok_of_map h
    rw [List.flatMap_cons, encodeChar_one one, ← ih read]
    rfl
  | case6 index a n several lead b rest second two =>
    rename_i ih
    obtain ⟨more, read, rfl⟩ := eq_ok_of_map h
    have second := seconds_of_isSecond (by simpa using second)
    rw [List.flatMap_cons, encodeChar_two (by omega) second, ← ih read]
    rfl
  | case9 index a n several lead b second more c rest third three =>
    rename_i ih
    obtain ⟨chars, read, rfl⟩ := eq_ok_of_map h
    have second := seconds_of_isSecond (by simpa using second)
    have third := bounds_of_isTail (by simpa using third)
    rw [List.flatMap_cons, encodeChar_three (by omega) second third, ← ih read]
    rfl
  | case12 index a n several lead b second more c third four d rest fourth =>
    rename_i ih
    obtain ⟨chars, read, rfl⟩ := eq_ok_of_map h
    have second := seconds_of_isSecond (by simpa using second)
    have third := bounds_of_isTail (by simpa using third)
    have fourth := bounds_of_isTail (by simpa using fourth)
    rw [List.flatMap_cons, encodeChar_four (by omega) second third fourth, ← ih read]
    rfl
  | _ => cases h

theorem eq_of_ofUtf8 {bytes : List UInt8} {s : String} (h : ofUtf8 bytes = .ok s) :
    bytes = utf8 s := by
  obtain ⟨chars, read, rfl⟩ := eq_ok_of_map h
  rw [utf8, String.toList_ofList]
  exact eq_of_decodeFrom read

end Text

namespace Snapshot

/-- For every item that the decoder gives it has taken bytes from the front that fit the item, and
has left the rest. -/
def Takes {α : Type} (decode : Decoder α) (P : α → List UInt8 → Prop) : Prop :=
  ∀ bytes a rest, decode bytes = .ok (a, rest) → ∃ front, bytes = front ++ rest ∧ P a front

namespace Takes

variable {α β : Type} {P : α → List UInt8 → Prop} {Q : β → List UInt8 → Prop}

theorem pure {a : α} (h : P a []) : Takes (pure a : Decoder α) P := by
  intro bytes b rest run
  cases run
  exact ⟨[], rfl, h⟩

theorem fail (d : Defect) : Takes (fail d : Decoder α) P := by
  intro bytes a rest run
  cases run

theorem bind {decode : Decoder α} {next : α → Decoder β} (first : Takes decode P)
    (second : ∀ a front, P a front → Takes (next a) fun b more => Q b (front ++ more)) :
    Takes (decode >>= next) Q := by
  intro bytes b rest run
  change (decode bytes >>= fun p => next p.1 p.2) = _ at run
  cases read : decode bytes with
  | error d => rw [read] at run; cases run
  | ok p =>
    rw [read] at run
    obtain ⟨front, rfl, fits⟩ := first bytes p.1 p.2 read
    obtain ⟨more, behind, fits'⟩ := second p.1 front fits p.2 b rest run
    exact ⟨front ++ more, by rw [behind, List.append_assoc], fits'⟩

theorem map {decode : Decoder α} {f : α → β} (h : Takes decode P)
    (weaken : ∀ a front, P a front → Q (f a) front) : Takes (do return f (← decode)) Q :=
  h.bind fun a front fits => pure (by rw [List.append_nil]; exact weaken a front fits)

end Takes

theorem takes_number (count : Nat) : Takes (number count) fun n front =>
    n < Nat.pow 256 count ∧ front = Text.toLittleEndian count n := by
  intro bytes n rest run
  unfold number at run
  split at run
  · cases run
  · rename_i enough
    obtain ⟨rfl, rfl⟩ := Prod.mk.inj (Except.ok.inj run)
    have length : (bytes.take count).length = count :=
      List.length_take_of_le (Nat.le_of_not_lt enough)
    have small := Text.ofLittleEndian_lt (bytes.take count)
    have back := Text.toLittleEndian_ofLittleEndian (bytes.take count)
    rw [length] at small back
    exact ⟨bytes.take count, (List.take_append_drop count bytes).symm, small, back.symm⟩

theorem takes_word : Takes (number 8) fun n front => n < wordBound ∧ front = word n :=
  takes_number 8

theorem takes_byte : Takes byte fun b front => True ∧ front = [b] := by
  intro bytes b rest run
  cases bytes with
  | nil => cases run
  | cons c bytes =>
    obtain ⟨rfl, rfl⟩ := Prod.mk.inj (Except.ok.inj run)
    exact ⟨[c], rfl, trivial, rfl⟩

theorem takes_signedWord : Takes signedWord fun n front => front = word n.toUInt64.toNat := by
  refine takes_word.map fun n front fits => ?_
  rw [fits.2, UInt64.toUInt64_toInt64, UInt64.toNat_ofNat_of_lt' fits.1]

section

variable {α : Type} {item : Decoder α} {fits : α → Prop} {write : α → List UInt8}
  (h : Takes item fun a front => fits a ∧ front = write a)
include h

theorem takes_many (count : Nat) : Takes (many item count) fun items front =>
    items.length = count ∧ (∀ a ∈ items, fits a) ∧ front = items.flatMap write := by
  induction count with
  | zero => exact Takes.pure ⟨rfl, by simp, rfl⟩
  | succ count ih =>
    refine h.bind fun a front first => ih.map fun items more rest => ?_
    obtain ⟨fit, rfl⟩ := first
    obtain ⟨length, fits, rfl⟩ := rest
    exact ⟨by rw [List.length_cons, length], List.forall_mem_cons.mpr ⟨fit, fits⟩,
      (List.flatMap_cons ..).symm⟩

theorem takes_sequence : Takes (sequence item) fun items front =>
    (items.length < wordBound ∧ ∀ a ∈ items, fits a) ∧
      front = word items.length ++ items.flatMap write := by
  refine takes_word.bind fun count front length => ?_
  obtain ⟨bound, rfl⟩ := length
  intro bytes items rest run
  obtain ⟨more, split, rfl, fits, rfl⟩ := takes_many h count bytes items rest run
  exact ⟨_, split, ⟨bound, fits⟩, rfl⟩

end

theorem takes_text : Takes text fun s front => (Text.utf8 s).length < wordBound ∧
    front = word (Text.utf8 s).length ++ Text.utf8 s := by
  refine takes_word.bind fun length front fits => ?_
  obtain ⟨bound, rfl⟩ := fits
  intro bytes s rest run
  simp only [bind, StateT.bind, get, getThe, MonadStateOf.get, StateT.get, pure, Except.pure,
    Except.bind] at run
  split at run
  · cases run
  · rename_i enough
    cases read : Text.ofUtf8 (bytes.take length) with
    | error d => rw [read] at run; cases run
    | ok t =>
      rw [read] at run
      obtain ⟨rfl, rfl⟩ := Prod.mk.inj (Except.ok.inj run)
      have spelled := Text.eq_of_ofUtf8 read
      have count : (Text.utf8 t).length = length := by
        rw [← spelled, List.length_take_of_le (Nat.le_of_not_lt enough)]
      refine ⟨bytes.take length, (List.take_append_drop length bytes).symm, ?_, ?_⟩
      · rw [count]; exact bound
      · rw [count, spelled]

theorem allSized_of_forall {vs : List Value} (h : ∀ v ∈ vs, v.Sized) : Value.AllSized vs := by
  induction vs with
  | nil => trivial
  | cons v vs ih =>
    obtain ⟨first, more⟩ := List.forall_mem_cons.mp h
    exact ⟨first, ih more⟩

theorem takes_value (depth : Nat) :
    Takes (value depth) fun v front => v.Sized ∧ front = ofValue v := by
  induction depth with
  | zero => exact Takes.fail _
  | succ depth ih =>
    unfold value
    refine (takes_number 4).bind fun index front fits => ?_
    obtain ⟨-, rfl⟩ := fits
    split
    · exact takes_signedWord.map fun n front fits => ⟨trivial, congrArg (kind 0 ++ ·) fits⟩
    · refine takes_word.map fun n front fits => ⟨trivial, ?_⟩
      rw [fits.2, ofValue, ofScalar, UInt64.toNat_ofNat_of_lt' fits.1]
      rfl
    · refine takes_byte.bind fun b front fits => ?_
      obtain ⟨-, rfl⟩ := fits
      split
      · rename_i zero
        exact Takes.pure ⟨trivial, by rw [zero]; rfl⟩
      · split
        · rename_i one
          exact Takes.pure ⟨trivial, by rw [one]; rfl⟩
        · exact Takes.fail _
    · refine takes_text.map fun s front fits => ⟨fits.1, ?_⟩
      rw [fits.2, ofValue, ofScalar, List.append_assoc]
      rfl
    · refine (takes_sequence takes_byte).map fun content front fits => ⟨fits.1.1, ?_⟩
      rw [fits.2, List.flatMap_singleton', ofValue, ofScalar, List.append_assoc]
      rfl
    · exact takes_signedWord.map fun t front fits => ⟨trivial, congrArg (kind 5 ++ ·) fits⟩
    · refine (takes_sequence ih).map fun items front fits =>
        ⟨⟨fits.1.1, allSized_of_forall fits.1.2⟩, ?_⟩
      rw [fits.2, ofValue, ofValues_eq_flatMap, List.append_assoc]
      rfl
    · exact Takes.pure ⟨trivial, rfl⟩
    · exact Takes.fail _

theorem takes_row (depth : Nat) :
    Takes (sequence (value depth)) fun row front => Row.Sized row ∧ front = ofRow row := by
  intro bytes row rest run
  obtain ⟨front, split, ⟨length, sized⟩, rfl⟩ :=
    takes_sequence (takes_value depth) bytes row rest run
  exact ⟨_, split, ⟨length, allSized_of_forall sized⟩, by rw [ofRow, ofValues_eq_flatMap]⟩

/-- The bytes that decode to a result are those that start with its snapshot. -/
theorem toRows_eq_ok_iff {bytes : List UInt8} {rows : Rows} :
    toRows bytes = .ok rows ↔ rows.Sized ∧ ofRows rows <+: bytes := by
  constructor
  · intro read
    obtain ⟨⟨rows, rest⟩, run, rfl⟩ := eq_ok_of_map read
    obtain ⟨front, rfl, sized, rfl⟩ :=
      takes_sequence (takes_row (bytes.length + 1)) bytes rows rest run
    exact ⟨sized, List.prefix_append ..⟩
  · rintro ⟨sized, rest, rfl⟩
    exact toRows_append sized rest

end Snapshot

namespace Layer

variable {id : String} {bytes : List UInt8} {rows : Rows}

theorem decode_snapshot_iff :
    decode id (.snapshot bytes) = .ok (.rows rows) ↔
      rows.Sized ∧ Snapshot.ofRows rows <+: bytes := by
  rw [← Snapshot.toRows_eq_ok_iff, decode]
  cases Snapshot.toRows bytes <;> simp

/-- Writing and reading undo each other. The snapshot of a result decodes to it; bytes that decode
to a result start with its snapshot, and with no other, so different results have different
snapshots. -/
theorem snapshots_canonical (id : String) :
    (∀ rows : Rows, rows.Sized → ∃ bytes, encode id (.rows rows) = .ok (.snapshot bytes) ∧
      decode id (.snapshot bytes) = .ok (.rows rows)) ∧
    (∀ bytes rows, decode id (.snapshot bytes) = .ok (.rows rows) →
      ∃ written, encode id (.rows rows) = .ok (.snapshot written) ∧ written <+: bytes) ∧
    (∀ rows rows' : Rows, rows.Sized → rows'.Sized →
      encode id (.rows rows) = encode id (.rows rows') → rows = rows') := by
  have back (rows : Rows) (sized : rows.Sized) :
      decode id (.snapshot (Snapshot.ofRows rows)) = .ok (.rows rows) :=
    decode_snapshot_iff.mpr ⟨sized, List.prefix_rfl⟩
  refine ⟨fun rows sized => ⟨_, rfl, back rows sized⟩, fun bytes rows read => ?_,
    fun rows rows' sized sized' same => ?_⟩
  · exact ⟨_, rfl, (decode_snapshot_iff.mp read).2⟩
  · have written : Snapshot.ofRows rows = Snapshot.ofRows rows' :=
      Entry.snapshot.inj (Except.ok.inj same)
    have read := back rows sized
    rw [written, back rows' sized'] at read
    exact (Entry.rows.inj (Except.ok.inj read)).symm

def nested : Rows := [[.list [.text "é", .null], .scalar (.float ⟨0x7FF8000000000001⟩)]]

theorem sized_nested : nested.Sized := by
  simp [nested, Rows.Sized, Row.Sized, Value.AllSized, Value.Sized, Value.text, Value.null,
    Scalar.Sized, Text.utf8, Text.encodeChar, wordBound]

theorem snapshots_canonical_of_nested :
    nested.Sized ∧
      (∃ bytes, encode "orders" (.rows nested) = .ok (.snapshot bytes) ∧
        decode "orders" (.snapshot bytes) = .ok (.rows nested)) ∧
      (∃ written, encode "orders" (.rows []) = .ok (.snapshot written) ∧
        written <+: [0, 0, 0, 0, 0, 0, 0, 0, 255]) ∧
      encode "orders" (.rows nested) ≠ encode "orders" (.rows []) := by
  obtain ⟨back, canonical, injective⟩ := snapshots_canonical "orders"
  refine ⟨sized_nested, back nested sized_nested, canonical _ _ rfl, fun same => ?_⟩
  have empty : Rows.Sized [] := ⟨by decide, by simp⟩
  cases injective nested [] sized_nested empty same

end Layer
end StatementCache
