import StatementCache.Cache.Snapshot
import StatementCache.Proofs.Snapshot.Text

/-! A result is read back from its snapshot. Lengths are written as 64-bit words, so every length
inside the result has to fit into one. -/
namespace StatementCache

def wordBound : Nat := 18446744073709551616

def Scalar.Sized : Scalar → Prop
  | .text s => (Text.utf8 s).length < wordBound
  | .bytes content => content.length < wordBound
  | _ => True

mutual

/-- No text, byte string or list in the value is too long to be counted. -/
def Value.Sized : Value → Prop
  | .scalar s => s.Sized
  | .list items => items.length < wordBound ∧ Value.AllSized items

def Value.AllSized : List Value → Prop
  | [] => True
  | v :: vs => v.Sized ∧ Value.AllSized vs

end

def Row.Sized (row : Row) : Prop := row.length < wordBound ∧ Value.AllSized row

def Rows.Sized (rows : Rows) : Prop := rows.length < wordBound ∧ ∀ row ∈ rows, row.Sized

theorem Rows.Sized.page {rows : Rows} (h : rows.Sized) (bounds : RowBounds) :
    Rows.Sized (bounds.page rows) := by
  refine ⟨?_, fun row mem => h.2 row ?_⟩
  · have length : (bounds.page rows).length ≤ rows.length := by
      simp only [RowBounds.page, List.length_take, List.length_drop]
      omega
    exact Nat.lt_of_le_of_lt length h.1
  · exact List.mem_of_mem_drop (List.mem_of_mem_take mem)

namespace Snapshot

/-- The decoder reads the item back from its bytes, whatever follows them. -/
def Reads {α : Type} (decode : Decoder α) (bytes : List UInt8) (item : α) : Prop :=
  ∀ rest, decode (bytes ++ rest) = .ok (item, rest)

namespace Reads

variable {α β : Type} {bytes more : List UInt8}

theorem pure (a : α) : Reads (pure a : Decoder α) [] a := fun _ => rfl

theorem bind {decode : Decoder α} {next : α → Decoder β} {a : α} {b : β}
    (first : Reads decode bytes a) (second : Reads (next a) more b) :
    Reads (decode >>= next) (bytes ++ more) b := by
  intro rest
  have run : (decode >>= next) (bytes ++ (more ++ rest)) = next a (more ++ rest) := by
    change (decode (bytes ++ (more ++ rest)) >>= fun p => next p.1 p.2) = _
    rw [first]
    rfl
  rw [List.append_assoc, run, second]

theorem map {decode : Decoder α} {a : α} (h : Reads decode bytes a) (f : α → β) :
    Reads (do return f (← decode)) bytes (f a) := by
  have h : Reads (decode >>= fun a => Pure.pure (f a)) (bytes ++ []) (f a) := h.bind (pure (f a))
  rwa [List.append_nil] at h

end Reads

theorem reads_number {count n : Nat} (h : n < Nat.pow 256 count) :
    Reads (number count) (Text.toLittleEndian count n) n := by
  intro rest
  have length : ¬(Text.toLittleEndian count n ++ rest).length < count := by
    rw [List.length_append, Text.length_toLittleEndian]
    omega
  have front : (Text.toLittleEndian count n ++ rest).take count = Text.toLittleEndian count n :=
    List.take_left' (Text.length_toLittleEndian count n)
  have back : (Text.toLittleEndian count n ++ rest).drop count = rest :=
    List.drop_left' (Text.length_toLittleEndian count n)
  rw [number, if_neg length, front, back, Text.ofLittleEndian_toLittleEndian, Nat.mod_eq_of_lt h]

theorem reads_word {n : Nat} (h : n < wordBound) : Reads (number 8) (word n) n := reads_number h

theorem reads_many {α : Type} {item : Decoder α} {write : α → List UInt8} {items : List α}
    (h : ∀ a ∈ items, Reads item (write a) a) :
    Reads (many item items.length) (items.flatMap write) items := by
  induction items with
  | nil => exact Reads.pure []
  | cons a items ih =>
    rw [List.flatMap_cons]
    refine (h a List.mem_cons_self).bind ?_
    exact (ih fun b hb => h b (List.mem_cons_of_mem a hb)).map (a :: ·)

theorem reads_sequence {α : Type} {item : Decoder α} {write : α → List UInt8} {items : List α}
    (length : items.length < wordBound) (h : ∀ a ∈ items, Reads item (write a) a) :
    Reads (sequence item) (word items.length ++ items.flatMap write) items :=
  (reads_word length).bind (reads_many h)

theorem reads_byte (b : UInt8) : Reads byte [b] b := fun _ => rfl

theorem reads_text {s : String} (h : (Text.utf8 s).length < wordBound) :
    Reads text (word (Text.utf8 s).length ++ Text.utf8 s) s := by
  intro rest
  have first := reads_word h (Text.utf8 s ++ rest)
  have length : ¬(Text.utf8 s ++ rest).length < (Text.utf8 s).length := by
    rw [List.length_append]
    omega
  have front : (Text.utf8 s ++ rest).take (Text.utf8 s).length = Text.utf8 s :=
    List.take_left' rfl
  have back : (Text.utf8 s ++ rest).drop (Text.utf8 s).length = rest := List.drop_left' rfl
  rw [List.append_assoc]
  simp only [text, bind, StateT.bind, first, Except.bind, get, getThe, MonadStateOf.get,
    StateT.get, pure, Except.pure, if_neg length, front, back, Text.ofUtf8_utf8]
  rfl

theorem reads_signedWord (n : Int64) : Reads signedWord (word n.toUInt64.toNat) n := by
  have h := (reads_word n.toUInt64.toNat_lt).map fun n => (UInt64.ofNat n).toInt64
  rwa [UInt64.ofNat_toNat, Int64.toInt64_toUInt64] at h

theorem reads_kind {k : Nat} (h : k < 8) : Reads (number 4) (kind k) k :=
  reads_number (Nat.lt_trans h (by decide))

theorem reads_scalar {s : Scalar} (sized : s.Sized) (depth : Nat) :
    Reads (value (depth + 1)) (ofScalar s) (.scalar s) := by
  unfold value
  cases s with
  | integer n =>
    refine (reads_kind (by decide)).bind ?_
    exact (reads_signedWord n).map fun n => Value.scalar (.integer n)
  | float x =>
    refine (reads_kind (by decide)).bind ?_
    have bits := (reads_word x.bits.toNat_lt).map fun n => Value.scalar (.float ⟨UInt64.ofNat n⟩)
    rwa [UInt64.ofNat_toNat] at bits
  | bool b =>
    refine (reads_kind (by decide)).bind fun rest => ?_
    cases b with
    | false => rfl
    | true => rfl
  | text s =>
    rw [ofScalar, List.append_assoc]
    refine (reads_kind (by decide)).bind ?_
    exact (reads_text sized).map fun s => Value.scalar (.text s)
  | bytes content =>
    rw [ofScalar, List.append_assoc]
    refine (reads_kind (by decide)).bind ?_
    have items : Reads (sequence byte) (word content.length ++ content.flatMap fun b => [b])
        content := reads_sequence sized fun b _ => reads_byte b
    rw [List.flatMap_singleton'] at items
    exact items.map fun content => Value.scalar (.bytes content)
  | timestamp t =>
    refine (reads_kind (by decide)).bind ?_
    exact (reads_signedWord t).map fun t => Value.scalar (.timestamp t)
  | null =>
    rw [ofScalar, ← List.append_nil (kind 7)]
    refine (reads_kind (by decide)).bind ?_
    exact Reads.pure Value.null

theorem ofValues_eq_flatMap (vs : List Value) : ofValues vs = vs.flatMap ofValue := by
  induction vs with
  | nil => rfl
  | cons v vs ih => rw [ofValues, ih, List.flatMap_cons]

theorem length_ofValue_le {v : Value} {vs : List Value} (mem : v ∈ vs) :
    (ofValue v).length ≤ (ofValues vs).length := by
  induction vs with
  | nil => cases mem
  | cons u vs ih =>
    rw [ofValues, List.length_append]
    cases mem with
    | head => exact Nat.le_add_right _ _
    | tail _ mem => exact Nat.le_trans (ih mem) (Nat.le_add_left _ _)

theorem sized_of_mem {v : Value} {vs : List Value} (h : Value.AllSized vs) (mem : v ∈ vs) :
    v.Sized := by
  induction vs with
  | nil => cases mem
  | cons u vs ih =>
    cases mem with
    | head => exact h.1
    | tail _ mem => exact ih h.2 mem

/-- The bytes of an item are fewer than those of its list, so they bound the depth. -/
theorem reads_value {v : Value} {depth : Nat} (sized : v.Sized)
    (deep : (ofValue v).length < depth) : Reads (value depth) (ofValue v) v := by
  induction depth generalizing v with
  | zero => exact absurd deep (Nat.not_lt_zero _)
  | succ depth ih =>
    cases v with
    | scalar s => exact reads_scalar sized depth
    | list items =>
      have length : (ofValue (.list items)).length = 12 + (ofValues items).length := by
        simp only [ofValue, List.length_append, kind, word, Text.length_toLittleEndian]
      rw [ofValue, List.append_assoc, ofValues_eq_flatMap]
      unfold value
      refine (reads_kind (by decide)).bind ?_
      refine (reads_sequence sized.1 fun v mem => ?_).map Value.list
      have shorter := length_ofValue_le mem
      exact ih (sized_of_mem sized.2 mem) (by omega)

theorem reads_row {row : Row} {depth : Nat} (sized : row.Sized)
    (deep : (ofRow row).length < depth) : Reads (sequence (value depth)) (ofRow row) row := by
  have length : (ofRow row).length = 8 + (ofValues row).length := by
    simp only [ofRow, List.length_append, word, Text.length_toLittleEndian]
  rw [ofRow, ofValues_eq_flatMap]
  refine reads_sequence sized.1 fun v mem => ?_
  have shorter := length_ofValue_le mem
  exact reads_value (sized_of_mem sized.2 mem) (by omega)

theorem length_ofRow_le {row : Row} {rows : Rows} (mem : row ∈ rows) :
    (ofRow row).length ≤ (ofRows rows).length := by
  obtain ⟨before, after, rfl⟩ := List.append_of_mem mem
  simp only [ofRows, List.flatMap_append, List.flatMap_cons, List.length_append]
  omega

theorem toRows_append {rows : Rows} (sized : rows.Sized) (rest : List UInt8) :
    toRows (ofRows rows ++ rest) = .ok rows := by
  have shorter : (ofRows rows).length ≤ (ofRows rows ++ rest).length := by
    rw [List.length_append]
    exact Nat.le_add_right _ _
  have reads : Reads (sequence (sequence (value ((ofRows rows ++ rest).length + 1))))
      (ofRows rows) rows :=
    reads_sequence sized.1 fun row mem => reads_row (sized.2 row mem)
      (Nat.lt_succ_of_le (Nat.le_trans (length_ofRow_le mem) shorter))
  simp only [toRows, StateT.run, reads rest]
  rfl

theorem toRows_ofRows {rows : Rows} (sized : rows.Sized) : toRows (ofRows rows) = .ok rows := by
  rw [← List.append_nil (ofRows rows), toRows_append sized]

end Snapshot
end StatementCache
