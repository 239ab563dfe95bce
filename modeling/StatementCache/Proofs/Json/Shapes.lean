import StatementCache.Proofs.Json.Tokens

/-! Values are read back from their text wherever they stand: at the end, before a comma, or before
a closing bracket. An object is read into a draft, one member after the other. -/
namespace StatementCache.Json

open Reader

variable {α σ : Type}

def Opens : List Char → Prop
  | [] => False
  | c :: _ => isBlank c = false ∧ c ≠ ']'

/-- The reader reads `a` back from the text of the value, wherever that stands. -/
structure Reads (item : Reader α) (j : Json) (a : α) : Prop where
  opens : Opens j.write
  run : ∀ rest, Closed rest → item (j.write ++ rest) = .ok (a, rest)

/-! Scalars. -/

theorem quote_append (s : String) (rest : List Char) :
    quote s ++ rest = '"' :: (s.toList.flatMap escape ++ '"' :: rest) := by
  simp only [quote, List.cons_append, List.append_assoc, List.nil_append]

theorem reads_string (s : String) : Reads Reader.string (.string s) s where
  opens := ⟨rfl, by decide⟩
  run rest _ := by
    rw [write, quote_append]
    exact stringBody_quoted s rest

theorem reads_bool (b : Bool) : Reads Reader.bool (.bool b) b := by
  cases b with
  | false => exact ⟨⟨rfl, by decide⟩, fun _ _ => rfl⟩
  | true => exact ⟨⟨rfl, by decide⟩, fun _ _ => rfl⟩

theorem write_integer (n : Nat) : write (.integer n) = Nat.toDigits 10 n := by
  rw [write, integerText, if_neg (Int.not_lt.mpr (Int.natCast_nonneg n)), Int.natAbs_natCast]

theorem opens_toDigits (n : Nat) : Opens (Nat.toDigits 10 n) := by
  obtain ⟨c, tail, begins, digit⟩ := toDigits_eq_cons n
  rw [begins]
  refine ⟨not_isBlank_of_isDigit digit, ?_⟩
  rintro rfl
  cases digit

theorem reads_word (n : UInt64) : Reads Reader.word (.integer n.toNat) n where
  opens := by
    rw [write_integer]
    exact opens_toDigits n.toNat
  run rest closed := by
    rw [write_integer]
    exact word_toDigits n closed

def Present (j : Json) : Prop := j.write.head? ≠ some 'n'

theorem present_string (s : String) : Present (.string s) := by
  rintro ⟨⟩

theorem present_integer (n : Nat) : Present (.integer n) := by
  obtain ⟨c, tail, begins, digit⟩ := toDigits_eq_cons n
  rw [Present, write_integer, begins]
  rintro ⟨⟩
  cases digit

theorem look_of_opens {text : List Char} (opens : Opens text) (rest : List Char) :
    ∃ c, text.head? = some c ∧ c ≠ ']' ∧ look (text ++ rest) = .ok (some c, text ++ rest) := by
  cases text with
  | nil => exact opens.elim
  | cons c tail => exact ⟨c, rfl, opens.2, look_append rfl opens.1⟩

theorem reads_optional {item : Reader α} {f : α → Json} (reads : ∀ a, Reads item (f a) a)
    (present : ∀ a, Present (f a)) (o : Option α) :
    Reads (Reader.optional item) (Json.ofOption f o) o := by
  cases o with
  | none => exact ⟨⟨rfl, by decide⟩, fun _ _ => rfl⟩
  | some a =>
    refine ⟨(reads a).opens, fun rest closed => ?_⟩
    obtain ⟨c, first, -, run⟩ := look_of_opens (reads a).opens rest
    have other := present a
    rw [Present, first] at other
    rw [Reader.optional, Json.ofOption, bind_ok run]
    generalize some c = next at other
    split
    · exact absurd rfl other
    · exact map_ok ((reads a).run rest closed) some

/-! Arrays. -/

theorem writeItems_cons (j : Json) (js : List Json) :
    writeItems (j :: js) = j.write ++ js.flatMap fun j => ',' :: j.write := by
  induction js generalizing j with
  | nil => rw [writeItems, List.flatMap_nil, List.append_nil]
  | cons next js ih =>
    rw [writeItems, ih, List.flatMap_cons, List.cons_append]
    exact List.cons_ne_nil next js

section

variable {β : Type} (f : β → List Char) (items : List β) {c : Char} {rest : List Char}

theorem closed_flatMap (close : Closed (c :: rest)) :
    Closed (items.flatMap (fun b => ',' :: f b) ++ c :: rest) := by
  cases items with
  | nil => exact close
  | cons b items => exact .inl rfl

theorem length_lt_of_flatMap (before : List Char) :
    items.length < (before ++ (items.flatMap (fun b => ',' :: f b) ++ c :: rest)).length := by
  have := length_le_length_flatMap items fun b _ => List.cons_ne_nil ',' (f b)
  simp only [List.length_append, List.length_cons]
  omega

end

section

variable {item : Reader α} {f : α → Json} {j : Json} {a : α} {items : List α} {fuel : Nat}
  {rest : List Char}

theorem position_first (reads : Reads item j a) (closed : Closed rest) :
    position true item (j.write ++ rest) = .ok (some a, rest) := by
  obtain ⟨c, -, other, run⟩ := look_of_opens reads.opens rest
  rw [position, bind_ok run]
  generalize same : some c = next
  split
  · cases same
  · cases same
    exact absurd rfl other
  · exact map_ok (reads.run rest closed) some

theorem position_next (reads : Reads item j a) (closed : Closed rest) :
    position false item (',' :: (j.write ++ rest)) = .ok (some a, rest) := by
  obtain ⟨c, -, other, run⟩ := look_of_opens reads.opens rest
  have comma (s : List Char) : look (',' :: s) = .ok (some ',', ',' :: s) := rfl
  have after (s : List Char) : advance (',' :: s) = .ok ((), s) := rfl
  rw [position, bind_ok (comma _)]
  change (if false = true then _ else if ',' = ',' then _ else _ : Reader _) _ = _
  rw [if_neg Bool.false_ne_true, if_pos rfl, bind_ok (after _), bind_ok run]
  generalize same : some c = next
  split
  · cases same
  · cases same
    exact absurd rfl other
  · exact map_ok (reads.run rest closed) some

theorem positions_next (reads : ∀ a ∈ items, Reads item (f a) a) (enough : items.length < fuel) :
    positions item fuel false (items.flatMap (fun a => ',' :: (f a).write) ++ ']' :: rest) =
      .ok (items, rest) := by
  induction items generalizing fuel with
  | nil =>
    obtain ⟨fuel, rfl⟩ := Nat.exists_eq_succ_of_ne_zero (Nat.ne_of_gt enough)
    rfl
  | cons a items ih =>
    obtain ⟨fuel, rfl⟩ := Nat.exists_eq_succ_of_ne_zero (Nat.ne_of_gt (Nat.zero_lt_of_lt enough))
    have closed : Closed (items.flatMap (fun a => ',' :: (f a).write) ++ ']' :: rest) :=
      closed_flatMap _ items (.inr (.inl rfl))
    have first := position_next (reads a List.mem_cons_self) closed
    have more := ih (fun b mem => reads b (List.mem_cons_of_mem a mem))
      (Nat.lt_of_succ_lt_succ enough)
    rw [List.flatMap_cons, List.append_assoc, List.cons_append, positions, bind_ok first]
    exact map_ok more (a :: ·)

theorem items_read (reads : ∀ a ∈ items, Reads item (f a) a) :
    Reader.items item (writeItems (items.map f) ++ ']' :: rest) = .ok (items, rest) := by
  cases items with
  | nil => rfl
  | cons a items =>
    have closed : Closed (items.flatMap (fun a => ',' :: (f a).write) ++ ']' :: rest) :=
      closed_flatMap _ items (.inr (.inl rfl))
    have first := position_first (reads a List.mem_cons_self) closed
    rw [List.map_cons, writeItems_cons, List.flatMap_map, List.append_assoc]
    change positions item (List.length _ + 1) true _ = _
    rw [positions, bind_ok first]
    have others : ∀ b ∈ items, Reads item (f b) b := fun b mem =>
      reads b (List.mem_cons_of_mem a mem)
    exact map_ok (positions_next others (length_lt_of_flatMap _ items _)) (a :: ·)

theorem reads_array (reads : ∀ a ∈ items, Reads item (f a) a) :
    Reads (Reader.array item) (.array (items.map f)) items where
  opens := by
    rw [write]
    exact ⟨rfl, by decide⟩
  run rest _ := by
    rw [write, List.cons_append, List.cons_append, List.append_assoc, List.singleton_append]
    exact items_read reads

end

/-! Objects. -/

def writeMember (m : String × Json) : List Char := quote m.1 ++ ':' :: m.2.write

theorem writeMembers_cons (m : String × Json) (ms : List (String × Json)) :
    writeMembers (m :: ms) = writeMember m ++ ms.flatMap fun m => ',' :: writeMember m := by
  induction ms generalizing m with
  | nil => rw [writeMembers, List.flatMap_nil, List.append_nil, writeMember]
  | cons next ms ih =>
    rw [writeMembers, ih, List.flatMap_cons]
    · rfl
    · exact List.cons_ne_nil next ms

theorem writeMember_append (m : String × Json) (rest : List Char) :
    writeMember m ++ rest =
      '"' :: (m.1.toList.flatMap escape ++ '"' :: ':' :: (m.2.write ++ rest)) := by
  rw [writeMember, List.append_assoc, quote_append, List.cons_append]

def Fills (member : String → σ → Reader σ) (m : String × Json) (d d' : σ) : Prop :=
  ∀ rest, Closed rest → member m.1 d (':' :: (m.2.write ++ rest)) = .ok (d', rest)

inductive FillsAll (member : String → σ → Reader σ) : List (String × Json) → σ → σ → Prop where
  | nil (d : σ) : FillsAll member [] d d
  | cons {m : String × Json} {ms : List (String × Json)} {d d' d'' : σ} :
    Fills member m d d' → FillsAll member ms d' d'' → FillsAll member (m :: ms) d d''

section

variable {member : String → σ → Reader σ} {m : String × Json} {ms : List (String × Json)}
  {d d' : σ} {rest : List Char} {fuel : Nat}

theorem memberName_first :
    memberName true (writeMember m ++ rest) = .ok (some m.1, ':' :: (m.2.write ++ rest)) := by
  rw [writeMember_append]
  exact map_ok (stringBody_quoted m.1 (':' :: (m.2.write ++ rest))) some

theorem memberName_next :
    memberName false (',' :: (writeMember m ++ rest)) =
      .ok (some m.1, ':' :: (m.2.write ++ rest)) := by
  rw [writeMember_append]
  exact map_ok (stringBody_quoted m.1 (':' :: (m.2.write ++ rest))) some

theorem membersFrom_next (fills : FillsAll member ms d d') (enough : ms.length < fuel) :
    membersFrom member fuel false d
      (ms.flatMap (fun m => ',' :: writeMember m) ++ '\x7d' :: rest) = .ok (d', rest) := by
  induction fills generalizing fuel with
  | nil =>
    obtain ⟨fuel, rfl⟩ := Nat.exists_eq_succ_of_ne_zero (Nat.ne_of_gt enough)
    rfl
  | @cons m ms d d' d'' fill fills ih =>
    obtain ⟨fuel, rfl⟩ := Nat.exists_eq_succ_of_ne_zero (Nat.ne_of_gt (Nat.zero_lt_of_lt enough))
    have closed : Closed (ms.flatMap (fun m => ',' :: writeMember m) ++ '\x7d' :: rest) :=
      closed_flatMap _ ms (.inr (.inr rfl))
    rw [List.flatMap_cons, List.append_assoc, List.cons_append, membersFrom,
      bind_ok memberName_next]
    exact (bind_ok (fill _ closed)).trans (ih (Nat.lt_of_succ_lt_succ enough))

/-- An object is read into the draft that its members make. -/
theorem members_read (fills : FillsAll member ms d d') :
    members member d (writeMembers ms ++ '\x7d' :: rest) = .ok (d', rest) := by
  cases fills with
  | nil => rfl
  | @cons m ms d d' d'' fill fills =>
    have closed : Closed (ms.flatMap (fun m => ',' :: writeMember m) ++ '\x7d' :: rest) :=
      closed_flatMap _ ms (.inr (.inr rfl))
    rw [writeMembers_cons, List.append_assoc]
    change membersFrom member (List.length _ + 1) true d _ = _
    rw [membersFrom, bind_ok memberName_first]
    exact (bind_ok (fill _ closed)).trans
      (membersFrom_next fills (length_lt_of_flatMap writeMember ms (writeMember m)))

end

end StatementCache.Json
