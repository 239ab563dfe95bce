import Mathlib.Algebra.BigOperators.Group.List.Basic
import StatementCache.Json.Basic
import StatementCache.Json.Shape

/-! Strings and numbers are read back from their text. A string ends at its closing quote; a number
ends where something follows that could not continue it. -/
namespace StatementCache.Json

namespace Reader

variable {α β : Type} {s s' : List Char}

theorem bind_ok {m : Reader α} {f : α → Reader β} {a : α} (h : m s = .ok (a, s')) :
    (m >>= f) s = f a s' := by
  change (m s >>= fun p => f p.1 p.2) = f a s'
  rw [h]
  rfl

theorem map_ok {m : Reader α} {a : α} (h : m s = .ok (a, s')) (f : α → β) :
    (do return f (← m)) s = .ok (f a, s') := bind_ok h

section

variable {text tail : List Char} {c : Char} (begins : text = c :: tail)

include begins

theorem peek_append : peek (text ++ s) = .ok (some c, text ++ s) := by
  subst begins
  rfl

theorem look_append (shown : isBlank c = false) : look (text ++ s) = .ok (some c, text ++ s) := by
  subst begins
  rw [List.cons_append, look,
    List.dropWhile_cons_of_neg (by rw [shown]; exact Bool.false_ne_true)]
  rfl

end

end Reader

theorem length_le_length_flatMap {α : Type} {f : α → List Char} (items : List α)
    (some : ∀ a ∈ items, f a ≠ []) : items.length ≤ (items.flatMap f).length := by
  rw [List.length_flatMap, ← List.length_map (f := fun a => (f a).length)]
  refine List.length_le_sum_of_one_le _ fun n mem => ?_
  obtain ⟨a, there, rfl⟩ := List.mem_map.mp mem
  exact List.length_pos_of_ne_nil (some a there)

/-! Strings. -/

section

open Reader

variable {s : List Char} {c : Char}

theorem hexValue?_digitChar {n : Nat} (h : n < 16) : hexValue? n.digitChar = some n := by
  have all : ∀ n < 16, hexValue? (Nat.digitChar n) = some n := by decide
  exact all n h

theorem unicodeEscape_control (h : c.toNat < 0x20) :
    unicodeEscape ('0' :: '0' :: (c.toNat / 16).digitChar :: (c.toNat % 16).digitChar :: s) =
      .ok (c, s) := by
  have zero : hexValue? '0' = some 0 := rfl
  have digits : ((0 * 16 + 0) * 16 + c.toNat / 16) * 16 + c.toNat % 16 = c.toNat := by omega
  have read : fourHex ('0' :: '0' :: (c.toNat / 16).digitChar :: (c.toNat % 16).digitChar :: s) =
      .ok (c.toNat, s) := by
    simp only [fourHex, zero, hexValue?_digitChar (show c.toNat / 16 < 16 by omega),
      hexValue?_digitChar (show c.toNat % 16 < 16 by omega), digits]
  have low : ¬(0xDC00 ≤ c.toNat ∧ c.toNat ≤ 0xDFFF) := by omega
  have high : ¬(0xD800 ≤ c.toNat ∧ c.toNat ≤ 0xDBFF) := by omega
  rw [unicodeEscape, bind_ok read, if_neg low, if_neg high, Char.ofNat_toNat]
  rfl

theorem stringRest_escape {fuel : Nat} {chars rest : List Char}
    (more : stringRest unicodeEscape fuel s = .ok (chars, rest)) (c : Char) :
    stringRest unicodeEscape (fuel + 1) (escape c ++ s) = .ok (c :: chars, rest) := by
  have go (c : Char) : (stringRest unicodeEscape fuel >>= fun chars => pure (c :: chars)) s =
      .ok (c :: chars, rest) := bind_ok more
  -- the seven short escapes are read by computation, each as its own character
  unfold escape
  split
  · exact go _
  · exact go _
  · exact go _
  · exact go _
  · exact go _
  · exact go _
  · exact go _
  · rename_i quote slash _ _ _ _ _
    split
    · rename_i control
      change (unicodeEscape >>= fun first => stringRest unicodeEscape fuel >>= fun chars =>
        pure (first :: chars))
          ('0' :: '0' :: (c.toNat / 16).digitChar :: (c.toNat % 16).digitChar :: s) = _
      rw [bind_ok (unicodeEscape_control control)]
      exact go c
    · rename_i shown
      have step : stringRest unicodeEscape (fuel + 1) (c :: s) =
          (if c = '"' then (do advance; pure [])
          else if c = '\\' then (do
            advance
            let first ← escaped unicodeEscape
            return first :: (← stringRest unicodeEscape fuel))
          else if c.toNat < 0x20 then fail .malformed
          else (do
            advance
            return c :: (← stringRest unicodeEscape fuel)) : Reader (List Char)) (c :: s) := rfl
      rw [List.singleton_append, step, if_neg quote, if_neg slash, if_neg shown]
      exact go c

theorem stringRest_quoted (chars rest : List Char) {fuel : Nat} (enough : chars.length < fuel) :
    stringRest unicodeEscape fuel (chars.flatMap escape ++ '"' :: rest) = .ok (chars, rest) := by
  induction chars generalizing fuel with
  | nil =>
    obtain ⟨fuel, rfl⟩ := Nat.exists_eq_succ_of_ne_zero (Nat.ne_of_gt enough)
    rfl
  | cons c chars ih =>
    obtain ⟨fuel, rfl⟩ := Nat.exists_eq_succ_of_ne_zero (Nat.ne_of_gt (Nat.zero_lt_of_lt enough))
    rw [List.flatMap_cons, List.append_assoc]
    exact stringRest_escape (ih (Nat.lt_of_succ_lt_succ enough)) c

theorem escape_ne_nil (c : Char) : escape c ≠ [] := by
  unfold escape
  split
  all_goals first | exact List.cons_ne_nil _ _ | split <;> exact List.cons_ne_nil _ _

/-- Any string is read back from its quoted form. -/
theorem stringBody_quoted (text : String) (rest : List Char) :
    stringBody (text.toList.flatMap escape ++ '"' :: rest) = .ok (text, rest) := by
  have enough : text.toList.length < (text.toList.flatMap escape ++ '"' :: rest).length + 1 := by
    have := length_le_length_flatMap text.toList fun c _ => escape_ne_nil c
    rw [List.length_append]
    omega
  have run := map_ok (stringRest_quoted text.toList rest enough) String.ofList
  rwa [String.ofList_toList] at run

end

/-! Numbers. -/

section

open Reader

theorem head_toDigits_ne_zero {n : Nat} (positive : n ≠ 0) :
    (Nat.toDigits 10 n).head? ≠ some '0' := by
  induction n using Nat.strongRecOn with
  | ind n ih =>
    by_cases small : n < 10
    · have all : ∀ n < 10, n ≠ 0 → [Nat.digitChar n].head? ≠ some '0' := by decide
      rw [Nat.toDigits_of_lt_base small]
      exact all n small positive
    · rw [Nat.toDigits_of_base_le (by decide) (by omega),
        List.head?_append_of_ne_nil _ Nat.toDigits_ne_nil]
      exact ih (n / 10) (by omega) (by omega)

theorem le_foldl_digits (ds : List Nat) (n : Nat) : n ≤ ds.foldl (fun n d => n * 10 + d) n := by
  induction ds generalizing n with
  | nil => exact Nat.le_refl n
  | cons d ds ih => exact Nat.le_trans (by omega) (ih (n * 10 + d))

theorem accumulate_eq {ds : List Nat} {n : Nat}
    (fits : ds.foldl (fun n d => n * 10 + d) n < UInt64.size) :
    accumulate n ds = (ds.foldl (fun n d => n * 10 + d) n, ds.length) := by
  induction ds generalizing n with
  | nil => rfl
  | cons d ds ih =>
    have first : n * 10 + d < UInt64.size := Nat.lt_of_le_of_lt (le_foldl_digits ds _) fits
    rw [accumulate, if_pos first, ih fits]
    rfl

/-- Nothing that could continue a number follows: the text ends, or a value has ended. -/
def Closed : List Char → Prop
  | [] => True
  | c :: _ => c = ',' ∨ c = ']' ∨ c = '\x7d'

theorem digits_append {text rest : List Char} (all : ∀ c ∈ text, c.isDigit) (closed : Closed rest) :
    digits (text ++ rest) = .ok (text.map (fun c => c.toNat - '0'.toNat), rest) := by
  have stop : rest.takeWhile Char.isDigit = [] ∧ rest.dropWhile Char.isDigit = rest := by
    cases rest with
    | nil => exact ⟨rfl, rfl⟩
    | cons c rest => obtain rfl | rfl | rfl := closed <;> exact ⟨rfl, rfl⟩
  rw [digits, List.takeWhile_append_of_pos all, List.dropWhile_append_of_pos all, stop.1, stop.2,
    List.append_nil]

theorem numeral_end {rest : List Char} (closed : Closed rest) (n : Nat) :
    (do
      match ← peek with
      | some '.' => return .float (signed true (← fraction n 0))
      | some 'e' | some 'E' => return .float (signed true (← exponentPart n 0))
      | _ => pure (Numeral.natural n) : Reader Numeral) rest = .ok (.natural n, rest) := by
  cases rest with
  | nil => rfl
  | cons c rest => obtain rfl | rfl | rfl := closed <;> rfl

theorem length_toDigits_of_zero {n : Nat} {tail : List Char}
    (leading : Nat.toDigits 10 n = '0' :: tail) : (Nat.toDigits 10 n).length = 1 := by
  by_cases zero : n = 0
  · subst zero
    rfl
  · have first := head_toDigits_ne_zero zero
    rw [leading] at first
    exact absurd rfl first

theorem toDigits_eq_cons (n : Nat) : ∃ c tail, Nat.toDigits 10 n = c :: tail ∧ c.isDigit := by
  obtain ⟨c, tail, begins⟩ := List.exists_cons_of_ne_nil (Nat.toDigits_ne_nil (n := n) (b := 10))
  have mem : c ∈ Nat.toDigits 10 n := begins ▸ List.mem_cons_self
  exact ⟨c, tail, begins, Nat.isDigit_of_mem_toDigits (by decide) (by decide) mem⟩

theorem accumulate_toDigits {n : Nat} (small : n < UInt64.size) :
    accumulate 0 ((Nat.toDigits 10 n).map fun c => c.toNat - '0'.toNat) =
      (n, ((Nat.toDigits 10 n).map fun c => c.toNat - '0'.toNat).length) := by
  have value : ((Nat.toDigits 10 n).map fun c => c.toNat - '0'.toNat).foldl
      (fun n d => n * 10 + d) 0 = n := by
    rw [List.foldl_map]
    have value := Nat.ofDigitChars_ten_toDigits (n := n)
    unfold Nat.ofDigitChars at value
    simpa only [Nat.mul_comm] using value
  rw [accumulate_eq (value.symm ▸ small), value]

variable {n : Nat} {rest : List Char}

theorem unsigned_toDigits (small : n < UInt64.size) (closed : Closed rest) :
    unsigned true (Nat.toDigits 10 n ++ rest) = .ok (.natural n, rest) := by
  obtain ⟨c, tail, begins, digit⟩ := toDigits_eq_cons n
  have all : ∀ c ∈ Nat.toDigits 10 n, c.isDigit := fun c mem =>
    Nat.isDigit_of_mem_toDigits (by decide) (by decide) mem
  have run := digits_append all closed
  have leading : ¬(c = '0' ∧
      ((Nat.toDigits 10 n).map fun c => c.toNat - '0'.toNat).length ≠ 1) := by
    rintro ⟨rfl, more⟩
    rw [List.length_map] at more
    exact more (length_toDigits_of_zero begins)
  rw [unsigned, bind_ok (peek_append begins)]
  dsimp only
  rw [digit, Bool.not_true, if_neg Bool.false_ne_true, bind_ok run, if_neg leading,
    accumulate_toDigits small]
  dsimp only
  rw [Int.sub_self]
  exact numeral_end closed n

theorem numeral_toDigits (small : n < UInt64.size) (closed : Closed rest) :
    numeral (Nat.toDigits 10 n ++ rest) = .ok (.natural n, rest) := by
  obtain ⟨c, tail, begins, digit⟩ := toDigits_eq_cons n
  rw [numeral, bind_ok (peek_append begins)]
  generalize same : some c = next
  split
  · cases same
    cases digit
  · exact unsigned_toDigits small closed

theorem not_isBlank_of_isDigit {c : Char} (digit : c.isDigit) : isBlank c = false := by
  cases blank : isBlank c with
  | false => rfl
  | true =>
    simp only [isBlank, Bool.or_eq_true, beq_iff_eq] at blank
    obtain ((rfl | rfl) | rfl) | rfl := blank <;> cases digit

theorem number_toDigits (small : n < UInt64.size) (closed : Closed rest) :
    number (Nat.toDigits 10 n ++ rest) = .ok (.natural n, rest) := by
  obtain ⟨c, tail, begins, digit⟩ := toDigits_eq_cons n
  rw [number, bind_ok (look_append begins (not_isBlank_of_isDigit digit))]
  dsimp only
  rw [if_pos (.inr digit)]
  exact numeral_toDigits small closed

theorem word_toDigits (n : UInt64) (closed : Closed rest) :
    word (Nat.toDigits 10 n.toNat ++ rest) = .ok (n, rest) := by
  have fits : (0 : Int) ≤ (n.toNat : Int) ∧ (n.toNat : Int) ≤ 0xffffffffffffffff := by
    have := n.toNat_lt
    omega
  have read : Reader.integer 0 0xffffffffffffffff (Nat.toDigits 10 n.toNat ++ rest) =
      .ok ((n.toNat : Int), rest) := by
    rw [Reader.integer, bind_ok (number_toDigits n.toNat_lt closed)]
    dsimp only
    rw [if_pos fits]
    rfl
  have run := map_ok read fun i => UInt64.ofNat i.toNat
  rwa [Int.toNat_natCast, UInt64.ofNat_toNat] at run

end

end StatementCache.Json
