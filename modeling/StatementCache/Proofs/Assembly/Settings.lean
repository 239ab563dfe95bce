import StatementCache.Proofs.Contents.Assembly
import StatementCache.Proofs.Contents.Visits

/-! What a layer makes of a property that is offered to it while it is new. Each layer has rules for
the settings of its own; offering it a list of properties succeeds where every value obeys the rule
for its name, and reports a mistake in the description otherwise. -/
namespace StatementCache

open StatementCache.Action

namespace Setting

variable {name value : String} {n : Nat} {e : Fault}

theorem config_of_word (bad : word name value = .error e) : ∃ reason, e = .config reason := by
  unfold word at bad
  split at bad
  · split at bad
    · cases bad
    · cases bad
      exact ⟨_, rfl⟩
  · cases bad
    exact ⟨_, rfl⟩

theorem config_of_capacity (bad : capacity name value = .error e) : ∃ reason, e = .config reason := by
  unfold capacity at bad
  cases asked : word name value with
  | error e' =>
    simp only [asked, bind, Except.bind] at bad
    cases bad
    exact config_of_word asked
  | ok m =>
    simp only [asked, bind, Except.bind] at bad
    split at bad
    · cases bad
      exact ⟨_, rfl⟩
    · cases bad

theorem capacity_eq_ok_iff : capacity name value = .ok n ↔ word name value = .ok n ∧ 1 ≤ n := by
  cases asked : word name value with
  | error e => simp [capacity, asked, bind, Except.bind]
  | ok m =>
    by_cases zero : m = 0
    · simp only [capacity, asked, bind, Except.bind, zero, if_true, reduceCtorEq, false_iff,
        Except.ok.injEq]
      omega
    · simp only [capacity, asked, bind, Except.bind, zero, if_false, Except.ok.injEq]
      omega

theorem not_isBlank_of_isDigit {c : Char} (digit : c.isDigit) : Text.isBlank c = false := by
  simp only [Char.isDigit, Bool.and_eq_true, decide_eq_true_eq] at digit
  have low : 48 ≤ c.toNat := digit.1
  have high : c.toNat ≤ 57 := digit.2
  simp only [Text.isBlank, Bool.or_eq_false_iff, Bool.and_eq_false_iff, decide_eq_false_iff_not,
    beq_eq_false_iff_ne]
  omega

theorem trim_digits {s : List Char} (digits : ∀ c ∈ s, c.isDigit) : Text.trim s = s := by
  have bare (s : List Char) (digits : ∀ c ∈ s, c.isDigit) : s.dropWhile Text.isBlank = s := by
    cases s with
    | nil => rfl
    | cons c rest =>
      have shown := not_isBlank_of_isDigit (digits c List.mem_cons_self)
      exact List.dropWhile_cons_of_neg (by simp [shown])
  rw [Text.trim, bare s digits, bare s.reverse fun c mem => digits c (List.mem_reverse.mp mem),
    List.reverse_reverse]

theorem word_toString (name : String) (small : n < UInt64.size) :
    word name (toString n) = .ok n := by
  have digits : ∀ c ∈ Nat.toDigits 10 n, c.isDigit := fun c mem =>
    Nat.isDigit_of_mem_toDigits (by decide) (by decide) mem
  have read : Text.natural? (Nat.toDigits 10 n) = some n := by
    have value := Nat.ofDigitChars_ten_toDigits (n := n)
    unfold Nat.ofDigitChars at value
    unfold Text.natural?
    split
    · rename_i rest same
      have sign := digits '+' (same ▸ List.mem_cons_self)
      cases sign
    · dsimp only
      rw [if_pos ⟨Nat.toDigits_ne_nil, List.all_eq_true.mpr digits⟩, value]
  rw [word, Nat.toString_eq_ofList_toDigits, String.toList_ofList, trim_digits digits, read]
  simp only [small, if_true]

end Setting

namespace Action

variable {σ α β : Type}

/-- Where `A` holds the action answers with `Q`, where it does not it reports a mistake in the
description, and it leaves its state alone in either case. -/
structure Accepts (A : Prop) (m : Action σ α) (Q : α → Prop) : Prop where
  accepted : A → ∀ s, ∃ a, m s = ⟨.ok a, s⟩ ∧ Q a
  refused : ¬A → ∀ s, ∃ reason, m s = ⟨.error (.config reason), s⟩

namespace Accepts

variable {A B : Prop} {m : Action σ α} {f : α → Action σ β} {Q Q' : α → Prop} {R : β → Prop} {a : α}

theorem pure (always : A) (h : Q a) : Accepts A (pure a : Action σ α) Q :=
  ⟨fun _ _ => ⟨a, rfl, h⟩, fun never => absurd always never⟩

theorem mono (h : Accepts A m Q) (same : A ↔ B) (weaker : ∀ a, Q a → Q' a) : Accepts B m Q' where
  accepted holds s := by
    obtain ⟨a, run, answer⟩ := h.accepted (same.mpr holds) s
    exact ⟨a, run, weaker a answer⟩
  refused fails := h.refused fun holds => fails (same.mp holds)

theorem given (h : Accepts A m Q) : Accepts A m fun a => A ∧ Q a where
  accepted holds s := by
    obtain ⟨a, run, answer⟩ := h.accepted holds s
    exact ⟨a, run, holds, answer⟩
  refused := h.refused

/-- What the second action accepts must not depend on what the first one has made. -/
theorem bind (first : Accepts A m Q) (next : ∀ a, Q a → Accepts B (f a) R) :
    Accepts (A ∧ B) (m >>= f) R where
  accepted holds s := by
    obtain ⟨a, run, answer⟩ := first.accepted holds.1 s
    obtain ⟨b, run', answer'⟩ := (next a answer).accepted holds.2 s
    exact ⟨b, by rw [bind_apply, run]; exact run', answer'⟩
  refused fails s := by
    by_cases holds : A
    · obtain ⟨a, run, answer⟩ := first.accepted holds s
      obtain ⟨reason, run'⟩ := (next a answer).refused (fun also => fails ⟨holds, also⟩) s
      exact ⟨reason, by rw [bind_apply, run]; exact run'⟩
    · obtain ⟨reason, run⟩ := first.refused holds s
      exact ⟨reason, by rw [bind_apply, run]⟩

theorem ok_iff (h : Accepts A m Q) (s : σ) : (∃ a, (m s).result = .ok a) ↔ A := by
  constructor
  · rintro ⟨a, ok⟩
    by_contra fails
    obtain ⟨reason, run⟩ := h.refused fails s
    rw [run] at ok
    cases ok
  · intro holds
    obtain ⟨a, run, -⟩ := h.accepted holds s
    exact ⟨a, by rw [run]⟩

theorem answer (h : Accepts A m Q) {s : σ} (ok : (m s).result = .ok a) : Q a := by
  obtain ⟨a', run, answer⟩ := h.accepted ((h.ok_iff s).mp ⟨a, ok⟩) s
  rw [run] at ok
  cases ok
  exact answer

end Accepts
end Action

namespace Wrapping

variable {ω : Type} {name value : String} {l : Wrapping}

def rule? (name : String) : Wrapping → Option (String → Except Fault Nat)
  | .lru _ | .fifo _ => if name = "size" then some (Setting.capacity name) else none
  | .tiered _ _ _ =>
    if name = "size" ∨ name = "warmSize" then some (Setting.capacity name)
    else if name = "warmTtl" then some (Setting.word name)
    else none
  | .scheduled _ _ => if name = "clearInterval" then some (Setting.word name) else none
  | .blocking _ => if name = "timeout" then some (Setting.word name) else none
  | .serialized | .counted | .synchronized => none

def adjust (name : String) (n : Nat) : Wrapping → Wrapping
  | .lru _ => .lru n
  | .fifo _ => .fifo n
  | .tiered hotSize warmCapacity timeToLive =>
    if name = "size" then .tiered n warmCapacity timeToLive
    else if name = "warmSize" then .tiered hotSize n timeToLive
    else .tiered hotSize warmCapacity (some n)
  | .scheduled _ now => .scheduled n now
  | .blocking _ => .blocking (some n)
  | .serialized => .serialized
  | .counted => .counted
  | .synchronized => .synchronized

@[simp] theorem rule?_serialized : Wrapping.serialized.rule? name = none := rfl

@[simp] theorem rule?_counted : Wrapping.counted.rule? name = none := rfl

@[simp] theorem rule?_synchronized : Wrapping.synchronized.rule? name = none := rfl

@[simp] theorem isSome_rule?_scheduled {interval now : Nat} :
    ((Wrapping.scheduled interval now).rule? name).isSome = true ↔ name = "clearInterval" := by
  by_cases own : name = "clearInterval" <;> simp [rule?, own]

@[simp] theorem isSome_rule?_blocking {timeout : Option Nat} :
    ((Wrapping.blocking timeout).rule? name).isSome = true ↔ name = "timeout" := by
  by_cases own : name = "timeout" <;> simp [rule?, own]

theorem rule?_cases {rule : String → Except Fault Nat} (own : l.rule? name = some rule) :
    (name = "size" ∨ name = "warmSize") ∧ rule = Setting.capacity name ∨
      rule = Setting.word name := by
  have chosen {p : Prop} [Decidable p] {one : String → Except Fault Nat}
      (own : (if p then some one else none) = some rule) : p ∧ rule = one := by
    split at own
    · rename_i holds
      cases own
      exact ⟨holds, rfl⟩
    · cases own
  cases l with
  | lru | fifo => exact .inl ((chosen own).imp .inl id)
  | tiered =>
    simp only [rule?] at own
    split at own
    · rename_i sized
      cases own
      exact .inl ⟨sized, rfl⟩
    · exact .inr (chosen own).2
  | scheduled | blocking => exact .inr (chosen own).2
  | serialized | counted | synchronized => cases own

theorem config_of_rule {rule : String → Except Fault Nat} {e : Fault}
    (own : l.rule? name = some rule) (bad : rule value = .error e) : ∃ reason, e = .config reason := by
  rcases rule?_cases own with ⟨-, rfl⟩ | rfl
  · exact Setting.config_of_capacity bad
  · exact Setting.config_of_word bad

theorem assign_around (site : Site ω) (name value : String) (l : Wrapping) (c : Cache) (s : ω) :
    (l.around c).assign site name value s = match l.rule? name with
      | none => ⟨.ok (false, l.around c), s⟩
      | some rule => ⟨(rule value).map fun n => (true, (l.adjust name n).around c), s⟩ := by
  cases l with
  | lru capacity =>
    simp only [Cache.assign, around, Cache.lru, Chain.store, Chain.stacked, Store.regroup, Layer.lru]
    split
    · cases asked : Setting.capacity "size" value with
      | error e => simp [rule?, asked, bind_apply, Except.map]
      | ok n =>
        have positive := Setting.one_le_capacity asked
        simp [rule?, asked, bind_apply, Except.map, adjust, Recency.empty, Layer.resizeLru,
          Layer.popLeast, Cache.lru, positive]
    · rename_i other
      rw [rule?, if_neg other]
      rfl
  | fifo capacity =>
    simp only [Cache.assign, around, Cache.fifo, Chain.store, Chain.stacked, Store.regroup,
      Layer.fifo]
    split
    · cases asked : Setting.capacity "size" value with
      | error e => simp [rule?, asked, bind_apply, Except.map]
      | ok n =>
        have positive := Setting.one_le_capacity asked
        simp [rule?, asked, bind_apply, Except.map, adjust, Arrivals.empty, Arrivals.trim,
          Layer.removeEach, Cache.fifo, positive]
    · rename_i other
      rw [rule?, if_neg other]
      rfl
  | tiered hotSize warmCapacity timeToLive =>
    simp only [Cache.assign, around, Cache.tiered, Chain.store, Chain.stacked, Store.regroup,
      Layer.tiered]
    split
    · cases asked : Setting.capacity "size" value <;>
        simp [rule?, asked, bind_apply, Except.map, adjust, Tiers.empty, Tiers.resizeHot,
          Tiers.demote, Cache.tiered]
    · cases asked : Setting.capacity "warmSize" value with
      | error e => simp [rule?, asked, bind_apply, Except.map]
      | ok n =>
        have positive := Setting.one_le_capacity asked
        simp [rule?, asked, bind_apply, Except.map, adjust, Tiers.empty, Tiers.resizeWarm,
          Cache.tiered, positive]
    · cases asked : Setting.word "warmTtl" value <;>
        simp [rule?, asked, bind_apply, Except.map, adjust, Tiers.empty, Cache.tiered]
    · rename_i hot warm age
      rw [rule?, if_neg fun either => either.elim hot warm, if_neg age]
      rfl
  | scheduled interval now =>
    simp only [Cache.assign, around, Cache.scheduled, Chain.store, Chain.stacked, Store.regroup,
      Layer.scheduled]
    split
    · cases asked : Setting.word "clearInterval" value <;>
        simp [rule?, asked, bind_apply, Except.map, adjust, Cache.scheduled]
    · rename_i other
      rw [rule?, if_neg other]
      rfl
  | serialized => rfl
  | counted => rfl
  | synchronized => rfl
  | blocking timeout =>
    simp only [Cache.assign, around, Cache.blocking, Chain.store, Chain.stacked, Store.regroup,
      Layer.blocking]
    split
    · cases asked : Setting.word "timeout" value <;>
        simp [rule?, asked, bind_apply, Except.map, adjust, Locks.empty, Cache.blocking]
    · rename_i other
      rw [rule?, if_neg other]
      rfl

end Wrapping
end StatementCache
