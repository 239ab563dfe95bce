import Mathlib.Data.List.Forall2
import Mathlib.Data.List.Induction
import Mathlib.Logic.Function.Basic
import Std.Data.HashMap.Lemmas
import StatementCache.Key.Basic
import StatementCache.Table

/-! Keys made step by step. However its values come to a key, one by one or in groups, bare or in
lists, through a copy or not, the key is the flattened sequence of them: that sequence decides which
keys are equal, how they hash and what a map finds under them. -/
namespace StatementCache

/-- The same element of a key: floats by their bits, everything else by kind and content. -/
inductive Scalar.Same : Scalar → Scalar → Prop where
  | integer (n : Int64) : Same (.integer n) (.integer n)
  | float (x y : Binary64) (bits : x.bits = y.bits) : Same (.float x) (.float y)
  | bool (b : Bool) : Same (.bool b) (.bool b)
  | text (s : String) : Same (.text s) (.text s)
  | bytes (content : List UInt8) : Same (.bytes content) (.bytes content)
  | timestamp (t : Int64) : Same (.timestamp t) (.timestamp t)
  | null : Same .null .null

theorem Scalar.same_iff {a b : Scalar} : a.Same b ↔ a = b := by
  constructor
  · intro same
    cases same with
    | float x y bits => exact congrArg (Scalar.float ⟨·⟩) bits
    | _ => rfl
  · rintro rfl
    cases a with
    | float x => exact .float x x rfl
    | _ => constructor

theorem forall₂_same_iff {xs ys : List Scalar} : List.Forall₂ Scalar.Same xs ys ↔ xs = ys := by
  have same : Scalar.Same = Eq := funext₂ fun _ _ => propext Scalar.same_iff
  rw [same, List.forall₂_eq_eq_eq]

def latest {κ ν : Type} [DecidableEq κ] (writes : List (κ × Option ν)) (k : κ) : Option ν :=
  writes.foldl (fun found w => if w.1 = k then w.2 else found) none

theorem latest_concat {κ ν : Type} [DecidableEq κ] (writes : List (κ × Option ν))
    (w : κ × Option ν) (k : κ) :
    latest (writes ++ [w]) k = if w.1 = k then w.2 else latest writes k := by
  simp only [latest, List.foldl_append, List.foldl_cons, List.foldl_nil]

namespace CacheKey

theorem equal_iff_elements {a b : CacheKey} : a.equal b = true ↔ a.elements = b.elements :=
  equal_iff.trans ⟨congrArg elements, elements_injective⟩

theorem equivalence_equal : Equivalence fun a b : CacheKey => a.equal b = true where
  refl _ := equal_iff.mpr rfl
  symm h := equal_iff.mpr (equal_iff.mp h).symm
  trans h h' := equal_iff.mpr ((equal_iff.mp h).trans (equal_iff.mp h'))

/-- Keys as a hash map takes them. All it is told of a key is the hash code, of which it makes what
it likes. -/
structure Hashed (mix : UInt32 → UInt64) where
  key : CacheKey

namespace Hashed

variable {mix : UInt32 → UInt64}

instance : BEq (Hashed mix) := ⟨fun a b => a.key.equal b.key⟩

instance : Hashable (Hashed mix) := ⟨fun a => mix a.key.hashcode⟩

instance : EquivBEq (Hashed mix) where
  rfl := equivalence_equal.refl _
  symm := equivalence_equal.symm
  trans := equivalence_equal.trans

instance : LawfulHashable (Hashed mix) where
  hash_eq _ _ same := congrArg (fun k => mix (hashcode k)) (equal_iff.mp same)

end Hashed

section Maps

variable {ν : Type}

def hashMapOf (mix : UInt32 → UInt64) (writes : List (CacheKey × Option ν)) :
    Std.HashMap (Hashed mix) ν :=
  writes.foldl (fun m w =>
    match w.2 with
    | some v => m.insert ⟨w.1⟩ v
    | none => m.erase ⟨w.1⟩) ∅

def tableOf (writes : List (CacheKey × Option ν)) : Table CacheKey ν :=
  writes.foldl (fun t w =>
    match w.2 with
    | some v => t.insert w.1 v
    | none => t.erase w.1) .empty

theorem getElem?_hashMapOf (mix : UInt32 → UInt64) (writes : List (CacheKey × Option ν))
    (k : CacheKey) : (hashMapOf mix writes)[(⟨k⟩ : Hashed mix)]? = latest writes k := by
  induction writes using List.reverseRecOn with
  | nil => exact Std.HashMap.getElem?_empty
  | append_singleton writes w ih =>
    obtain ⟨j, v⟩ := w
    have beq : ((⟨j⟩ : Hashed mix) == ⟨k⟩) = true ↔ j = k := equal_iff
    rw [latest_concat, ← ih]
    simp only [hashMapOf, List.foldl_append, List.foldl_cons, List.foldl_nil]
    cases v with
    | some v => simp only [Std.HashMap.getElem?_insert, beq]
    | none => simp only [Std.HashMap.getElem?_erase, beq]

theorem get?_tableOf (writes : List (CacheKey × Option ν)) (k : CacheKey) :
    (tableOf writes).get? k = latest writes k := by
  induction writes using List.reverseRecOn with
  | nil => rfl
  | append_singleton writes w ih =>
    obtain ⟨j, v⟩ := w
    rw [latest_concat, ← ih]
    simp only [tableOf, List.foldl_append, List.foldl_cons, List.foldl_nil]
    cases v with
    | some v => exact Table.get?_insert ..
    | none => exact Table.get?_erase ..

end Maps

/-- One step of a program that makes keys. The program has names for them, and each name stands for
a new key at first. -/
inductive Making where
  | new (x : Nat)
  | clone (source x : Nat)
  | update (x : Nat) (v : Value)
  | updateAll (x : Nat) (vs : List Value)
  | ofValues (x : Nat) (vs : List Value)

namespace Making

def target : Making → Nat
  | .new x | .clone _ x | .update x _ | .updateAll x _ | .ofValues x _ => x

def key (keys : Nat → CacheKey) : Making → CacheKey
  | .new _ => .empty
  | .clone source _ => keys source
  | .update x v => (keys x).update v
  | .updateAll x vs => (keys x).updateAll vs
  | .ofValues _ vs => .ofValues vs

/-- The values that have come to the key, told from the steps alone. -/
def values (given : Nat → List Value) : Making → List Value
  | .new _ => []
  | .clone source _ => given source
  | .update x v => given x ++ [v]
  | .updateAll x vs => given x ++ vs
  | .ofValues _ vs => vs

def made (steps : List Making) : Nat → CacheKey :=
  steps.foldl (fun keys i => Function.update keys i.target (i.key keys)) fun _ => .empty

def given (steps : List Making) : Nat → List Value :=
  steps.foldl (fun given i => Function.update given i.target (i.values given)) fun _ => []

def flattened (steps : List Making) (x : Nat) : List Scalar :=
  (given steps x).flatMap Value.flatten

theorem made_concat (steps : List Making) (i : Making) :
    made (steps ++ [i]) = Function.update (made steps) i.target (i.key (made steps)) := by
  simp only [made, List.foldl_append, List.foldl_cons, List.foldl_nil]

theorem given_concat (steps : List Making) (i : Making) :
    given (steps ++ [i]) = Function.update (given steps) i.target (i.values (given steps)) := by
  simp only [given, List.foldl_append, List.foldl_cons, List.foldl_nil]

theorem elements_key {keys : Nat → CacheKey} {given : Nat → List Value}
    (told : ∀ x, (keys x).elements = (given x).flatMap Value.flatten) (i : Making) :
    (i.key keys).elements = (i.values given).flatMap Value.flatten := by
  cases i with
  | new x => rfl
  | clone source x => exact told source
  | update x v => simp [key, values, elements_update, told x]
  | updateAll x vs => simp [key, values, elements_updateAll, told x]
  | ofValues x vs => exact elements_ofValues vs

theorem elements_made (steps : List Making) (x : Nat) :
    (made steps x).elements = flattened steps x := by
  induction steps using List.reverseRecOn generalizing x with
  | nil => rfl
  | append_singleton steps i ih =>
    rw [flattened, made_concat, given_concat]
    by_cases changed : x = i.target
    · subst changed
      rw [Function.update_self, Function.update_self]
      exact elements_key ih i
    · rw [Function.update_of_ne changed, Function.update_of_ne changed]
      exact ih x

theorem made_of_others (steps : List Making) {later : List Making} {x : Nat}
    (others : ∀ i ∈ later, i.target ≠ x) : made (steps ++ later) x = made steps x := by
  induction later using List.reverseRecOn with
  | nil => rw [List.append_nil]
  | append_singleton later i ih =>
    have other := others i (List.mem_append_right _ List.mem_cons_self)
    rw [← List.append_assoc, made_concat, Function.update_of_ne other.symm]
    exact ih fun j there => others j (List.mem_append_left _ there)

/-- Maps find under a key what was written last under the sequence that it stands for. -/
theorem latest_made {ν : Type} (steps : List Making) (writes : List (Nat × Option ν)) (x : Nat) :
    latest (writes.map fun w => (made steps w.1, w.2)) (made steps x) =
      latest (writes.map fun w => (flattened steps w.1, w.2)) (flattened steps x) := by
  induction writes using List.reverseRecOn with
  | nil => rfl
  | append_singleton writes w ih =>
    have same : made steps w.1 = made steps x ↔ flattened steps w.1 = flattened steps x := by
      rw [← equal_iff, equal_iff_elements, elements_made, elements_made]
    simp only [List.map_append, List.map_cons, List.map_nil, latest_concat, same, ih]

/-- Whatever program has made two keys, they are equal exactly when the flattened sequences of their
values are as long and agree one by one. Equal keys hash alike, equality is an equivalence, the
grouping of values does not matter, a map looks up a key by its sequence, and what is done to a copy
does not reach the key it was made from. -/
theorem equal_iff_flattened (steps : List Making) (x y : Nat) :
    let a := made steps x
    let b := made steps y
    (a.equal b = true ↔ List.Forall₂ Scalar.Same (flattened steps x) (flattened steps y)) ∧
    (a.equal b = true → a.hashcode = b.hashcode ∧ a.count = b.count ∧
      ∀ mix, hash (⟨a⟩ : Hashed mix) = hash (⟨b⟩ : Hashed mix)) ∧
    Equivalence (fun k l : CacheKey => k.equal l = true) ∧
    (∀ vs ws : List Value, vs.flatMap Value.flatten = ws.flatMap Value.flatten →
      (a.updateAll vs).equal (a.updateAll ws) = true) ∧
    (∀ (ν : Type) (mix : UInt32 → UInt64) (writes : List (Nat × Option ν)),
      let keyed := writes.map fun w => (made steps w.1, w.2)
      let found := latest (writes.map fun w => (flattened steps w.1, w.2)) (flattened steps x)
      (hashMapOf mix keyed)[(⟨a⟩ : Hashed mix)]? = found ∧ (tableOf keyed).get? a = found) ∧
    (∀ later : List Making, (∀ i ∈ later, i.target ≠ x) → made (steps ++ later) x = a) := by
  intro a b
  refine ⟨?_, fun same => ?_, equivalence_equal, fun vs ws flat => ?_,
    fun ν mix writes => ⟨?_, ?_⟩, fun later => made_of_others steps⟩
  · rw [equal_iff_elements, elements_made, elements_made, forall₂_same_iff]
  · have same : a = b := equal_iff.mp same
    rw [same]
    exact ⟨rfl, rfl, fun _ => rfl⟩
  · rw [equal_iff_elements, elements_updateAll, elements_updateAll, flat]
  · exact (getElem?_hashMapOf mix _ a).trans (latest_made steps writes x)
  · exact (get?_tableOf _ a).trans (latest_made steps writes x)

/-- Two keys, one of them copied on the way, that were given the same scalars in other groups. -/
example :
    let nan : Value := .scalar (.float ⟨0x7ff8000000000001⟩)
    let steps : List Making := [.update 0 (.list [nan, .list []]), .clone 0 1, .update 1 .null,
      .ofValues 2 [.list [.list [nan], .null]]]
    (made steps 1).equal (made steps 2) = true ∧ (made steps 0).equal (made steps 2) = false := by
  decide

end Making
end CacheKey
end StatementCache
