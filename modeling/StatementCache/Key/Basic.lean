import StatementCache.Key.Hash
import StatementCache.Value.Text

/-! Composite keys. A key is the sequence of everything that decides a statement's result, lists
expanded in place. Three running numbers reject most unequal keys before elements are compared;
they are functions of the elements, so equality of keys is equality of element sequences. -/
namespace StatementCache

structure Digest where
  hashcode : UInt32
  checksum : UInt64
  count : Nat
  deriving DecidableEq

namespace Digest

def start : Digest := ⟨17, 0, 0⟩

def push (d : Digest) (element : Scalar) : Digest :=
  let h := Hash.scalar element
  let count := d.count + 1
  ⟨37 * d.hashcode + h * UInt32.ofNat count, d.checksum + h.toUInt64, count⟩

def ofElements (elements : List Scalar) : Digest := elements.foldl push start

theorem count_foldl_push (elements : List Scalar) (d : Digest) :
    (elements.foldl push d).count = d.count + elements.length := by
  induction elements generalizing d with
  | nil => rfl
  | cons e es ih => simp [List.foldl_cons, ih, push]; omega

@[simp] theorem count_ofElements (elements : List Scalar) :
    (ofElements elements).count = elements.length := by
  simp [ofElements, count_foldl_push, start]

end Digest

structure CacheKey where
  elements : List Scalar
  digest : Digest
  digest_eq : digest = Digest.ofElements elements

namespace CacheKey

def empty : CacheKey := ⟨[], Digest.start, rfl⟩

def push (k : CacheKey) (element : Scalar) : CacheKey where
  elements := k.elements ++ [element]
  digest := k.digest.push element
  digest_eq := by simp [Digest.ofElements, k.digest_eq]

mutual

/-- A list adds its items one by one, an empty list adds nothing. -/
def update : CacheKey → Value → CacheKey
  | k, .scalar s => k.push s
  | k, .list items => updateItems k items

def updateItems : CacheKey → List Value → CacheKey
  | k, [] => k
  | k, v :: vs => updateItems (update k v) vs

end

mutual

theorem elements_update (k : CacheKey) (v : Value) :
    (k.update v).elements = k.elements ++ v.flatten := by
  match v with
  | .scalar s => rfl
  | .list items => exact elements_updateItems k items

theorem elements_updateItems (k : CacheKey) (vs : List Value) :
    (k.updateItems vs).elements = k.elements ++ Value.flattenItems vs := by
  match vs with
  | [] => simp [updateItems, Value.flattenItems]
  | v :: vs =>
    rw [updateItems, elements_updateItems (k.update v) vs, elements_update k v,
      Value.flattenItems, List.append_assoc]

end

def updateAll (k : CacheKey) (values : List Value) : CacheKey := values.foldl update k

def ofValues (values : List Value) : CacheKey := empty.updateAll values

theorem elements_updateAll (k : CacheKey) (vs : List Value) :
    (k.updateAll vs).elements = k.elements ++ vs.flatMap Value.flatten := by
  induction vs generalizing k with
  | nil => simp [updateAll]
  | cons v vs ih =>
    rw [updateAll, List.foldl_cons]
    exact (ih (k.update v)).trans (by simp [elements_update])

/-- A key is the flattened sequence of what it was made of. -/
theorem elements_ofValues (vs : List Value) :
    (ofValues vs).elements = vs.flatMap Value.flatten := elements_updateAll empty vs

def hashcode (k : CacheKey) : UInt32 := k.digest.hashcode

def checksum (k : CacheKey) : UInt64 := k.digest.checksum

def count (k : CacheKey) : Nat := k.digest.count

/-- Numbers first; elements pairwise only when all three agree. -/
def equal (a b : CacheKey) : Bool :=
  a.digest.hashcode == b.digest.hashcode && a.digest.checksum == b.digest.checksum &&
    a.digest.count == b.digest.count && (a.elements.zip b.elements).all fun (x, y) => x == y

theorem elements_injective {a b : CacheKey} (h : a.elements = b.elements) : a = b := by
  obtain ⟨es, d, hd⟩ := a
  obtain ⟨fs, e, he⟩ := b
  cases h
  cases hd.trans he.symm
  rfl

theorem eq_of_zip_all {xs ys : List Scalar} (len : xs.length = ys.length)
    (all : (xs.zip ys).all (fun (x, y) => x == y) = true) : xs = ys := by
  induction xs generalizing ys with
  | nil => exact (List.length_eq_zero_iff.mp len.symm).symm
  | cons x xs ih =>
    cases ys with
    | nil => simp at len
    | cons y ys =>
      simp only [List.zip_cons_cons, List.all_cons, Bool.and_eq_true, beq_iff_eq] at all
      rw [all.1, ih (by simpa using len) all.2]

theorem zip_self_all (xs : List Scalar) : (xs.zip xs).all (fun (x, y) => x == y) = true := by
  induction xs with
  | nil => rfl
  | cons x xs ih => simpa using ih

theorem equal_iff {a b : CacheKey} : a.equal b = true ↔ a = b := by
  constructor
  · intro h
    simp only [equal, Bool.and_eq_true, beq_iff_eq] at h
    apply elements_injective
    refine eq_of_zip_all ?_ h.2
    simpa [a.digest_eq, b.digest_eq] using h.1.2
  · rintro rfl
    simp [equal, zip_self_all]

instance : DecidableEq CacheKey := fun a b =>
  if h : a.equal b = true then isTrue (equal_iff.mp h)
  else isFalse fun e => h (equal_iff.mpr e)

def display (k : CacheKey) : String :=
  toString k.hashcode.toNat ++ ":" ++ toString k.checksum.toNat ++
    String.join (k.elements.map fun e => ":" ++ e.display)

end CacheKey
end StatementCache
