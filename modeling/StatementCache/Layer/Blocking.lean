import StatementCache.Cache.Setting
import StatementCache.Cache.Store
import StatementCache.Layer.Counted
import StatementCache.Table

/-! One populating thread for each key. A lookup first takes the key for its thread and keeps it
when it finds no value; the thread is then expected to write or remove the key, which frees it. A
lookup of a key that another thread keeps waits for that, and gives up after the timeout. -/
namespace StatementCache

abbrev Thread := Nat

structure KeyLock where
  /-- The thread that has to populate the key. -/
  owner : Option Thread
  /-- How many threads are about to take the lock or wait for it. -/
  waiters : Nat

namespace KeyLock

def free : KeyLock := ⟨none, 0⟩

def isIdle (lock : KeyLock) : Bool := lock.owner.isNone && lock.waiters == 0

/-- A free lock becomes the thread's own, its own one stays so; false for another thread's. -/
def claim (lock : KeyLock) (thread : Thread) : Bool × KeyLock :=
  match lock.owner with
  | none => (true, { lock with owner := some thread })
  | some owner => (owner == thread, lock)

end KeyLock

structure Locks where
  /-- Only keys that some thread owns or waits for have a lock. -/
  byKey : Table CacheKey KeyLock
  /-- The longest wait in milliseconds; none waits for ever. -/
  timeout : Option Nat

namespace Locks

def empty (timeout : Option Nat) : Locks := ⟨.empty, timeout⟩

def lockOf (l : Locks) (k : CacheKey) : KeyLock := (l.byKey.get? k).getD .free

def owner? (l : Locks) (k : CacheKey) : Option Thread := (l.lockOf k).owner

def write (l : Locks) (k : CacheKey) (lock : KeyLock) : Locks :=
  { l with byKey := l.byKey.insert k lock }

def discardIfIdle (l : Locks) (k : CacheKey) : Locks :=
  if (l.lockOf k).isIdle then { l with byKey := l.byKey.erase k } else l

/-- The thread counts among the waiting ones until it has the key or gives it up. -/
def claim (l : Locks) (thread : Thread) (k : CacheKey) : Bool × Locks :=
  let lock := l.lockOf k
  let (claimed, lock) := { lock with waiters := lock.waiters + 1 : KeyLock }.claim thread
  let l := l.write k { lock with waiters := lock.waiters - 1 }
  (claimed, if claimed then l else l.discardIfIdle k)

/-- Only its owner frees a key. -/
def release (l : Locks) (thread : Thread) (k : CacheKey) : Locks :=
  if l.owner? k = some thread then
    (l.write k { l.lockOf k with owner := none }).discardIfIdle k
  else l

@[simp] theorem timeout_write (l : Locks) (k : CacheKey) (lock : KeyLock) :
    (l.write k lock).timeout = l.timeout := rfl

@[simp] theorem timeout_discardIfIdle (l : Locks) (k : CacheKey) :
    (l.discardIfIdle k).timeout = l.timeout := by
  unfold discardIfIdle
  split <;> rfl

@[simp] theorem timeout_release (l : Locks) (thread : Thread) (k : CacheKey) :
    (l.release thread k).timeout = l.timeout := by
  unfold release
  split
  · simp only [timeout_discardIfIdle, timeout_write]
  · rfl

theorem lockOf_write (l : Locks) (k j : CacheKey) (lock : KeyLock) :
    (l.write k lock).lockOf j = if k = j then lock else l.lockOf j := by
  simp only [write, lockOf, Table.get?_insert]
  split <;> rfl

theorem owner?_write (l : Locks) (k j : CacheKey) (lock : KeyLock) :
    (l.write k lock).owner? j = if k = j then lock.owner else l.owner? j := by
  simp only [owner?, lockOf_write, apply_ite KeyLock.owner]

@[simp] theorem owner?_discardIfIdle (l : Locks) (k j : CacheKey) :
    (l.discardIfIdle k).owner? j = l.owner? j := by
  unfold discardIfIdle
  split
  · rename_i idle
    simp only [owner?, lockOf, Table.get?_erase]
    split
    · rename_i same
      subst same
      simp only [KeyLock.isIdle, lockOf, Bool.and_eq_true, Option.isNone_iff_eq_none] at idle
      exact idle.1.symm
    · rfl
  · rfl

theorem get?_of_owner? {l : Locks} {k : CacheKey} {thread : Thread}
    (own : l.owner? k = some thread) : l.byKey.get? k = some (l.lockOf k) := by
  unfold owner? at own
  unfold lockOf at own ⊢
  cases there : l.byKey.get? k with
  | none => rw [there] at own; cases own
  | some lock => rfl

theorem write_lockOf {l : Locks} {k : CacheKey} {thread : Thread}
    (own : l.owner? k = some thread) :
    l.write k { l.lockOf k with owner := some thread } = l := by
  rw [← own]
  change { l with byKey := l.byKey.insert k (l.lockOf k) } = l
  rw [Table.insert_of_get? (get?_of_owner? own)]

theorem claim_of_free {l : Locks} {k : CacheKey} (h : l.owner? k = none) (thread : Thread) :
    l.claim thread k = (true, l.write k { l.lockOf k with owner := some thread }) := by
  unfold owner? at h
  simp only [claim, KeyLock.claim, h, if_true, Nat.add_sub_cancel]

theorem claim_of_own {l : Locks} {k : CacheKey} {thread : Thread}
    (own : l.owner? k = some thread) : l.claim thread k = (true, l) := by
  have same := write_lockOf own
  unfold owner? at own
  simp only [claim, KeyLock.claim, own, beq_self_eq_true, if_true, Nat.add_sub_cancel]
  rw [same]

theorem claim_of_other {l : Locks} {k : CacheKey} {owner thread : Thread}
    (own : l.owner? k = some owner) (h : owner ≠ thread) : l.claim thread k = (false, l) := by
  have same := write_lockOf own
  have kept : l.discardIfIdle k = l := by
    unfold owner? at own
    simp only [discardIfIdle, KeyLock.isIdle, own, Option.isNone_some, Bool.false_and,
      Bool.false_eq_true, if_false]
  unfold owner? at own
  simp only [claim, KeyLock.claim, own, beq_eq_false_iff_ne.mpr h, Bool.false_eq_true, if_false,
    Nat.add_sub_cancel]
  rw [same, kept]

theorem owner?_release (l : Locks) (thread : Thread) (k j : CacheKey) :
    (l.release thread k).owner? j =
      if k = j ∧ l.owner? k = some thread then none else l.owner? j := by
  unfold release
  split
  · rename_i own
    simp only [owner?_discardIfIdle, owner?_write]
    split
    · rename_i same
      rw [if_pos ⟨same, own⟩]
    · rename_i other
      rw [if_neg fun h => other h.1]
  · rename_i other
    rw [if_neg fun h => other h.2]

end Locks

namespace Layer

variable {τ : Type}

def acquire (id : String) (thread : Thread) (k : CacheKey) : Action Locks Unit := fun l =>
  match l.claim thread k with
  | (true, l) => ⟨.ok (), l⟩
  | (false, l) => ⟨.error (.lockTimeout id k.display (UInt64.ofNat (l.timeout.getD 0))), l⟩

def releasing {α : Type} (thread : Thread) (k : CacheKey) (m : Action τ α) :
    Action (Locks × τ) α := fun (l, t) =>
  let o := m t
  ⟨o.result, (l.release thread k, o.state)⟩

/-- No operation runs while another thread's does, so a key that another thread keeps is kept for
the whole wait. -/
def blocking (thread : Thread) (inner : Store τ) : Store (Locks × τ) where
  id := inner.id
  put k e := releasing thread k (inner.put k e)
  get k := do
    Action.onFirst (acquire inner.id thread k)
    match ← Action.attempt (Action.onSecond (inner.get k)) with
    | .error e =>
      Action.onFirst (Action.modify (·.release thread k))
      Action.fail e
    | .ok found =>
      if isHit found then Action.onFirst (Action.modify (·.release thread k))
      pure found
  remove k := releasing thread k (inner.remove k)
  clear := Action.onSecond inner.clear
  size := Store.below inner.size
  stats := Store.below inner.stats
  assign name value :=
    match name with
    | "timeout" => do
      let timeout ← Action.ofExcept (Setting.word name value)
      Action.onFirst (Action.modify fun l => { l with timeout := some timeout })
      pure true
    | _ => pure false

end Layer
end StatementCache
