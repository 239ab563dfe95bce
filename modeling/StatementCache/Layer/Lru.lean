import StatementCache.Cache.Setting
import StatementCache.Cache.Store

/-! Eviction of the least recently used key. An index of the keys stands beside the inner cache;
every lookup and every write moves its key to the front, and the key at the end goes first. -/
namespace StatementCache

structure Recency where
  keys : List CacheKey
  capacity : Nat

namespace Recency

def empty (capacity : Nat) : Recency := ⟨[], max capacity 1⟩

def touch (r : Recency) (k : CacheKey) : Recency :=
  if k ∈ r.keys then { r with keys := k :: r.keys.erase k } else r

/-- A key enters at the front. A full index gives up its last key for a new one. -/
def push (r : Recency) (k : CacheKey) : Option CacheKey × Recency :=
  if k ∈ r.keys then (none, { r with keys := k :: r.keys.erase k })
  else if r.keys.length < r.capacity then (none, { r with keys := k :: r.keys })
  else (r.keys.getLast?, { r with keys := k :: r.keys.dropLast })

theorem length_push_le {r : Recency} (k : CacheKey) (room : 1 ≤ r.capacity)
    (bounded : r.keys.length ≤ r.capacity) : (r.push k).2.keys.length ≤ r.capacity := by
  unfold push
  split
  · rename_i mem
    have := List.length_pos_of_mem mem
    simp only [List.length_cons, List.length_erase_of_mem mem]
    omega
  · split
    · rename_i free; exact free
    · simp only [List.length_cons, List.length_dropLast]
      omega

@[simp] theorem mem_touch {r : Recency} {k j : CacheKey} : j ∈ (r.touch k).keys ↔ j ∈ r.keys := by
  unfold touch
  split
  · rename_i mem
    by_cases h : j = k
    · simp [h, mem]
    · simp [h, List.mem_erase_of_ne h]
  · rfl

def forget (r : Recency) (k : CacheKey) : Recency := { r with keys := r.keys.erase k }

def pop (r : Recency) : Option CacheKey × Recency :=
  (r.keys.getLast?, { r with keys := r.keys.dropLast })

end Recency

namespace Layer

variable {τ : Type}

/-- The `count` least recently used keys leave the index and the inner cache, one after the
other. -/
def popLeast (inner : Store τ) : Nat → Action (Recency × τ) Unit
  | 0 => pure ()
  | count + 1 => do
    match ← Action.onFirst (Action.total Recency.pop) with
    | none => pure ()
    | some k => do
      discard (Action.onSecond (inner.remove k))
      popLeast inner count

/-- A smaller capacity holds only after every surplus key has left the inner cache. -/
def resizeLru (inner : Store τ) (capacity : Nat) : Action (Recency × τ) Unit := do
  let (r, _) ← Action.get
  popLeast inner (r.keys.length - capacity)
  Action.onFirst (Action.modify fun r => { r with capacity := capacity })

def lru (inner : Store τ) : Store (Recency × τ) where
  id := inner.id
  put k e := do
    Action.onSecond (inner.put k e)
    match ← Action.onFirst (Action.total (·.push k)) with
    | none => pure ()
    | some old => discard (Action.onSecond (inner.remove old))
  get k := do
    Action.onFirst (Action.modify (·.touch k))
    Action.onSecond (inner.get k)
  remove k := do
    Action.onFirst (Action.modify (·.forget k))
    Action.onSecond (inner.remove k)
  clear := do
    Action.onFirst (Action.modify fun r => { r with keys := [] })
    Action.onSecond inner.clear
  size := Store.below inner.size
  stats := fun s => (none, s)
  assign name value :=
    match name with
    | "size" => do
      resizeLru inner (← Action.ofExcept (Setting.capacity name value))
      pure true
    | _ => pure false

end Layer
end StatementCache
