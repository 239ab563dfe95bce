import StatementCache.Cache.Setting
import StatementCache.Cache.Store

/-! Eviction of the key that came first. Lookups and repeated writes do not move a key. -/
namespace StatementCache

/-- Keys by their arrival, the earliest first. Membership is kept apart from the order. -/
structure Arrivals where
  queue : List CacheKey
  members : List CacheKey
  capacity : Nat

namespace Arrivals

def empty (capacity : Nat) : Arrivals := ⟨[], [], max capacity 1⟩

def trim (a : Arrivals) : List CacheKey × Arrivals :=
  let surplus := a.queue.length - a.capacity
  let leaving := a.queue.take surplus
  (leaving, { a with queue := a.queue.drop surplus, members := a.members.removeAll leaving })

theorem length_trim_le (a : Arrivals) : a.trim.2.queue.length ≤ a.capacity := by
  simp only [trim, List.length_drop]
  omega

theorem trim_append (a : Arrivals) : a.trim.1 ++ a.trim.2.queue = a.queue :=
  List.take_append_drop _ _

/-- A new key goes to the end; the keys that have to leave for it are given back. -/
def enqueue (k : CacheKey) (a : Arrivals) : List CacheKey × Arrivals :=
  if k ∈ a.members then a.trim
  else { a with queue := a.queue ++ [k], members := k :: a.members : Arrivals }.trim

def forget (a : Arrivals) (k : CacheKey) : Arrivals :=
  if k ∈ a.members then { a with queue := a.queue.filter (· ≠ k), members := a.members.erase k }
  else a

end Arrivals

namespace Layer

variable {τ : Type}

def removeEach (inner : Store τ) : List CacheKey → Action τ Unit
  | [] => pure ()
  | k :: rest => do
    discard (inner.remove k)
    removeEach inner rest

def fifo (inner : Store τ) : Store (Arrivals × τ) where
  id := inner.id
  put k e := do
    Action.onSecond (inner.put k e)
    let leaving ← Action.onFirst (Action.total (Arrivals.enqueue k))
    Action.onSecond (removeEach inner leaving)
  get k := Action.onSecond (inner.get k)
  remove k := do
    Action.onFirst (Action.modify (·.forget k))
    Action.onSecond (inner.remove k)
  clear := do
    Action.onFirst (Action.modify fun a => { a with queue := [], members := [] })
    Action.onSecond inner.clear
  size := Store.below inner.size
  stats := fun s => (none, s)
  assign name value :=
    match name with
    | "size" => do
      let capacity ← Action.ofExcept (Setting.capacity name value)
      let leaving ← Action.onFirst
        (Action.total fun a => { a with capacity := capacity : Arrivals }.trim)
      Action.onSecond (removeEach inner leaving)
      pure true
    | _ => pure false

end Layer
end StatementCache
