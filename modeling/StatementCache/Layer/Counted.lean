import StatementCache.Cache.Store

/-! Counting of lookups and of those that found a value. -/
namespace StatementCache

structure Counters where
  requests : UInt64
  hits : UInt64
  deriving DecidableEq

namespace Counters

def zero : Counters := ⟨0, 0⟩

def request (c : Counters) : Counters := { c with requests := c.requests + 1 }

def hit (c : Counters) : Counters := { c with hits := c.hits + 1 }

end Counters

def isHit : Option Entry → Bool
  | some e => !e.isPlaceholder
  | none => false

namespace Layer

variable {τ : Type}

/-- A lookup counts as a request before the inner cache is asked, as a hit when it was answered
with a value. -/
def counted (inner : Store τ) : Store (Counters × τ) where
  id := inner.id
  put k e := Action.onSecond (inner.put k e)
  get k := do
    Action.onFirst (Action.modify Counters.request)
    let found ← Action.onSecond (inner.get k)
    if isHit found then Action.onFirst (Action.modify Counters.hit)
    pure found
  remove k := Action.onSecond (inner.remove k)
  clear := Action.onSecond inner.clear
  size := Store.below inner.size
  stats := fun (c, t) =>
    let (size, t) := inner.size t
    (some ⟨c.requests, c.hits, size⟩, (c, t))
  assign := Store.noSettings

end Layer
end StatementCache
