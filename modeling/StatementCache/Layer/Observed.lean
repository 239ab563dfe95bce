import StatementCache.Cache.Store
import StatementCache.Event

/-! Two layers that act on what surrounds a cache: one reports every operation, the other lets
operations be refused from outside. -/
namespace StatementCache

namespace Layer

variable {τ : Type}

def recording (note : Event → Action τ Unit) (inner : Store τ) : Store τ where
  id := inner.id
  put k e := do
    note (.put e)
    inner.put k e
  get k := do
    note .get
    inner.get k
  remove k := do
    note .remove
    inner.remove k
  clear := do
    note .clear
    inner.clear
  size := inner.size
  stats := fun s => (none, s)
  assign name value :=
    match name with
    | "recordTag" => do
      note (.tag value)
      pure true
    | _ => pure false

/-- Asks before each operation whether it may be done; a refused one does not reach the inner
cache. -/
def faulty (permit : Operation → Action τ Unit) (inner : Store τ) : Store τ where
  id := inner.id
  put k e := do
    permit .put
    inner.put k e
  get k := do
    permit .get
    inner.get k
  remove k := do
    permit .remove
    inner.remove k
  clear := do
    permit .clear
    inner.clear
  size := inner.size
  stats := fun s => (none, s)
  assign := Store.noSettings

end Layer
end StatementCache
