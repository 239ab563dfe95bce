import StatementCache.Action
import StatementCache.Cache.Entry
import StatementCache.Cache.Stats
import StatementCache.Key.Basic

/-! The contract of a cache. A store says how each operation acts on a state; it holds none. -/
namespace StatementCache

structure Store (σ : Type) where
  /-- The identity of the cache, the same for all its layers. -/
  id : String
  put : CacheKey → Entry → Action σ Unit
  get : CacheKey → Action σ (Option Entry)
  /-- Gives back what was there. -/
  remove : CacheKey → Action σ (Option Entry)
  clear : Action σ Unit
  size : σ → Nat × σ
  /-- None when no layer counts. -/
  stats : σ → Option Stats × σ
  /-- Offers a setting by name; false when the outermost layer has none of that name. -/
  assign : String → String → Action σ Bool

namespace Store

variable {σ τ α : Type}

def below (f : τ → α × τ) : σ × τ → α × (σ × τ) := fun (s, t) => ((f t).1, (s, (f t).2))

def noSettings : String → String → Action σ Bool := fun _ _ => pure false

def unavailable (id : String) : Store σ :=
  let gone {α : Type} : Action σ α :=
    Action.fail (.cacheUnavailable ("cache '" ++ id ++ "' cannot be reached"))
  { id := id
    put := fun _ _ => gone
    get := fun _ => gone
    remove := fun _ => gone
    clear := gone
    size := fun s => (0, s)
    stats := fun s => (none, s)
    assign := noSettings }

def regroup (split : σ → τ) (join : τ → σ) (store : Store τ) : Store σ :=
  let via {α : Type} (m : Action τ α) : Action σ α := fun s =>
    let o := m (split s)
    ⟨o.result, join o.state⟩
  let probe {α : Type} (f : τ → α × τ) : σ → α × σ := fun s => ((f (split s)).1, join (f (split s)).2)
  { id := store.id
    put := fun k e => via (store.put k e)
    get := fun k => via (store.get k)
    remove := fun k => via (store.remove k)
    clear := via store.clear
    size := probe store.size
    stats := probe store.stats
    assign := fun name value => via (store.assign name value) }

def beside (store : Store σ) : Store (σ × τ) where
  id := store.id
  put k e := Action.onFirst (store.put k e)
  get k := Action.onFirst (store.get k)
  remove k := Action.onFirst (store.remove k)
  clear := Action.onFirst store.clear
  size := fun (s, t) => ((store.size s).1, ((store.size s).2, t))
  stats := fun (s, t) => ((store.stats s).1, ((store.stats s).2, t))
  assign name value := Action.onFirst (store.assign name value)

end Store
end StatementCache
