import StatementCache.Layer.Base
import StatementCache.Layer.Blocking
import StatementCache.Layer.Counted
import StatementCache.Layer.Fifo
import StatementCache.Layer.Lru
import StatementCache.Layer.Observed
import StatementCache.Layer.Scheduled
import StatementCache.Layer.Serialized
import StatementCache.Layer.Synchronized
import StatementCache.Layer.Tiered

/-! A cache is a chain of layers over a map or over another cache. The chain fixes the shape of
the state, so every operation of it is built from the operations of the layer below. -/
namespace StatementCache

/-- The name of a cache that several owners share: a number that no other cache has, and the
identity that the cache reports. -/
structure CacheRef where
  serial : Nat
  id : String
  deriving DecidableEq

inductive Chain where
  | base (id : String)
  /-- Everything goes to another cache. -/
  | shared (target : CacheRef)
  | lru (inner : Chain)
  | fifo (inner : Chain)
  | tiered (inner : Chain)
  | scheduled (inner : Chain)
  | serialized (inner : Chain)
  | counted (inner : Chain)
  | synchronized (inner : Chain)
  | blocking (inner : Chain)
  | recording (inner : Chain)
  | faulty (inner : Chain)

namespace Chain

def State : Chain → Type
  | .base _ => Entries
  | .shared _ => Unit
  | .lru inner => Recency × State inner
  | .fifo inner => Arrivals × State inner
  | .tiered inner => Tiers × State inner
  | .scheduled inner => Schedule × State inner
  | .serialized inner => State inner
  | .counted inner => Counters × State inner
  | .synchronized inner => State inner
  | .blocking inner => Locks × State inner
  | .recording inner => State inner
  | .faulty inner => State inner

def id : Chain → String
  | .base id => id
  | .shared target => target.id
  | .lru inner | .fifo inner | .tiered inner | .scheduled inner | .serialized inner
  | .counted inner | .synchronized inner | .blocking inner | .recording inner
  | .faulty inner => id inner

def target? : Chain → Option CacheRef
  | .base _ => none
  | .shared target => some target
  | .lru inner | .fifo inner | .tiered inner | .scheduled inner | .serialized inner
  | .counted inner | .synchronized inner | .blocking inner | .recording inner
  | .faulty inner => target? inner

end Chain

/-- What surrounds the operations of a cache while one step is done: who acts and when, where
events are reported, what is refused, and how another cache is reached. -/
structure Site (ω : Type) where
  thread : Thread
  /-- The time of the step, in milliseconds. -/
  now : Nat
  note : Event → Action ω Unit
  permit : Operation → Action ω Unit
  shared : CacheRef → Store ω

namespace Chain

variable {ω : Type}

def stacked {β σ : Type} (store : Store (β × (σ × ω))) : Store ((β × σ) × ω) :=
  store.regroup (fun ((b, s), w) => (b, (s, w))) (fun (b, (s, w)) => ((b, s), w))

def store (site : Site ω) : (c : Chain) → Store (c.State × ω)
  | .base id => (Layer.base id).beside
  | .shared target =>
    { (site.shared target).regroup (·.2) (fun w => ((), w)) with assign := Store.noSettings }
  | .lru inner => stacked (Layer.lru (store site inner))
  | .fifo inner => stacked (Layer.fifo (store site inner))
  | .tiered inner => stacked (Layer.tiered site.now (store site inner))
  | .scheduled inner => stacked (Layer.scheduled site.now (store site inner))
  | .serialized inner => Layer.serialized (store site inner)
  | .counted inner => stacked (Layer.counted (store site inner))
  | .synchronized inner => Layer.synchronized (store site inner)
  | .blocking inner => stacked (Layer.blocking site.thread (store site inner))
  | .recording inner => Layer.recording (fun e => Action.onSecond (site.note e)) (store site inner)
  | .faulty inner => Layer.faulty (fun op => Action.onSecond (site.permit op)) (store site inner)

end Chain

structure Cache where
  chain : Chain
  state : chain.State

namespace Cache

def id (c : Cache) : String := c.chain.id

def base (id : String) : Cache := ⟨.base id, Table.empty⟩

def shared (target : CacheRef) : Cache := ⟨.shared target, ()⟩

def lru (capacity : Nat) (c : Cache) : Cache := ⟨.lru c.chain, (Recency.empty capacity, c.state)⟩

def fifo (capacity : Nat) (c : Cache) : Cache := ⟨.fifo c.chain, (Arrivals.empty capacity, c.state)⟩

def tiered (hotSize warmCapacity : Nat) (timeToLive : Option Nat) (c : Cache) : Cache :=
  ⟨.tiered c.chain, (Tiers.empty hotSize warmCapacity timeToLive, c.state)⟩

def scheduled (interval now : Nat) (c : Cache) : Cache :=
  ⟨.scheduled c.chain, (⟨interval, now⟩, c.state)⟩

def serialized (c : Cache) : Cache := ⟨.serialized c.chain, c.state⟩

def counted (c : Cache) : Cache := ⟨.counted c.chain, (Counters.zero, c.state)⟩

def synchronized (c : Cache) : Cache := ⟨.synchronized c.chain, c.state⟩

def blocking (timeout : Option Nat) (c : Cache) : Cache :=
  ⟨.blocking c.chain, (Locks.empty timeout, c.state)⟩

def recording (c : Cache) : Cache := ⟨.recording c.chain, c.state⟩

def faulty (c : Cache) : Cache := ⟨.faulty c.chain, c.state⟩

def assign {ω : Type} (site : Site ω) (name value : String) (c : Cache) : Action ω (Bool × Cache) :=
  fun w =>
    let o := (c.chain.store site).assign name value (c.state, w)
    ⟨o.result.map fun known => (known, ⟨c.chain, o.state.1⟩), o.state.2⟩

end Cache
end StatementCache
