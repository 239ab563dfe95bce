import StatementCache.Cache.Setting
import StatementCache.Cache.Store

/-! Retention in two tiers. A written key is warm; the warm tier is bounded in number and, when it
has a time to live, in age. A warm key that is read joins a small hot ring and is safe while it is
there. What the bound pushes out of the warm tier waits in a queue and leaves the inner cache at
the start of the next operation. -/
namespace StatementCache

structure Tiers where
  /-- The latest promotion first. -/
  hot : List CacheKey
  hotSize : Nat
  /-- With the time of entry, the most recent use first. -/
  warm : List (CacheKey × Nat)
  warmCapacity : Nat
  timeToLive : Option Nat
  /-- Keys pushed out of the warm tier, the earliest first. -/
  reclaimed : List CacheKey

namespace Tiers

def defaultHotSize : Nat := 256
def defaultWarmCapacity : Nat := 4096

def empty (hotSize warmCapacity : Nat) (timeToLive : Option Nat) : Tiers :=
  ⟨[], hotSize, [], max warmCapacity 1, timeToLive, []⟩

def isWarm (t : Tiers) (k : CacheKey) : Bool := t.warm.any fun e => e.1 = k

def isRetained (t : Tiers) (k : CacheKey) : Bool := decide (k ∈ t.hot) || t.isWarm k

def withoutWarm (t : Tiers) (k : CacheKey) : List (CacheKey × Nat) := t.warm.filter fun e => e.1 ≠ k

/-- A key enters the warm tier or is renewed there. A full tier reclaims its last key for a new
one. -/
def enter (now : Nat) (t : Tiers) (k : CacheKey) : Tiers :=
  if t.isWarm k then { t with warm := (k, now) :: t.withoutWarm k }
  else if t.warm.length < t.warmCapacity then { t with warm := (k, now) :: t.warm }
  else
    { t with
      warm := (k, now) :: t.warm.dropLast
      reclaimed := t.reclaimed ++ (t.warm.getLast?.map (·.1)).toList }

/-- Keys beyond the size of the hot ring leave from its end, `count` of them, each entering the
warm tier when `again` says so. -/
def demote (now : Nat) (again : Tiers → CacheKey → Bool) : Nat → Tiers → Tiers
  | 0, t => t
  | count + 1, t =>
    match t.hot.getLast? with
    | none => t
    | some k =>
      let t := { t with hot := t.hot.dropLast }
      demote now again count (if again t k then t.enter now k else t)

/-- A key joins the hot ring at the front. Keys that leave the ring become warm unless they still
are. -/
def promote (now : Nat) (t : Tiers) (k : CacheKey) : Tiers :=
  let t := { t with hot := k :: t.hot }
  t.demote now (fun t k => !t.isWarm k) (t.hot.length - t.hotSize)

/-- Whether a warm key is young enough; asking counts as a use. -/
def use (now : Nat) (k : CacheKey) (t : Tiers) : Bool × Tiers :=
  match t.warm.find? (fun e => e.1 = k) with
  | none => (false, t)
  | some (_, since) =>
    (t.timeToLive.all fun limit => decide (now - since < limit),
      { t with warm := (k, since) :: t.withoutWarm k })

def dropWarm (t : Tiers) (k : CacheKey) : Tiers := { t with warm := t.withoutWarm k }

def forget (t : Tiers) (k : CacheKey) : Tiers :=
  { t with hot := t.hot.filter (· ≠ k), warm := t.withoutWarm k }

def clear (t : Tiers) : Tiers := { t with hot := [], warm := [], reclaimed := [] }

def resizeHot (now : Nat) (size : Nat) (t : Tiers) : Tiers :=
  { t with hotSize := size }.demote now (fun _ _ => true) (t.hot.length - size)

/-- A smaller warm tier reclaims its least recently used keys, the very least first. -/
def resizeWarm (capacity : Nat) (t : Tiers) : Tiers :=
  { t with
    warm := t.warm.take capacity
    warmCapacity := capacity
    reclaimed := t.reclaimed ++ (t.warm.drop capacity).reverse.map (·.1) }

end Tiers

namespace Layer

variable {τ : Type}

def drainEach (inner : Store τ) : List CacheKey → Action (Tiers × τ) Nat
  | [] => pure 0
  | k :: rest => do
    Action.onFirst (Action.modify fun t => { t with reclaimed := rest })
    if (← Action.get).1.isRetained k then drainEach inner rest
    else
      discard (Action.onSecond (inner.remove k))
      return (← drainEach inner rest) + 1

def drain (inner : Store τ) : Action (Tiers × τ) Nat := do
  drainEach inner (← Action.get).1.reclaimed

def tiered (now : Nat) (inner : Store τ) : Store (Tiers × τ) where
  id := inner.id
  put k e := do
    discard (drain inner)
    Action.onSecond (inner.put k e)
    Action.onFirst (Action.modify (·.enter now k))
  get k := do
    discard (drain inner)
    match ← Action.onSecond (inner.get k) with
    | none => pure none
    | some e =>
      if k ∈ (← Action.get).1.hot then pure (some e)
      else
        match ← Action.onFirst (Action.total (Tiers.use now k)) with
        | true =>
          Action.onFirst (Action.modify (·.promote now k))
          pure (some e)
        | false =>
          -- the entry outlived its tier
          Action.onFirst (Action.modify (·.dropWarm k))
          discard (Action.onSecond (inner.remove k))
          pure none
  remove k := do
    discard (drain inner)
    Action.onFirst (Action.modify (·.forget k))
    Action.onSecond (inner.remove k)
  clear := do
    Action.onFirst (Action.modify (·.clear))
    Action.onSecond inner.clear
  size := fun s => Store.below inner.size (drain inner s).state
  stats := fun s => (none, s)
  assign name value :=
    match name with
    | "size" => do
      let size ← Action.ofExcept (Setting.capacity name value)
      Action.onFirst (Action.modify (Tiers.resizeHot now size))
      pure true
    | "warmSize" => do
      let capacity ← Action.ofExcept (Setting.capacity name value)
      Action.onFirst (Action.modify (Tiers.resizeWarm capacity))
      pure true
    | "warmTtl" => do
      let limit ← Action.ofExcept (Setting.word name value)
      Action.onFirst (Action.modify fun t => { t with timeToLive := some limit })
      pure true
    | _ => pure false

end Layer
end StatementCache
