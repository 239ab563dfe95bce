import StatementCache.Cache.Chain

/-! What sessions share: the caches, the places where deferred results arrive, and the report of
everything that was done. -/
namespace StatementCache

/-- The place of a result that is not there yet. Copies of it are the same place. -/
abbrev Slot := Nat

inductive NestedValue where
  | loaded (rows : Rows)
  | deferred (slot : Slot)

structure World where
  /-- Every cache that somebody still owns, by serial number. -/
  caches : Table Nat Cache
  /-- No cache has this serial number or a greater one. -/
  nextSerial : Nat
  log : List Event
  /-- How often a layer has asked whether an operation may be done. -/
  attempts : Nat
  /-- The contents of all slots; a slot is an index. -/
  slots : List (Option Rows)
  /-- The nested values that row mappers took, in order. -/
  kept : List NestedValue

/-- What one step has from outside: who runs it, when, and which cache operations are refused at
which attempt. -/
structure Host where
  thread : Thread
  now : Nat
  refuses : Nat → Operation → Bool

namespace World

def empty : World := ⟨.empty, 0, [], 0, [], []⟩

def report (e : Event) (w : World) : World := { w with log := w.log ++ [e] }

def addCache (w : World) (c : Cache) : CacheRef × World :=
  (⟨w.nextSerial, c.id⟩,
    { w with caches := w.caches.insert w.nextSerial c, nextSerial := w.nextSerial + 1 })

def isAlive (w : World) (ref : CacheRef) : Bool := w.caches.contains ref.serial

def newSlot (w : World) : Slot × World := (w.slots.length, { w with slots := w.slots ++ [none] })

def fill (slot : Slot) (rows : Rows) (w : World) : World :=
  { w with slots := w.slots.set slot (some rows) }

def slotRows (w : World) (slot : Slot) : Option Rows := (w.slots[slot]?).join

def permit (host : Host) (op : Operation) : Action World Unit := fun w =>
  ⟨if host.refuses w.attempts op then .error (.refused op) else .ok (),
    { w with attempts := w.attempts + 1 }⟩

def onCache {α : Type} (ref : CacheRef)
    (m : (c : Cache) → Action (c.chain.State × World) α) : Action World α := fun w =>
  match w.caches.get? ref.serial with
  | none => ⟨.error (.cacheUnavailable ("cache '" ++ ref.id ++ "' cannot be reached")), w⟩
  | some c =>
    let o := m c (c.state, w)
    ⟨o.result, { o.state.2 with caches := o.state.2.caches.insert ref.serial ⟨c.chain, o.state.1⟩ }⟩

def onCacheTotal {α : Type} (ref : CacheRef) (missing : α)
    (f : (c : Cache) → c.chain.State × World → α × (c.chain.State × World)) (w : World) : α × World :=
  match w.caches.get? ref.serial with
  | none => (missing, w)
  | some c =>
    let r := f c (c.state, w)
    (r.1, { r.2.2 with caches := r.2.2.caches.insert ref.serial ⟨c.chain, r.2.1⟩ })

def storeVia (site : Site World) (ref : CacheRef) : Store World where
  id := ref.id
  put k e := onCache ref fun c => (c.chain.store site).put k e
  get k := onCache ref fun c => (c.chain.store site).get k
  remove k := onCache ref fun c => (c.chain.store site).remove k
  clear := onCache ref fun c => (c.chain.store site).clear
  size := onCacheTotal ref 0 fun c => (c.chain.store site).size
  stats := onCacheTotal ref none fun c => (c.chain.store site).stats
  assign := Store.noSettings

def siteAt (host : Host) : Nat → Site World
  | 0 => ⟨host.thread, host.now, fun e => Action.modify (report e), permit host,
    fun ref => Store.unavailable ref.id⟩
  | depth + 1 => ⟨host.thread, host.now, fun e => Action.modify (report e), permit host,
    storeVia (siteAt host depth)⟩

/-- A shared cache. A cache is made after those that it reaches, so their serial numbers are
smaller and its own bounds the depth. -/
def store (host : Host) (ref : CacheRef) : Store World := storeVia (siteAt host ref.serial) ref

def find? (host : Host) (ref : CacheRef) (w : World) : Option (Store World) :=
  if w.isAlive ref then some (store host ref) else none

theorem find?_of_none {w : World} {ref : CacheRef} (h : w.caches.get? ref.serial = none)
    (host : Host) : find? host ref w = none := by
  simp only [find?, isAlive, Table.contains, h, Option.isSome_none, Bool.false_eq_true, if_false]

theorem find?_of_some {w : World} {ref : CacheRef} {c : Cache}
    (h : w.caches.get? ref.serial = some c) (host : Host) :
    find? host ref w = some (store host ref) := by
  simp only [find?, isAlive, Table.contains, h, Option.isSome_some, if_true]

theorem eq_store_of_find? {host : Host} {ref : CacheRef} {w : World} {cache : Store World}
    (found : find? host ref w = some cache) : cache = store host ref := by
  unfold find? at found
  split at found
  · exact (Option.some.inj found).symm
  · cases found

end World
end StatementCache
