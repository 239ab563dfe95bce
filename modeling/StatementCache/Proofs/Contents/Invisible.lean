import Mathlib.Data.List.Dedup
import StatementCache.Proofs.Contents.Mirrors
import StatementCache.Proofs.Contents.Visits

/-! Chains that have room for every key that one thread ever puts. Whatever layers such a chain
has, it answers every operation as the map at its bottom would alone. -/
namespace StatementCache

open StatementCache.Action Store

namespace Chain

variable {ω : Type} {thread : Thread} {ks : List CacheKey}

/-- The map that a chain stands for while it is used by one thread and has room for all of `ks`.
A chain that clears itself at intervals, or is not built in, stands for none. -/
def shows (thread : Thread) (ks : List CacheKey) : (c : Chain) → c.State → Entries → Prop
  | .base _, s, m => s = m
  | .lru inner, s, m => (Prod.fst s : Recency).Roomy ks ∧ shows thread ks inner (Prod.snd s) m
  | .fifo inner, s, m => (Prod.fst s : Arrivals).Roomy ks ∧ shows thread ks inner (Prod.snd s) m
  | .tiered inner, s, m => (Prod.fst s : Tiers).Roomy ks m ∧ shows thread ks inner (Prod.snd s) m
  | .serialized inner, s, m =>
    (∀ k e, m.get? k = some e → e.Plain) ∧ shows thread ks inner s (m.mapValues Entry.image)
  | .counted inner, s, m => shows thread ks inner (Prod.snd s) m
  | .synchronized inner, s, m => shows thread ks inner s m
  | .blocking inner, s, m =>
    (Prod.fst s : Locks).Private thread ∧ shows thread ks inner (Prod.snd s) m
  | .shared _, _, _ | .scheduled _, _, _ | .recording _, _, _ | .faulty _, _, _ => False

theorem mirrors_stacked {β σ : Type} {store : Store (β × (σ × ω))}
    {shows : β × (σ × ω) → Entries → Prop} {allowed : CacheKey → Entry → Prop}
    (h : store.Mirrors shows allowed) :
    (stacked store).Mirrors (fun s => shows (s.1.1, (s.1.2, s.2))) allowed :=
  h.regroup _ _ fun _ => rfl

def Unscheduled : Chain → Prop
  | .base _ => True
  | .shared _ | .scheduled _ | .recording _ | .faulty _ => False
  | .lru inner | .fifo inner | .tiered inner | .serialized inner | .counted inner
  | .synchronized inner | .blocking inner => Unscheduled inner

/-- A chain with room does what a map does, whatever its layers are and however they are
ordered. -/
theorem mirrors_store (site : Site ω) (ks : List CacheKey) (c : Chain) (steady : c.Unscheduled)
    (once : c.CopiesOnce) :
    (c.store site).Mirrors (fun s => c.shows site.thread ks s.1) fun k e =>
      k ∈ ks ∧ (c.copies = true → e.Plain) := by
  induction c with
  | base id => exact (Layer.mirrors_base id).beside
  | shared _ | scheduled _ _ | recording _ _ | faulty _ _ => exact steady.elim
  | lru inner ih => exact mirrors_stacked (Layer.mirrors_lru (ih steady once) fun _ _ h => h.1)
  | fifo inner ih => exact mirrors_stacked (Layer.mirrors_fifo (ih steady once) fun _ _ h => h.1)
  | tiered inner ih =>
    exact mirrors_stacked (Layer.mirrors_tiered site.now (ih steady once) fun _ _ h => h.1)
  | serialized inner ih =>
    have below : (inner.store site).Mirrors (fun s => inner.shows site.thread ks s.1)
        fun k _ => k ∈ ks := (ih steady (copiesOnce_of_copies once)).mono
      fun _ _ there => ⟨there, fun copies => by cases once.symm.trans copies⟩
    exact (Layer.mirrors_serialized below).mono fun k e may => ⟨may.1, may.2 rfl⟩
  | counted inner ih => exact mirrors_stacked (Layer.mirrors_counted (ih steady once))
  | synchronized inner ih => exact Layer.mirrors_synchronized (ih steady once)
  | blocking inner ih =>
    exact mirrors_stacked (Layer.mirrors_blocking site.thread (ih steady once))

end Chain

namespace Wrapping

/-- How many entries the layer keeps at least; none when it keeps all of them. -/
def room : Wrapping → Option Nat
  | .lru capacity | .fifo capacity => some (max capacity 1)
  | .tiered _ warmCapacity _ => some (max warmCapacity 1)
  | .scheduled _ _ | .serialized | .counted | .synchronized | .blocking _ => none

/-- The layer lets nothing go for its age. -/
def Ageless : Wrapping → Prop
  | .scheduled _ _ => False
  | .tiered _ _ timeToLive => timeToLive = none
  | .lru _ | .fifo _ | .serialized | .counted | .synchronized | .blocking _ => True

variable (name : String) {wrappings : List Wrapping} {ks : List CacheKey}

theorem unscheduled_cache (ageless : ∀ wrapping ∈ wrappings, wrapping.Ageless) :
    (cache name wrappings).chain.Unscheduled := by
  induction wrappings with
  | nil => trivial
  | cons wrapping rest ih =>
    have below := ih fun w mem => ageless w (List.mem_cons_of_mem _ mem)
    cases wrapping with
    | scheduled interval now => exact (ageless _ List.mem_cons_self).elim
    | _ => exact below

theorem shows_cache (thread : Thread) (ageless : ∀ wrapping ∈ wrappings, wrapping.Ageless)
    (room : ∀ wrapping ∈ wrappings, ∀ room ∈ wrapping.room, ks.length ≤ room) :
    (cache name wrappings).chain.shows thread ks (cache name wrappings).state .empty := by
  induction wrappings with
  | nil => rfl
  | cons wrapping rest ih =>
    have below := ih (fun w mem => ageless w (List.mem_cons_of_mem _ mem))
      fun w mem => room w (List.mem_cons_of_mem _ mem)
    have fits := room wrapping List.mem_cons_self
    have young := ageless wrapping List.mem_cons_self
    have vacant {p : Entry → Prop} : ∀ k e, Table.get? (Table.empty : Entries) k = some e → p e :=
      fun _ _ there => by cases there
    cases wrapping with
    | lru capacity => exact ⟨⟨List.nil_subset _, .nil, fits _ rfl⟩, below⟩
    | fifo capacity =>
      exact ⟨⟨List.nil_subset _, .nil, fun _ => Iff.rfl, .nil, fits _ rfl⟩, below⟩
    | tiered hotSize warmCapacity timeToLive =>
      exact ⟨⟨List.nil_subset _, .nil, List.nil_subset _, fun _ there => absurd rfl there, young,
        rfl, fits _ rfl⟩, below⟩
    | scheduled interval now => exact young.elim
    | serialized => exact ⟨vacant, below⟩
    | counted | synchronized => exact below
    | blocking timeout => exact ⟨fun _ _ own => (by cases own), below⟩

end Wrapping

def Demand.putKey? : Demand → Option CacheKey
  | .put k _ => some k
  | .get _ | .remove _ | .clear | .size | .assign _ _ => none

namespace Visit

variable {ω : Type}

def keys (visits : List (Visit ω)) : List CacheKey :=
  (visits.filterMap fun visit => visit.demand.putKey?).dedup

def answers (c : Chain) : List (Visit ω) → c.State × ω → List (Except Fault Response)
  | [], _ => []
  | visit :: rest, s => (visit.perform c s).result :: answers c rest (visit.perform c s).state

def Plays (visit : Visit ω) : Prop := ∀ name value, visit.demand ≠ .assign name value

variable {c : Chain} {visit : Visit ω} {ks : List CacheKey} {thread : Thread}

def advance (m : Entries) : Demand → Entries
  | .put k e => m.insert k e
  | .remove k => m.erase k
  | .clear => .empty
  | .get _ | .size | .assign _ _ => m

def reply (m : Entries) : Demand → Response
  | .put _ _ | .clear => .done
  | .get k | .remove k => .found (m.get? k)
  | .size => .count m.size
  | .assign _ _ => .known false

theorem perform_of_shows (steady : c.Unscheduled) (once : c.CopiesOnce)
    (alone : visit.site.thread = thread) (plain : visit.Plain) (plays : visit.Plays)
    (known : ∀ k ∈ visit.demand.putKey?, k ∈ ks) {s : c.State × ω} {m : Entries}
    (h : c.shows thread ks s.1 m) :
    (visit.perform c s).result = .ok (reply m visit.demand) ∧
      c.shows thread ks (visit.perform c s).state.1 (advance m visit.demand) := by
  obtain ⟨site, demand⟩ := visit
  subst alone
  have mirrors := Chain.mirrors_store site ks c steady once
  simp only [perform]
  cases demand with
  | put k e =>
    obtain ⟨t, run, shown⟩ := mirrors.put k e s m ⟨known k rfl, fun _ => plain k e rfl⟩ h
    simp only [Demand.on, map_apply, run]
    exact ⟨rfl, shown⟩
  | get k =>
    obtain ⟨t, run, shown⟩ := mirrors.get k s m h
    simp only [Demand.on, map_apply, run]
    exact ⟨rfl, shown⟩
  | remove k =>
    obtain ⟨t, run, shown⟩ := mirrors.remove k s m h
    simp only [Demand.on, map_apply, run]
    exact ⟨rfl, shown⟩
  | clear =>
    obtain ⟨t, run, shown⟩ := mirrors.clear s m h
    simp only [Demand.on, map_apply, run]
    exact ⟨rfl, shown⟩
  | size =>
    obtain ⟨t, run, shown⟩ := mirrors.size s m h
    simp only [Demand.on, total_apply, run]
    exact ⟨rfl, shown⟩
  | assign name value => exact absurd rfl (plays name value)

theorem answers_of_shows {d : Chain} (steady : c.Unscheduled) (once : c.CopiesOnce)
    (steady' : d.Unscheduled) (once' : d.CopiesOnce) (visits : List (Visit ω))
    (alone : ∀ visit ∈ visits, visit.site.thread = thread) (plain : ∀ visit ∈ visits, visit.Plain)
    (plays : ∀ visit ∈ visits, visit.Plays)
    (known : ∀ visit ∈ visits, ∀ k ∈ visit.demand.putKey?, k ∈ ks) {s : c.State × ω}
    {t : d.State × ω} {m : Entries} (h : c.shows thread ks s.1 m) (h' : d.shows thread ks t.1 m) :
    answers c visits s = answers d visits t := by
  induction visits generalizing s t m with
  | nil => rfl
  | cons visit rest ih =>
    have first := List.mem_cons_self (a := visit) (l := rest)
    obtain ⟨result, shown⟩ := perform_of_shows steady once (alone visit first)
      (plain visit first) (plays visit first) (known visit first) h
    obtain ⟨result', shown'⟩ := perform_of_shows steady' once' (alone visit first)
      (plain visit first) (plays visit first) (known visit first) h'
    rw [answers, answers, result, result']
    congr 1
    exact ih (fun v mem => alone v (List.mem_cons_of_mem _ mem))
      (fun v mem => plain v (List.mem_cons_of_mem _ mem))
      (fun v mem => plays v (List.mem_cons_of_mem _ mem))
      (fun v mem => known v (List.mem_cons_of_mem _ mem)) shown shown'

end Visit

namespace Wrapping

open Visit

variable {ω : Type}

/-- While one thread puts no more different keys than any layer has room for, layers around a map
are invisible: every operation answers what it would answer without them. -/
theorem answers_eq_plain (name : String) (wrappings : List Wrapping)
    (ageless : ∀ wrapping ∈ wrappings, wrapping.Ageless)
    (once : wrappings.count .serialized ≤ 1) (w : ω) (visits : List (Visit ω)) (thread : Thread)
    (alone : ∀ visit ∈ visits, visit.site.thread = thread) (plain : ∀ visit ∈ visits, visit.Plain)
    (plays : ∀ visit ∈ visits, visit.Plays)
    (room : ∀ wrapping ∈ wrappings, ∀ room ∈ wrapping.room, (keys visits).length ≤ room) :
    answers (cache name wrappings).chain visits (start name wrappings w) =
      answers (cache name []).chain visits (start name [] w) := by
  have known : ∀ visit ∈ visits, ∀ k ∈ visit.demand.putKey?, k ∈ keys visits :=
    fun visit mem k put => List.mem_dedup.mpr (List.mem_filterMap.mpr ⟨visit, mem, put⟩)
  have bare : (cache name []).chain.Unscheduled := unscheduled_cache name (by simp)
  exact answers_of_shows (unscheduled_cache name ageless) (copiesOnce_cache name wrappings once)
    bare (copiesOnce_cache name [] (by simp))
    visits alone plain plays known (shows_cache name thread ageless room)
    (shows_cache name thread (by simp) (by simp))

/-- Two keys in a chain that has room for two, with a hot ring that has none. The thread misses a
key, reads the other twice, and misses what it has removed. -/
theorem answers_eq_plain_of_busy :
    let layers : List Wrapping := [.blocking (some 100), .counted, .tiered 0 2 none, .lru 2,
      .serialized, .synchronized, .fifo 3]
    let one : CacheKey := .ofValues [.integer 1]
    let two : CacheKey := .ofValues [.integer 2]
    let visits : List (Visit Unit) :=
      [.get one, .put one .placeholder, .put two (.rows []), .get two, .get two, .size, .remove one,
        .get one, .clear, .get two].map fun demand => ⟨.lone 1 0, demand⟩
    answers (cache "orders" []).chain visits (start "orders" [] ()) =
        [.ok (.found none), .ok .done, .ok .done, .ok (.found (some (.rows []))),
          .ok (.found (some (.rows []))), .ok (.count 2), .ok (.found (some .placeholder)),
          .ok (.found none), .ok .done, .ok (.found none)] ∧
      answers (cache "orders" layers).chain visits (start "orders" layers ()) =
        answers (cache "orders" []).chain visits (start "orders" [] ()) := by
  intro layers one two visits
  refine ⟨rfl, answers_eq_plain "orders" layers ?_ (by decide) () visits 1 ?_ ?_ ?_ ?_⟩
  · simp [layers, Ageless]
  · simp [visits, Site.lone]
  · simp [visits, Visit.Plain, Entry.Plain, Rows.Sized, wordBound]
  · simp [visits, Plays]
  · have different : (keys visits).length = 2 := rfl
    rw [different]
    simp [layers, Wrapping.room]

end Wrapping
end StatementCache
