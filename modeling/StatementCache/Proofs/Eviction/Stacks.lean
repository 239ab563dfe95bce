import StatementCache.Proofs.Eviction.Arrivals
import StatementCache.Proofs.Eviction.Crowding
import StatementCache.Proofs.Eviction.Recency

/-! Eviction layers of one capacity above a map. What each layer lists and what is really there is
told by the lines of the layers alone, and so is how much capacity a stack can lose. -/
namespace StatementCache

open StatementCache.Action Store

variable {room : Nat}

namespace Shelf

variable {k : CacheKey}

theorem erase_eq_filter {line : List CacheKey} (distinct : line.Nodup) (k : CacheKey) :
    line.erase k = line.filter (· ∉ [k]) := by
  rw [distinct.erase_eq_filter]
  exact List.filter_congr fun j _ => by by_cases same : j = k <;> simp [same]

end Shelf

namespace Recency

def shelf (r : Recency) : Shelf := ⟨.recency, r.line⟩

variable {r : Recency} (fits : r.shelf.Fits room)

include fits

theorem distinct_of_fits : r.keys.Nodup := List.nodup_reverse.mp fits.distinct

theorem shelf_forget (k : CacheKey) : (r.forget k).shelf = r.shelf.without [k] :=
  congrArg (Shelf.mk _) ((r.line_forget k (distinct_of_fits fits)).trans
    (Shelf.erase_eq_filter fits.distinct k))

theorem shelf_touch (k : CacheKey) : (r.touch k).shelf = r.shelf.touch k := by
  have mem : k ∈ r.line ↔ k ∈ r.keys := List.mem_reverse
  simp only [shelf, Shelf.touch, mem, true_and, touch]
  split
  · exact congrArg (Shelf.mk _) (r.line_front k (distinct_of_fits fits))
  · rfl

theorem shelf_push (positive : 1 ≤ room) (capacity : r.capacity = room) (k : CacheKey) :
    (r.push k).1.toList = r.shelf.leaving room k ∧ (r.push k).2.shelf = r.shelf.put room k := by
  have bounded : r.keys.length ≤ room := by
    rw [← List.length_reverse]
    exact fits.bounded (by simp [shelf])
  subst capacity
  obtain ⟨leaves, line⟩ :=
    r.push_eq k .placeholder (distinct_of_fits fits) bounded positive
  have same : r.shelf.leaving r.capacity k =
      (Demand.put k .placeholder).leaving r.line r.capacity := by
    simp [shelf, Shelf.leaving, Demand.leaving]
  refine ⟨leaves.trans same.symm, ?_⟩
  rw [shelf, line, Shelf.put, same, Demand.relined, Demand.remaining]
  by_cases there : k ∈ r.line
  · simp [shelf, Demand.leaving, there, Shelf.touch]
  · have absent : k ∉ r.line.drop ((Demand.put k .placeholder).leaving r.line r.capacity).length :=
      fun behind => there (List.mem_of_mem_drop behind)
    simp [shelf, there, List.erase_of_not_mem absent]

end Recency

namespace Arrivals

def shelf (a : Arrivals) : Shelf := ⟨.arrival, a.queue⟩

variable {a : Arrivals} (fits : a.shelf.Fits room) (agrees : a.Agrees)

include fits agrees

theorem shelf_forget (k : CacheKey) : (a.forget k).shelf = a.shelf.without [k] :=
  congrArg (Shelf.mk _) ((agrees.queue_forget fits.distinct k).trans
    (Shelf.erase_eq_filter fits.distinct k))

theorem shelf_enqueue (positive : 1 ≤ room) (capacity : a.capacity = room) (k : CacheKey) :
    (a.enqueue k).1 = a.shelf.leaving room k ∧ (a.enqueue k).2.shelf = a.shelf.put room k := by
  subst capacity
  by_cases there : k ∈ a.queue
  · obtain ⟨leaves, queue⟩ :=
      enqueue_of_mem ((agrees.members k).mpr there) (fits.bounded (by simp [shelf]))
    simp [shelf, leaves, queue, Shelf.leaving, Shelf.put, Shelf.touch, there]
  · obtain ⟨leaves, queue⟩ :=
      enqueue_of_not_mem (fun member => there ((agrees.members k).mp member)) positive
    have fits : a.queue.length + 1 - a.capacity ≤ a.queue.length := by omega
    simp [shelf, leaves, queue, Shelf.leaving, Shelf.put, there, Nat.min_eq_left fits]

end Arrivals

namespace Entries

def shelf (m : Entries) : Shelf := ⟨.everything, m.keys⟩

theorem shelf_erase (m : Entries) (k : CacheKey) : shelf (m.erase k) = m.shelf.without [k] :=
  congrArg (Shelf.mk _) ((Table.keys_erase m k).trans (Shelf.erase_eq_filter m.distinct k))

theorem shelf_insert (m : Entries) (k : CacheKey) (e : Entry) :
    shelf (m.insert k e) = m.shelf.put room k := by
  by_cases there : k ∈ m.keys
  · have keys : (m.insert k e).keys = m.keys := Table.keys_put_of_mem there
    simp [shelf, Shelf.put, Shelf.touch, there, keys]
  · have keys : (m.insert k e).keys = m.keys ++ [k] := Table.keys_put_of_not_mem there
    simp [shelf, Shelf.put, Shelf.leaving, there, keys]

end Entries

namespace Chain

variable {ω : Type}

def tower : (c : Chain) → c.State → Tower
  | .base _, m => [Entries.shelf m]
  | .lru inner, (r, s) => r.shelf :: inner.tower s
  | .fifo inner, (a, s) => a.shelf :: inner.tower s
  | _, _ => []

def Tidy (room : Nat) : (c : Chain) → c.State → Prop
  | .base _, _ => True
  | .lru inner, (r, s) => r.capacity = room ∧ inner.Tidy room s
  | .fifo inner, (a, s) => (a.Agrees ∧ a.capacity = room) ∧ inner.Tidy room s
  | _, _ => False

variable {c : Chain} {s : c.State}

theorem held_tower (h : c.Tidy room s) : (c.tower s).held = (c.entries s).keys := by
  obtain ⟨above, tower⟩ : ∃ above, c.tower s = above ++ [(c.entries s).shelf] := by
    induction c with
    | base id => exact ⟨[], rfl⟩
    | lru inner ih | fifo inner ih =>
      obtain ⟨above, tower⟩ := ih h.2
      exact ⟨_ :: above, congrArg (List.cons _) tower⟩
    | shared | tiered | scheduled | serialized | counted | synchronized | blocking | recording
    | faulty => exact h.elim
  rw [tower, Tower.held_concat]
  rfl

theorem remove_tidy (site : Site ω) (h : c.Tidy room s) (fit : (c.tower s).Fit room) (k : CacheKey)
    (w : ω) : ∃ found s', (c.store site).remove k (s, w) = ⟨.ok found, (s', w)⟩ ∧ c.Tidy room s' ∧
      c.tower s' = (c.tower s).map (·.without [k]) := by
  induction c with
  | base id => exact ⟨_, _, rfl, trivial, congrArg (fun q => [q]) (Entries.shelf_erase s k)⟩
  | lru inner ih =>
    obtain ⟨r, s⟩ := s
    obtain ⟨capacity, below⟩ := h
    obtain ⟨found, s', run, tidy, tower⟩ := ih below fit.tail
    refine ⟨found, (r.forget k, s'), ?_, ⟨capacity, tidy⟩, ?_⟩
    · simp [store, stacked, regroup, Layer.lru, bind_apply, run]; rfl
    · exact congr (congrArg List.cons (r.shelf_forget (fit _ List.mem_cons_self) k)) tower
  | fifo inner ih =>
    obtain ⟨a, s⟩ := s
    obtain ⟨⟨agrees, capacity⟩, below⟩ := h
    obtain ⟨found, s', run, tidy, tower⟩ := ih below fit.tail
    have fits := fit _ List.mem_cons_self
    refine ⟨found, (a.forget k, s'), ?_, ⟨⟨agrees.forget fits.distinct k, ?_⟩, tidy⟩, ?_⟩
    · simp [store, stacked, regroup, Layer.fifo, bind_apply, run]; rfl
    · rw [← capacity]
      unfold Arrivals.forget
      split <;> rfl
    · exact congr (congrArg List.cons (a.shelf_forget fits agrees k)) tower
  | shared | tiered | scheduled | serialized | counted | synchronized | blocking | recording
  | faulty => exact h.elim

theorem removeEach_tidy (site : Site ω) (h : c.Tidy room s) (fit : (c.tower s).Fit room)
    (gone : List CacheKey) (w : ω) :
    ∃ s', Layer.removeEach (c.store site) gone (s, w) = ⟨.ok (), (s', w)⟩ ∧ c.Tidy room s' ∧
      c.tower s' = (c.tower s).map (·.without gone) := by
  induction gone generalizing s with
  | nil => exact ⟨s, rfl, h, by simp⟩
  | cons k gone ih =>
    obtain ⟨found, s₁, removed, tidy, tower⟩ := remove_tidy site h fit k w
    obtain ⟨s₂, run, tidy, tower'⟩ := ih tidy (tower ▸ fit.without [k])
    refine ⟨s₂, ?_, tidy, ?_⟩
    · simp only [Layer.removeEach, bind_apply, discard_apply, removed, Except.map, run]
    · rw [tower', tower, List.map_map]
      simp only [Function.comp_def, Shelf.without_without, List.singleton_append]

theorem put_tidy (site : Site ω) (h : c.Tidy room s) (fit : (c.tower s).Fit room)
    (positive : 1 ≤ room) (k : CacheKey) (e : Entry) (w : ω) :
    ∃ s', (c.store site).put k e (s, w) = ⟨.ok (), (s', w)⟩ ∧ c.Tidy room s' ∧
      c.tower s' = (c.tower s).put room k := by
  induction c with
  | base id =>
    exact ⟨_, rfl, trivial, congrArg (fun q => [q]) (Entries.shelf_insert s k e)⟩
  | lru inner ih =>
    obtain ⟨r, s⟩ := s
    obtain ⟨capacity, below⟩ := h
    obtain ⟨s₁, written, tidy, tower⟩ := ih below fit.tail
    obtain ⟨leaves, shelf⟩ := r.shelf_push (fit _ List.mem_cons_self) positive capacity k
    have capacity := (r.capacity_push k).trans capacity
    cases evicted : (r.push k).1 with
    | none =>
      rw [evicted, Option.toList_none] at leaves
      refine ⟨((r.push k).2, s₁), ?_, ⟨capacity, tidy⟩, ?_⟩
      · simp [store, stacked, regroup, Layer.lru, bind_apply, written, evicted]; rfl
      · refine congr (congrArg List.cons shelf) ?_
        simp [← leaves, tower]
    | some old =>
      rw [evicted, Option.toList_some] at leaves
      obtain ⟨found, s₂, removed, tidy, tower'⟩ :=
        remove_tidy site tidy (tower ▸ fit.tail.put positive k) old w
      refine ⟨((r.push k).2, s₂), ?_, ⟨capacity, tidy⟩, ?_⟩
      · simp [store, stacked, regroup, Layer.lru, bind_apply, written, evicted, removed,
          Except.map]; rfl
      · rw [tower, leaves] at tower'
        exact congr (congrArg List.cons shelf) tower'
  | fifo inner ih =>
    obtain ⟨a, s⟩ := s
    obtain ⟨⟨agrees, capacity⟩, below⟩ := h
    have fits := fit _ List.mem_cons_self
    obtain ⟨s₁, written, tidy, tower⟩ := ih below fit.tail
    obtain ⟨leaves, shelf⟩ := a.shelf_enqueue fits agrees positive capacity k
    obtain ⟨s₂, removed, tidy, tower'⟩ :=
      removeEach_tidy site tidy (tower ▸ fit.tail.put positive k) (a.enqueue k).1 w
    refine ⟨((a.enqueue k).2, s₂), ?_,
      ⟨⟨agrees.enqueue fits.distinct k, (a.capacity_enqueue k).trans capacity⟩, tidy⟩, ?_⟩
    · simp [store, stacked, regroup, Layer.fifo, bind_apply, written, removed]; rfl
    · rw [tower, leaves] at tower'
      exact congr (congrArg List.cons shelf) tower'
  | shared | tiered | scheduled | serialized | counted | synchronized | blocking | recording
  | faulty => exact h.elim

theorem get_tidy (site : Site ω) (h : c.Tidy room s) (fit : (c.tower s).Fit room) (k : CacheKey)
    (w : ω) : ∃ found s', (c.store site).get k (s, w) = ⟨.ok found, (s', w)⟩ ∧ c.Tidy room s' ∧
      c.tower s' = (c.tower s).map (·.touch k) := by
  induction c with
  | base id =>
    exact ⟨_, s, rfl, trivial, by simp [tower, Shelf.touch, Entries.shelf]⟩
  | lru inner ih =>
    obtain ⟨r, s⟩ := s
    obtain ⟨capacity, below⟩ := h
    obtain ⟨found, s', run, tidy, tower⟩ := ih below fit.tail
    refine ⟨found, (r.touch k, s'), ?_, ⟨?_, tidy⟩, ?_⟩
    · simp [store, stacked, regroup, Layer.lru, bind_apply, run]; rfl
    · rw [← capacity]
      unfold Recency.touch
      split <;> rfl
    · exact congr (congrArg List.cons (r.shelf_touch (fit _ List.mem_cons_self) k)) tower
  | fifo inner ih =>
    obtain ⟨a, s⟩ := s
    obtain ⟨⟨agrees, capacity⟩, below⟩ := h
    obtain ⟨found, s', run, tidy, tower⟩ := ih below fit.tail
    refine ⟨found, (a, s'), ?_, ⟨⟨agrees, capacity⟩, tidy⟩, ?_⟩
    · simp [store, stacked, regroup, Layer.fifo, run]; rfl
    · exact congr (congrArg List.cons (by simp [Shelf.touch, Arrivals.shelf])) tower
  | shared | tiered | scheduled | serialized | counted | synchronized | blocking | recording
  | faulty => exact h.elim

theorem size_tidy (site : Site ω) (h : c.Tidy room s) (w : ω) :
    (c.store site).size (s, w) = ((c.entries s).size, (s, w)) := by
  induction c with
  | base id => rfl
  | lru inner ih | fifo inner ih =>
    obtain ⟨b, s⟩ := s
    have below := ih h.2
    simp [store, stacked, regroup, Layer.lru, Layer.fifo, Store.below, below]
    rfl
  | shared | tiered | scheduled | serialized | counted | synchronized | blocking | recording
  | faulty => exact h.elim

end Chain

namespace Visit

variable {ω : Type} {c : Chain} {s : c.State} {visit : Visit ω}

theorem perform_tidy (serves : visit.demand.PutsOrGets) (h : c.Tidy room s)
    (fit : (c.tower s).Fit room) (positive : 1 ≤ room) (w : ω) :
    ∃ s', (visit.perform c (s, w)).state = (s', w) ∧ c.Tidy room s' ∧
      c.tower s' = (c.tower s).serve room visit.demand := by
  obtain ⟨site, demand⟩ := visit
  obtain ⟨k, e, rfl⟩ | ⟨k, rfl⟩ := serves
  · obtain ⟨s', run, tidy, tower⟩ := Chain.put_tidy site h fit positive k e w
    exact ⟨s', by simp [perform, Demand.on, run], tidy, tower⟩
  · obtain ⟨found, s', run, tidy, tower⟩ := Chain.get_tidy site h fit k w
    exact ⟨s', by simp [perform, Demand.on, run], tidy, tower⟩

end Visit

namespace Wrapping

variable {ω : Type} {capacity : Nat} {layers : List Wrapping}

def keeping : Wrapping → Keeping
  | .lru _ => .recency
  | .fifo _ => .arrival
  | .tiered _ _ _ | .scheduled _ _ | .serialized | .counted | .synchronized | .blocking _ =>
    .everything

section

variable (evicting : ∀ layer ∈ layers, layer = .lru capacity ∨ layer = .fifo capacity)

include evicting

theorem keeping_of_evicting : ∀ c ∈ layers.map keeping, c = .recency ∨ c = .arrival := by
  intro c mem
  obtain ⟨layer, there, rfl⟩ := List.mem_map.mp mem
  obtain rfl | rfl := evicting layer there
  · exact .inl rfl
  · exact .inr rfl

theorem tidy_cache (name : String) :
    (cache name layers).chain.Tidy (max capacity 1) (cache name layers).state ∧
      (cache name layers).chain.tower (cache name layers).state =
        Tower.fresh (layers.map keeping) := by
  induction layers with
  | nil => exact ⟨trivial, rfl⟩
  | cons layer below ih =>
    obtain ⟨first, rest⟩ := List.forall_mem_cons.mp evicting
    obtain ⟨tidy, tower⟩ := ih rest
    obtain rfl | rfl := first
    · exact ⟨⟨rfl, tidy⟩, congrArg (List.cons _) tower⟩
    · exact ⟨⟨⟨⟨fun _ => Iff.rfl, .nil⟩, rfl⟩, tidy⟩, congrArg (List.cons _) tower⟩

def lines (capacity : Nat) (layers : List Wrapping) (past : List Demand) : Tower :=
  past.foldl (Tower.serve (max capacity 1)) (Tower.fresh (layers.map keeping))

variable (nonempty : layers ≠ [])

include nonempty

theorem kept_lines (past : List Demand) :
    Tower.Kept (max capacity 1) (layers.map keeping) past (lines capacity layers past) := by
  refine Tower.kept_served (Nat.le_max_right capacity 1)
    (fun none => nonempty (List.map_eq_nil_iff.mp none)) (fun c mem => ?_) past
  obtain rfl | rfl := keeping_of_evicting evicting c mem <;> simp

/-- Over a run a stack does what its lines do. -/
theorem played_tidy (name : String) (w : ω) (past : List (Visit ω))
    (serves : ∀ visit ∈ past, visit.demand.PutsOrGets) :
    let chain := (cache name layers).chain
    ∃ s, played (Visit.perform chain) past (start name layers w) = (s, w) ∧
      chain.Tidy (max capacity 1) s ∧
      chain.tower s = lines capacity layers (past.map (·.demand)) := by
  intro chain
  induction past using List.reverseRecOn with
  | nil =>
    obtain ⟨tidy, tower⟩ := tidy_cache evicting name
    exact ⟨_, rfl, tidy, tower⟩
  | append_singleton past visit ih =>
    obtain ⟨s, run, tidy, tower⟩ := ih fun v mem => serves v (List.mem_append_left _ mem)
    have fit := (kept_lines evicting nonempty (past.map (·.demand))).healthy.ranked.fit
    rw [← tower] at fit
    obtain ⟨s', step, tidy, tower'⟩ :=
      Visit.perform_tidy (serves visit (by simp)) tidy fit (Nat.le_max_right capacity 1) w
    refine ⟨s', by rw [played_concat, run, step], tidy, ?_⟩
    rw [tower', tower, List.map_append, List.map_singleton, lines, lines, List.foldl_concat]

theorem keys_entries_played (name : String) (w : ω) (past : List (Visit ω))
    (serves : ∀ visit ∈ past, visit.demand.PutsOrGets) :
    let chain := (cache name layers).chain
    let s := played (Visit.perform chain) past (start name layers w)
    (chain.entries s.1).keys = (lines capacity layers (past.map (·.demand))).held ∧
      ∀ site, ((chain.store site).size s).1 = (chain.entries s.1).size := by
  intro chain s
  obtain ⟨s', run, tidy, tower⟩ := played_tidy evicting nonempty name w past serves
  have same : s = (s', w) := run
  rw [same, ← tower, Chain.held_tower tidy]
  exact ⟨rfl, fun site => congrArg Prod.fst (Chain.size_tidy site tidy w)⟩

end

theorem card_keysPut (past : List (Visit ω)) :
    (Demand.keysPut (past.map (·.demand))).card = (Visit.keys past).length := by
  rw [Demand.keysPut, List.card_toFinset, List.filterMap_map]
  rfl

/-- The capacity that a stack keeps in any case, once it has been full. -/
def least (capacity : Nat) (layers : List Wrapping) : Nat :=
  max 1 (max capacity 1 - Tower.shortfall (layers.map keeping))

theorem length_held_bounds (nonempty : layers ≠ [])
    (evicting : ∀ layer ∈ layers, layer = .lru capacity ∨ layer = .fifo capacity)
    {past : List Demand} (many : max capacity 1 ≤ (Demand.keysPut past).card) :
    least capacity layers ≤ (lines capacity layers past).held.length ∧
      (lines capacity layers past).held.length ≤ max capacity 1 := by
  have kept := kept_lines evicting nonempty past
  have room := kept.room_le many
  rw [Tower.lag_sparse (keeping_of_evicting evicting)] at room
  have some : (lines capacity layers past).held ≠ [] :=
    kept.some (Finset.card_pos.mp (Nat.lt_of_lt_of_le (Nat.le_max_right capacity 1) many))
  have positive := List.length_pos_iff.mpr some
  have bounded := kept.healthy.length_held_le
    (fun none => nonempty (List.map_eq_nil_iff.mp none)) fun c mem => by
      obtain rfl | rfl := keeping_of_evicting evicting c mem <;> simp
  unfold least
  omega

theorem length_dropped_bounds (nonempty : layers ≠ [])
    (evicting : ∀ layer ∈ layers, layer = .lru capacity ∨ layer = .fifo capacity)
    {past : List Demand} {k : CacheKey} (e : Entry) (new : k ∉ (lines capacity layers past).held)
    (full : (lines capacity layers past).held.length = max capacity 1) :
    let dropped := (lines capacity layers past).held.filter
      (· ∉ (lines capacity layers (past ++ [.put k e])).held)
    1 ≤ dropped.length ∧ dropped.length ≤ max capacity 1 + 1 - least capacity layers := by
  have kept := kept_lines evicting nonempty past
  have many : max capacity 1 ≤ (Demand.keysPut (past ++ [.put k e])).card := by
    rw [Demand.keysPut_concat, ← full]
    exact kept.length_held_le.trans (Finset.card_le_card Finset.subset_union_left)
  have bounds := length_held_bounds nonempty evicting many
  have next : lines capacity layers (past ++ [.put k e]) =
      (lines capacity layers past).put (max capacity 1) k := List.foldl_concat ..
  have count := kept.healthy.ranked.fit.length_held_put (Nat.le_max_right capacity 1)
    kept.healthy.ne_nil new
  rw [← next, full] at count
  dsimp only
  omega

theorem exists_crowded (nonempty : layers ≠ [])
    (evicting : ∀ layer ∈ layers, layer = .lru capacity ∨ layer = .fifo capacity) :
    ∃ past k, (∀ d ∈ past, d.PutsOrGets) ∧ k ∉ (lines capacity layers past).held ∧
      (lines capacity layers past).held.length = max capacity 1 ∧
        (lines capacity layers (past ++ [.put k .placeholder])).held.length =
          least capacity layers := by
  obtain ⟨past, k, serves, many, full, new, loss⟩ :=
    Tower.crowded (keeping_of_evicting evicting) (Nat.le_max_right capacity 1)
      fun none => nonempty (List.map_eq_nil_iff.mp none)
  have more : max capacity 1 ≤ (Demand.keysPut (past ++ [.put k .placeholder])).card := by
    rw [Demand.keysPut_concat]
    exact many.trans (Finset.card_le_card Finset.subset_union_left)
  have bounds := (length_held_bounds nonempty evicting more).1
  refine ⟨past, k, serves, new, full, Nat.le_antisymm ?_ bounds⟩
  have next : lines capacity layers (past ++ [.put k .placeholder]) =
      (lines capacity layers past).put (max capacity 1) k := List.foldl_concat ..
  rw [← lines, ← next] at loss
  unfold least
  omega

/-- Stacked layers do lose capacity, but not much of it, and the layers tell how much. -/
theorem stacked_size_bounds (name : String) (capacity : Nat) (layers : List Wrapping)
    (nonempty : layers ≠ [])
    (evicting : ∀ layer ∈ layers, layer = .lru capacity ∨ layer = .fifo capacity) (w : ω) :
    let chain := (cache name layers).chain
    let room := max capacity 1
    let after (past : List (Visit ω)) := played (Visit.perform chain) past (start name layers w)
    let held (past : List (Visit ω)) : Entries := chain.entries (after past).1
    (∀ past, (∀ visit ∈ past, visit.demand.PutsOrGets) → room ≤ (Visit.keys past).length →
      (∀ site, ((chain.store site).size (after past)).1 = (held past).size) ∧
        least capacity layers ≤ (held past).size ∧ (held past).size ≤ room) ∧
    (∀ past visit k e, (∀ visit ∈ past, visit.demand.PutsOrGets) → visit.demand = .put k e →
      k ∉ (held past).keys → (held past).size = room →
        let dropped := (held past).keys.filter (· ∉ (held (past ++ [visit])).keys)
        1 ≤ dropped.length ∧ dropped.length ≤ room + 1 - least capacity layers) ∧
    ∀ site, ∃ past k e, (∀ visit ∈ past, visit.demand.PutsOrGets) ∧ k ∉ (held past).keys ∧
      (held past).size = room ∧
        (held (past ++ [⟨site, .put k e⟩])).size = least capacity layers := by
  intro chain room after held
  have keys (past : List (Visit ω)) (serves : ∀ visit ∈ past, visit.demand.PutsOrGets) :
      (held past).keys = (lines capacity layers (past.map (·.demand))).held :=
    (keys_entries_played evicting nonempty name w past serves).1
  have size (past : List (Visit ω)) (serves : ∀ visit ∈ past, visit.demand.PutsOrGets) :
      (held past).size = (lines capacity layers (past.map (·.demand))).held.length := by
    rw [← keys past serves]
    exact (List.length_map ..).symm
  refine ⟨fun past serves many => ?_, fun past visit k e serves put new full => ?_, fun site => ?_⟩
  · refine ⟨(keys_entries_played evicting nonempty name w past serves).2, ?_⟩
    rw [size past serves]
    exact length_held_bounds nonempty evicting (card_keysPut past ▸ many)
  · have serves' : ∀ v ∈ past ++ [visit], v.demand.PutsOrGets :=
      List.forall_mem_append.mpr ⟨serves, List.forall_mem_singleton.mpr (.inl ⟨k, e, put⟩)⟩
    rw [keys past serves] at new ⊢
    rw [size past serves] at full
    rw [keys (past ++ [visit]) serves', List.map_append, List.map_singleton, put]
    exact length_dropped_bounds nonempty evicting e new full
  · obtain ⟨past, k, serves, new, full, loss⟩ := exists_crowded nonempty evicting
    let visits (past : List Demand) : List (Visit ω) := past.map (⟨site, ·⟩)
    have demands (past : List Demand) : (visits past).map (·.demand) = past := by
      simp [visits, Function.comp_def]
    have serves' (past : List Demand) (serves : ∀ d ∈ past, d.PutsOrGets) :
        ∀ visit ∈ visits past, visit.demand.PutsOrGets := List.forall_mem_map.mpr serves
    have later : visits past ++ [⟨site, .put k .placeholder⟩] =
        visits (past ++ [.put k .placeholder]) := by simp [visits]
    refine ⟨visits past, k, .placeholder, serves' past serves, ?_, ?_, ?_⟩
    · rw [keys _ (serves' past serves), demands]
      exact new
    · rw [size _ (serves' past serves), demands]
      exact full
    · have more : ∀ d ∈ past ++ [.put k .placeholder], d.PutsOrGets :=
        List.forall_mem_append.mpr ⟨serves, List.forall_mem_singleton.mpr (.inl ⟨k, _, rfl⟩)⟩
      rw [later, size _ (serves' _ more), demands]
      exact loss

/-- A queue, an index and another queue, none of which agrees with another on what leaves. -/
theorem stacked_size_bounds_of_three :
    let layers : List Wrapping := [.fifo 3, .lru 3, .fifo 3]
    let chain := (cache "orders" layers).chain
    let key (n : Int64) : CacheKey := .ofValues [.integer n]
    let put (n : Int64) : Visit Unit := ⟨.lone 1 0, .put (key n) .placeholder⟩
    let get (n : Int64) : Visit Unit := ⟨.lone 1 0, .get (key n)⟩
    let past := [put 1, put 2, put 3, get 1, put 4, put 2, get 3, put 5]
    let held := chain.entries (played (Visit.perform chain) past (start "orders" layers ())).1
    layers ≠ [] ∧ (∀ layer ∈ layers, layer = .lru 3 ∨ layer = .fifo 3) ∧
      (∀ visit ∈ past, visit.demand.PutsOrGets) ∧ 3 ≤ (Visit.keys past).length ∧
      held.keys = [key 5] ∧ least 3 layers = 1 ∧ least 3 layers ≤ held.size ∧ held.size ≤ 3 := by
  have evicting : ∀ layer ∈ [.fifo 3, .lru 3, .fifo 3], layer = lru 3 ∨ layer = fifo 3 := by simp
  refine ⟨by simp, evicting, ?serves, by decide, by rfl, by decide, ?bounds⟩
  case serves => simp [Demand.PutsOrGets]
  case bounds =>
    exact ((stacked_size_bounds "orders" 3 _ (by simp) evicting ()).1 _
      (by simp [Demand.PutsOrGets]) (by decide)).2

/-- An index over a queue, and then a lookup makes them disagree. A new key takes the place of two. -/
theorem index_over_queue_loses_capacity :
    let layers : List Wrapping := [.lru 2, .fifo 2]
    let chain := (cache "orders" layers).chain
    let key (n : Int64) : CacheKey := .ofValues [.integer n]
    let put (n : Int64) : Visit Unit := ⟨.lone 1 0, .put (key n) .placeholder⟩
    let past := [put 1, put 2, ⟨.lone 1 0, .get (key 1)⟩]
    let after (past : List (Visit Unit)) :=
      played (Visit.perform chain) past (start "orders" layers ())
    (∀ visit ∈ past ++ [put 3], visit.demand.PutsOrGets) ∧ 2 ≤ (Visit.keys past).length ∧
      ((chain.store (.lone 1 0)).size (after past)).1 = 2 ∧
      key 3 ∉ (chain.entries (after past).1).keys ∧
      ((chain.store (.lone 1 0)).size (after (past ++ [put 3]))).1 = 1 := by
  refine ⟨?serves, by decide, by rfl, by decide, by rfl⟩
  case serves => simp [Demand.PutsOrGets]

end Wrapping
end StatementCache
