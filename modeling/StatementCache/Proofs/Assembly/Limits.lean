import StatementCache.Proofs.Assembly.Acceptance

/-! The descriptions that are accepted, told without the layers: which names, which properties with
which values, which sizes. Of the cache that comes out, how much each eviction layer holds is told
from the description in the same way. -/
namespace StatementCache

open StatementCache.Action

namespace Eviction

theorem ofName?_isSome_iff {name : String} :
    (∃ e, ofName? name = some e) ↔ name.toUpper ∈ ["LRU", "FIFO", "SOFT", "TIERED"] := by
  simp only [ofName?, List.mem_cons, List.not_mem_nil, or_false]
  split
  · simp [*]
  · split
    · simp [*]
    · split <;> simp [*]

theorem ofName?_eq_tiered_iff {name : String} :
    ofName? name = some .tiered ↔ name.toUpper ∈ ["SOFT", "TIERED"] := by
  simp only [ofName?, List.mem_cons, List.not_mem_nil, or_false]
  split
  · rename_i lru
    simp [lru]
  · split
    · rename_i fifo
      simp [fifo]
    · split <;> simp [*]

theorem rule?_layer_isSome_iff {e : Eviction} {name : String} :
    (e.layer.rule? name).isSome = true ↔
      name = "size" ∨ e = .tiered ∧ (name = "warmSize" ∨ name = "warmTtl") := by
  cases e with
  | lru => by_cases size : name = "size" <;> simp [layer, Wrapping.rule?, size]
  | fifo => by_cases size : name = "size" <;> simp [layer, Wrapping.rule?, size]
  | tiered =>
    simp only [layer, Wrapping.rule?, true_and]
    split
    · rename_i either
      simp only [Option.isSome_some, true_iff]
      tauto
    · split
      · rename_i age
        simp [age]
      · rename_i neither other
        simp only [Option.isSome_none, Bool.false_eq_true, false_iff]
        tauto

end Eviction

namespace Wrapping

variable {l : Wrapping} {name : String} {p : String × String} {n : Nat}

theorem takes_of_word (read : Setting.word p.1 p.2 = .ok n)
    (positive : p.1 = "size" ∨ p.1 = "warmSize" → 1 ≤ n) : l.Takes p := by
  intro rule own
  rcases rule?_cases own with ⟨sized, rfl⟩ | rfl
  · exact ⟨n, Setting.capacity_eq_ok_iff.mpr ⟨read, positive sized⟩⟩
  · exact ⟨n, read⟩

end Wrapping

namespace Blueprint

variable {b : Blueprint} {name value : String}

inductive Serves (b : Blueprint) : String → String → Prop where
  | size {value n} : Setting.word "size" value = .ok n → 1 ≤ n → b.Serves "size" value
  | warmSize {value n} : (∃ name ∈ b.decorators, name.toUpper ∈ ["SOFT", "TIERED"]) →
      Setting.word "warmSize" value = .ok n → 1 ≤ n → b.Serves "warmSize" value
  | warmTtl {value n} : (∃ name ∈ b.decorators, name.toUpper ∈ ["SOFT", "TIERED"]) →
      Setting.word "warmTtl" value = .ok n → b.Serves "warmTtl" value
  | clearInterval {value n} : b.clearInterval ≠ none →
      Setting.word "clearInterval" value = .ok n → b.Serves "clearInterval" value
  | timeout {value n} : b.blocking = true →
      Setting.word "timeout" value = .ok n → b.Serves "timeout" value

/-- What a description has to keep to. -/
structure Valid (b : Blueprint) : Prop where
  decorators : ∀ name ∈ b.decorators, name.toUpper ∈ ["LRU", "FIFO", "SOFT", "TIERED"]
  size : b.size ≠ some 0
  properties : ∀ p ∈ b.properties.entries, b.Serves p.1 p.2

theorem rule?_resized_isSome_iff {size : Option UInt64} {layers : List Wrapping} :
    (∃ l ∈ resized size layers, (l.rule? name).isSome = true) ↔
      ∃ l ∈ layers, (l.rule? name).isSome = true := by
  cases layers with
  | nil => rfl
  | cons l rest => cases size <;> simp [resized]

theorem rule?_evicting_isSome_iff {names : List String} :
    (∃ l ∈ b.evicting names, (l.rule? name).isSome = true) ↔
      ∃ d ∈ names, ∃ e, Eviction.ofName? d = some e ∧ (e.layer.rule? name).isSome = true := by
  simp only [evicting, List.mem_map, List.mem_filterMap, exists_exists_and_eq_and,
    Wrapping.rule?_fitted]
  constructor
  · rintro ⟨e, ⟨d, mem, found⟩, own⟩
    exact ⟨d, mem, e, found, own⟩
  · rintro ⟨d, mem, e, found, own⟩
    exact ⟨e, ⟨d, mem, found⟩, own⟩

theorem rule?_covered_isSome_iff (now : Nat) (layers : List Wrapping) :
    (∃ l ∈ b.covered now layers, (l.rule? name).isSome = true) ↔
      (∃ l ∈ layers, (l.rule? name).isSome = true) ∨
      (b.clearInterval ≠ none ∧ name = "clearInterval") ∨
      (b.blocking = true ∧ name = "timeout") := by
  have timed : (∃ l ∈ b.timed now layers, (l.rule? name).isSome = true) ↔
      (b.clearInterval ≠ none ∧ name = "clearInterval") ∨
        ∃ l ∈ layers, (l.rule? name).isSome = true := by
    unfold timed
    cases b.clearInterval with
    | none => simp
    | some interval => simp
  have copied : (∃ l ∈ (if b.copyOnRead then .serialized :: b.timed now layers
      else b.timed now layers), (l.rule? name).isSome = true) ↔
        ∃ l ∈ b.timed now layers, (l.rule? name).isSome = true := by
    split <;> simp
  unfold covered
  cases b.blocking with
  | false => simp [copied, timed, or_comm]
  | true => simp [copied, timed, or_comm, or_assoc, or_left_comm]

theorem rule?_wrappings_isSome_iff (now : Nat) :
    (∃ l ∈ b.wrappings now, (l.rule? name).isSome = true) ↔
      (∃ d ∈ b.evictionNames, ∃ e, Eviction.ofName? d = some e ∧ (e.layer.rule? name).isSome = true) ∨
      (b.clearInterval ≠ none ∧ name = "clearInterval") ∨ (b.blocking = true ∧ name = "timeout") := by
  simp only [wrappings, rule?_covered_isSome_iff, rule?_resized_isSome_iff, List.mem_reverse,
    rule?_evicting_isSome_iff]

theorem mem_evictionNames_iff :
    name ∈ b.evictionNames ↔
      name ∈ b.decorators ∨ b.decorators = [] ∧ name = CacheFactories.defaultEviction := by
  unfold evictionNames
  split
  · rename_i none
    simp [List.isEmpty_iff.mp none]
  · rename_i some
    simp [mt List.isEmpty_iff.mpr some]

theorem ofName?_defaultEviction : Eviction.ofName? CacheFactories.defaultEviction = some .lru := by
  have upper : CacheFactories.defaultEviction.toUpper = "LRU" := by decide +kernel
  rw [Eviction.ofName?, if_pos upper]

theorem decorators_known_iff :
    (∀ name ∈ b.decorators, name.toUpper ∈ ["LRU", "FIFO", "SOFT", "TIERED"]) ↔
      ∀ name ∈ b.evictionNames, ∃ e, Eviction.ofName? name = some e := by
  simp only [← Eviction.ofName?_isSome_iff, mem_evictionNames_iff]
  constructor
  · rintro known name (mem | ⟨-, rfl⟩)
    · exact known name mem
    · exact ⟨.lru, ofName?_defaultEviction⟩
  · exact fun known name mem => known name (.inl mem)

theorem decorators_tiered_iff :
    (∃ name ∈ b.decorators, name.toUpper ∈ ["SOFT", "TIERED"]) ↔
      ∃ name ∈ b.evictionNames, Eviction.ofName? name = some .tiered := by
  simp only [← Eviction.ofName?_eq_tiered_iff, mem_evictionNames_iff]
  constructor
  · rintro ⟨name, mem, tiered⟩
    exact ⟨name, .inl mem, tiered⟩
  · rintro ⟨name, mem | ⟨-, rfl⟩, tiered⟩
    · exact ⟨name, mem, tiered⟩
    · cases ofName?_defaultEviction.symm.trans tiered

theorem Serves.takes (h : b.Serves name value) (l : Wrapping) : l.Takes (name, value) := by
  cases h with
  | size read positive => exact Wrapping.takes_of_word read fun _ => positive
  | warmSize _ read positive => exact Wrapping.takes_of_word read fun _ => positive
  | warmTtl _ read => exact Wrapping.takes_of_word read (by simp)
  | clearInterval _ read => exact Wrapping.takes_of_word read (by simp)
  | timeout _ read => exact Wrapping.takes_of_word read (by simp)

theorem Valid.takes (valid : b.Valid) (l : Wrapping) : ∀ p ∈ b.properties.entries, l.Takes p :=
  fun p mem => (valid.properties p mem).takes l

theorem Serves.known (h : b.Serves name value)
    (all : ∀ name ∈ b.evictionNames, ∃ e, Eviction.ofName? name = some e) (now : Nat) :
    ∃ l ∈ b.wrappings now, (l.rule? name).isSome = true := by
  rw [rule?_wrappings_isSome_iff]
  simp only [Eviction.rule?_layer_isSome_iff]
  cases h with
  | size =>
    obtain ⟨d, mem⟩ := List.exists_mem_of_ne_nil _ b.evictionNames_ne_nil
    obtain ⟨e, found⟩ := all d mem
    exact .inl ⟨d, mem, e, found, .inl rfl⟩
  | warmSize tiered =>
    obtain ⟨d, mem, found⟩ := decorators_tiered_iff.mp tiered
    exact .inl ⟨d, mem, .tiered, found, .inr ⟨rfl, .inl rfl⟩⟩
  | warmTtl tiered =>
    obtain ⟨d, mem, found⟩ := decorators_tiered_iff.mp tiered
    exact .inl ⟨d, mem, .tiered, found, .inr ⟨rfl, .inr rfl⟩⟩
  | clearInterval set => exact .inr (.inl ⟨set, rfl⟩)
  | timeout set => exact .inr (.inr ⟨set, rfl⟩)

theorem Fits.serves {now : Nat} (h : b.Fits now) (mem : (name, value) ∈ b.properties.entries) :
    b.Serves name value := by
  have counted {n : Nat} (read : Setting.capacity name value = .ok n) :
      Setting.word name value = .ok n ∧ 1 ≤ n := Setting.capacity_eq_ok_iff.mp read
  rcases (rule?_wrappings_isSome_iff now).mp
    (h.known name (List.mem_map_of_mem mem)) with ⟨d, named, e, found, own⟩ | ⟨set, rfl⟩ | ⟨set, rfl⟩
  · obtain ⟨e', found', takes⟩ := h.eviction d named
    cases found.symm.trans found'
    rcases Eviction.rule?_layer_isSome_iff.mp own with rfl | ⟨rfl, rfl | rfl⟩
    · obtain ⟨n, read⟩ := takes _ mem (Setting.capacity "size") (by cases e <;> rfl)
      exact .size (counted read).1 (counted read).2
    · obtain ⟨n, read⟩ := takes _ mem (Setting.capacity "warmSize") rfl
      exact .warmSize (decorators_tiered_iff.mpr ⟨d, named, found⟩) (counted read).1 (counted read).2
    · obtain ⟨n, read⟩ := takes _ mem (Setting.word "warmTtl") rfl
      exact .warmTtl (decorators_tiered_iff.mpr ⟨d, named, found⟩) read
  · obtain ⟨interval, some⟩ := Option.ne_none_iff_exists'.mp set
    obtain ⟨n, read⟩ := h.scheduled interval some _ mem (Setting.word "clearInterval") rfl
    exact .clearInterval set read
  · obtain ⟨n, read⟩ := h.blocking set _ mem (Setting.word "timeout") rfl
    exact .timeout set read

/-- The description keeps to what is asked of it exactly when every layer can be made. -/
theorem valid_iff_fits (b : Blueprint) (now : Nat) : b.Valid ↔ b.Fits now := by
  constructor
  · intro valid
    have all := decorators_known_iff.mp valid.decorators
    refine ⟨fun name mem => ?_, valid.size, fun _ _ => valid.takes _, fun _ => valid.takes _,
      fun name mem => ?_⟩
    · obtain ⟨e, found⟩ := all name mem
      exact ⟨e, found, valid.takes _⟩
    · obtain ⟨p, listed, rfl⟩ := List.mem_map.mp mem
      exact (valid.properties p listed).known all now
  · intro fits
    exact ⟨decorators_known_iff.mpr fun name mem => (fits.eviction name mem).imp fun _ => And.left,
      fits.size, fun p mem => fits.serves mem⟩

end Blueprint

/-- The eviction layers, the outermost first, with how much each may hold. Of a tiered one it is what
its hot ring may hold. -/
def Chain.evictions : (c : Chain) → c.State → List (Eviction × Nat)
  | .base _, _ | .shared _, _ => []
  | .lru inner, (r, s) => (.lru, r.capacity) :: inner.evictions s
  | .fifo inner, (a, s) => (.fifo, a.capacity) :: inner.evictions s
  | .tiered inner, (t, s) => (.tiered, t.hotSize) :: inner.evictions s
  | .scheduled inner, (_, s) | .counted inner, (_, s) | .blocking inner, (_, s) => inner.evictions s
  | .serialized inner, s | .synchronized inner, s | .recording inner, s | .faulty inner, s =>
    inner.evictions s

namespace Wrapping

variable {l : Wrapping} {p : String × String} {properties : List (String × String)}

def eviction? : Wrapping → Option (Eviction × Nat)
  | .lru capacity => some (.lru, max capacity 1)
  | .fifo capacity => some (.fifo, max capacity 1)
  | .tiered hotSize _ _ => some (.tiered, hotSize)
  | .scheduled _ _ | .serialized | .counted | .synchronized | .blocking _ => none

theorem id_cache (id : String) (layers : List Wrapping) : (cache id layers).id = id := by
  induction layers with
  | nil => rfl
  | cons l rest ih => cases l <;> exact ih

theorem evictions_cache (id : String) (layers : List Wrapping) :
    (cache id layers).chain.evictions (cache id layers).state = layers.filterMap eviction? := by
  induction layers with
  | nil => rfl
  | cons l rest ih =>
    cases l with
    | lru | fifo | tiered => exact congrArg (List.cons _) ih
    | scheduled | serialized | counted | synchronized | blocking => exact ih

def asked (properties : List (String × String)) : Option Nat :=
  (properties.lookup "size").bind fun value => (Setting.word "size" value).toOption

@[simp] theorem asked_nil : asked [] = none := rfl

theorem asked_cons (own : p.1 = "size") :
    asked (p :: properties) = (Setting.word "size" p.2).toOption := by
  obtain ⟨name, value⟩ := p
  cases own
  simp [asked]

theorem asked_cons_of_ne (other : p.1 ≠ "size") : asked (p :: properties) = asked properties := by
  obtain ⟨name, value⟩ := p
  simp [asked, List.lookup_cons, beq_false_of_ne (Ne.symm other)]

theorem eviction?_set (takes : l.Takes p) :
    (l.set p).eviction? = l.eviction?.map fun e => (e.1, (asked [p]).getD e.2) := by
  by_cases size : p.1 = "size"
  · have read {n : Nat} (held : Setting.capacity "size" p.2 = .ok n) :
        asked [p] = some n ∧ max n 1 = n := by
      obtain ⟨read, positive⟩ := Setting.capacity_eq_ok_iff.mp held
      exact ⟨by rw [asked_cons size, read]; rfl, Nat.max_eq_left positive⟩
    cases l with
    | lru | fifo | tiered =>
      obtain ⟨n, held⟩ := takes (Setting.capacity "size") (by simp [rule?, size])
      simp [set, rule?, size, held, adjust, eviction?, read held]
    | scheduled | blocking => simp [set, rule?, size, eviction?]
    | serialized | counted | synchronized => rfl
  · rw [asked_cons_of_ne size]
    cases l with
    | lru | fifo => simp [set, rule?, size]
    | tiered hotSize warmCapacity timeToLive =>
      have kept (n : Nat) : ((tiered hotSize warmCapacity timeToLive).adjust p.1 n).eviction? =
          some (.tiered, hotSize) := by
        simp only [adjust, size, if_false]
        split <;> rfl
      unfold set
      split
      · rfl
      · split
        · exact kept _
        · rfl
    | scheduled | blocking =>
      unfold set
      split
      · rfl
      · split <;> rfl
    | serialized | counted | synchronized => rfl

theorem eviction?_adjust_size {e : Eviction} {n m : Nat} (evicts : l.eviction? = some (e, n))
    (positive : 1 ≤ m) : (l.adjust "size" m).eviction? = some (e, m) := by
  cases l with
  | lru | fifo =>
    cases evicts
    simp [adjust, eviction?, positive]
  | tiered =>
    cases evicts
    rfl
  | scheduled | serialized | counted | synchronized | blocking => cases evicts

theorem eviction?_fitted (takes : ∀ p ∈ properties, l.Takes p)
    (distinct : (properties.map (·.1)).Nodup) :
    (l.fitted properties).eviction? =
      l.eviction?.map fun e => (e.1, (asked properties).getD e.2) := by
  induction properties generalizing l with
  | nil => simp [fitted]
  | cons p rest ih =>
    obtain ⟨absent, distinct⟩ := List.nodup_cons.mp distinct
    have first := eviction?_set (takes p List.mem_cons_self)
    have others := ih (l := l.set p)
      (fun q mem => takes_set.mpr (takes q (List.mem_cons_of_mem _ mem))) distinct
    change ((l.set p).fitted rest).eviction? = _
    rw [others, first, Option.map_map]
    congr 1
    funext e
    by_cases size : p.1 = "size"
    · have alone : asked rest = none := by
        rw [asked, List.lookup_eq_none_iff.mpr fun q mem => ?_, Option.bind_none]
        refine bne_iff_ne.mpr fun same => absent (List.mem_map.mpr ⟨q, mem, ?_⟩)
        exact same.symm.trans size.symm
      simp [asked_cons size, alone]
    · simp [asked_cons_of_ne size]

end Wrapping

namespace Blueprint

variable {ω : Type} {b : Blueprint} {now : Nat}

def shared (b : Blueprint) (e : Eviction) : Nat :=
  (Wrapping.asked b.properties.entries).getD e.defaultSize

/-- What the description says of the eviction layers, the outermost first: the size is for the
outermost, the property of that name for all of them. -/
def limits (b : Blueprint) : List (Eviction × Nat) :=
  match (b.evictionNames.filterMap Eviction.ofName?).reverse with
  | [] => []
  | outer :: inner =>
    (outer, (b.size.map (·.toNat)).getD (b.shared outer)) :: inner.map fun e => (e, b.shared e)

theorem distinct_entries (p : Properties) : (p.entries.map (·.1)).Nodup := by
  rw [List.Nodup, List.pairwise_map]
  exact p.sorted.imp fun before => (String.ne_of_lt before)

theorem eviction?_fitted_entries (valid : b.Valid) (l : Wrapping) :
    (l.fitted b.properties.entries).eviction? =
      l.eviction?.map fun e => (e.1, (Wrapping.asked b.properties.entries).getD e.2) :=
  Wrapping.eviction?_fitted (valid.takes l) (distinct_entries b.properties)

theorem eviction?_covered (valid : b.Valid) (now : Nat) (layers : List Wrapping) :
    (b.covered now layers).filterMap Wrapping.eviction? = layers.filterMap Wrapping.eviction? := by
  have timed : (b.timed now layers).filterMap Wrapping.eviction? =
      layers.filterMap Wrapping.eviction? := by
    unfold timed
    split
    · rfl
    · exact List.filterMap_cons_none (eviction?_fitted_entries valid _)
  have copied : (if b.copyOnRead then .serialized :: b.timed now layers
      else b.timed now layers).filterMap Wrapping.eviction? =
        layers.filterMap Wrapping.eviction? := by
    split
    · exact timed
    · exact timed
  have blocked := eviction?_fitted_entries valid (.blocking b.blockingTimeout)
  cases blocks : b.blocking with
  | true =>
    rw [covered, blocks, if_pos rfl, List.filterMap_cons_none blocked]
    exact copied
  | false =>
    rw [covered, blocks, if_neg Bool.false_ne_true]
    exact copied

theorem evictions_wrappings (valid : b.Valid) (now : Nat) :
    (b.wrappings now).filterMap Wrapping.eviction? = b.limits := by
  have evicting (e : Eviction) :
      (e.layer.fitted b.properties.entries).eviction? = some (e, b.shared e) := by
    rw [eviction?_fitted_entries valid]
    cases e <;> rfl
  rw [wrappings, eviction?_covered valid, Blueprint.evicting, ← List.map_reverse, limits]
  cases (b.evictionNames.filterMap Eviction.ofName?).reverse with
  | nil => rfl
  | cons outer inner =>
    have below : (inner.map fun e => e.layer.fitted b.properties.entries).filterMap
        Wrapping.eviction? = inner.map fun e => (e, b.shared e) := by
      rw [List.filterMap_map]
      simp only [Function.comp_def, evicting]
      exact congrFun List.filterMap_eq_map' inner
    cases sized : b.size with
    | none => simp [resized, evicting, below]
    | some size =>
      have positive : 1 ≤ size.toNat := (one_le_toNat_iff size).mpr (sized ▸ valid.size)
      simp [resized, Wrapping.eviction?_adjust_size (evicting outer) positive, below]

theorem build_accepts_iff (b : Blueprint) (site : Site ω) (w : ω)
    (mapped : (b.implementation.getD CacheFactories.defaultStore).toUpper =
      CacheFactories.defaultStore) :
    ((∃ c, (b.build site CacheFactories.builtIn w).result = .ok c) ↔ b.Valid) ∧
    (¬b.Valid → ∃ reason, (b.build site CacheFactories.builtIn w).result = .error (.config reason)) ∧
    ∀ c, (b.build site CacheFactories.builtIn w).result = .ok c →
      c.id = b.id ∧ c.chain.evictions c.state = b.limits := by
  have accepts := (accepts_build site mapped).mono (b.valid_iff_fits site.now).symm fun _ h => h
  refine ⟨accepts.ok_iff w, fun invalid => ?_, fun c ok => ?_⟩
  · obtain ⟨reason, run⟩ := accepts.refused invalid w
    exact ⟨reason, by rw [run]⟩
  · have valid := (accepts.ok_iff w).mp ⟨c, ok⟩
    have made : c = Wrapping.cache b.id (b.wrappings site.now) := accepts.answer ok
    subst made
    refine ⟨Wrapping.id_cache b.id _, ?_⟩
    rw [Wrapping.evictions_cache, evictions_wrappings valid]

/-- The property is for both layers, the size only for the tiered one around the other. -/
theorem build_accepts_tiered_over_fifo :
    let b : Blueprint := { Blueprint.ofId "users" with
      implementation := some "map"
      decorators := ["fifo", "Soft"]
      size := some 8
      properties := Properties.empty.insert "size" " 5" }
    ∃ c, (b.build (Site.lone 0 0) CacheFactories.builtIn ()).result = .ok c ∧ c.id = "users" ∧
      c.chain.evictions c.state = [(.tiered, 8), (.fifo, 5)] := by
  intro b
  have fifo : "fifo".toUpper = "FIFO" := by decide +kernel
  have soft : "Soft".toUpper = "SOFT" := by decide +kernel
  have map : "map".toUpper = CacheFactories.defaultStore := by decide +kernel
  have valid : b.Valid := by
    refine ⟨?_, by decide, ?_⟩
    · simp [b, fifo, soft]
    · intro p mem
      cases List.mem_singleton.mp mem
      exact .size (n := 5) (by decide) (by decide)
  obtain ⟨accepted, -, built⟩ := b.build_accepts_iff (Site.lone 0 0) () map
  obtain ⟨c, ok⟩ := accepted.mpr valid
  have asked : Wrapping.asked b.properties.entries = some 5 := by decide
  have size : b.size = some 8 := rfl
  have named : b.evictionNames.filterMap Eviction.ofName? = [.fifo, .tiered] := by
    simp [b, evictionNames, Eviction.ofName?, fifo, soft]
  refine ⟨c, ok, (built c ok).1, (built c ok).2.trans ?_⟩
  simp [limits, shared, asked, size, named]

end Blueprint
end StatementCache
