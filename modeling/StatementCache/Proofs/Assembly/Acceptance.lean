import StatementCache.Proofs.Assembly.Settings

/-! Which descriptions the assembly accepts, and what it makes of them. The cache that is built is
the one whose layers are listed by the description, so its limits can be read off the list. -/
namespace StatementCache

open StatementCache.Action

namespace Wrapping

variable {ω : Type} {name : String} {n : Nat} {l : Wrapping} {p : String × String}
  {properties : List (String × String)}

def Takes (l : Wrapping) (p : String × String) : Prop :=
  ∀ rule, l.rule? p.1 = some rule → ∃ n, rule p.2 = .ok n

def set (l : Wrapping) (p : String × String) : Wrapping :=
  match l.rule? p.1 with
  | none => l
  | some rule =>
    match rule p.2 with
    | .ok n => l.adjust p.1 n
    | .error _ => l

def fitted (l : Wrapping) (properties : List (String × String)) : Wrapping := properties.foldl set l

@[simp] theorem rule?_adjust (other : String) : (l.adjust name n).rule? other = l.rule? other := by
  cases l with
  | tiered hotSize warmCapacity timeToLive =>
    simp only [adjust]
    split
    · rfl
    · split <;> rfl
  | _ => rfl

@[simp] theorem rule?_set (other : String) : (l.set p).rule? other = l.rule? other := by
  unfold set
  split
  · rfl
  · split
    · exact rule?_adjust other
    · rfl

@[simp] theorem rule?_fitted (other : String) : (l.fitted properties).rule? other = l.rule? other := by
  induction properties generalizing l with
  | nil => rfl
  | cons p rest ih => exact ih.trans (rule?_set other)

theorem takes_set {q : String × String} : (l.set p).Takes q ↔ l.Takes q := by
  simp only [Takes, rule?_set]

theorem accepts_assign (site : Site ω) (l : Wrapping) (c : Cache) (p : String × String) :
    Accepts (l.Takes p) ((l.around c).assign site p.1 p.2) fun r =>
      r = ((l.rule? p.1).isSome, (l.set p).around c) := by
  cases own : l.rule? p.1 with
  | none =>
    have run (s : ω) : (l.around c).assign site p.1 p.2 s = ⟨.ok (false, l.around c), s⟩ := by
      rw [assign_around, own]
    have same : l.set p = l := by rw [set, own]
    refine ⟨fun _ s => ⟨_, run s, ?_⟩, fun fails => absurd (fun rule foreign => ?_) fails⟩
    · rw [same]
      rfl
    · cases own.symm.trans foreign
  | some rule =>
    have run (s : ω) : (l.around c).assign site p.1 p.2 s =
        ⟨(rule p.2).map fun n => (true, (l.adjust p.1 n).around c), s⟩ := by
      rw [assign_around, own]
    have takes : l.Takes p ↔ ∃ n, rule p.2 = .ok n := by
      simp only [Takes, own, Option.some.injEq, forall_eq']
    cases read : rule p.2 with
    | ok n =>
      have fits : l.Takes p := takes.mpr ⟨n, read⟩
      have adjusted : l.set p = l.adjust p.1 n := by simp only [set, own, read]
      refine ⟨fun _ s => ⟨_, (run s).trans (by rw [read]; rfl), ?_⟩, fun fails => absurd fits fails⟩
      rw [adjusted]
      rfl
    | error e =>
      obtain ⟨reason, rfl⟩ := config_of_rule own read
      refine ⟨fun fits => ?_, fun _ s => ⟨reason, (run s).trans (by rw [read]; rfl)⟩⟩
      obtain ⟨n, ok⟩ := takes.mp fits
      cases read.symm.trans ok

end Wrapping

inductive Eviction where
  | lru
  | fifo
  | tiered
  deriving DecidableEq

namespace Eviction

def ofName? (name : String) : Option Eviction :=
  if name.toUpper = "LRU" then some .lru
  else if name.toUpper = "FIFO" then some .fifo
  else if name.toUpper = "SOFT" ∨ name.toUpper = "TIERED" then some .tiered
  else none

def defaultSize : Eviction → Nat
  | .lru | .fifo => Setting.defaultCapacity
  | .tiered => Tiers.defaultHotSize

def layer : Eviction → Wrapping
  | .lru => .lru Setting.defaultCapacity
  | .fifo => .fifo Setting.defaultCapacity
  | .tiered => .tiered Tiers.defaultHotSize Tiers.defaultWarmCapacity none

theorem decorator_builtIn_eq (name : String) :
    CacheFactories.builtIn.decorator name = match ofName? name with
      | some e => .ok e.layer.around
      | none => .error (.config ("unknown cache decorator '" ++ name ++ "'")) := by
  have lru : "LRU".toUpper = "LRU" := by decide +kernel
  have fifo : "FIFO".toUpper = "FIFO" := by decide +kernel
  have soft : "SOFT".toUpper = "SOFT" := by decide +kernel
  have tiered : "TIERED".toUpper = "TIERED" := by decide +kernel
  simp only [CacheFactories.decorator, CacheFactories.builtIn, CacheFactories.registerStore,
    CacheFactories.registerDecorator, CacheFactories.defaultEviction, Table.get?_insert,
    Table.get?_empty, ofName?, lru, fifo, soft, tiered, eq_comm (b := name.toUpper)]
  by_cases isLru : name.toUpper = "LRU"
  · simp [isLru]
    rfl
  by_cases isFifo : name.toUpper = "FIFO"
  · simp [isFifo]
    rfl
  by_cases isSoft : name.toUpper = "SOFT"
  · simp [isSoft]
    rfl
  by_cases isTiered : name.toUpper = "TIERED"
  · simp [isTiered]
    rfl
  simp [isLru, isFifo, isSoft, isTiered]

end Eviction

namespace Blueprint

variable {ω : Type} {site : Site ω} {b : Blueprint} {d : Draft} {layers : List Wrapping}
  {l : Wrapping} {name : String}

theorem accepts_offer (site : Site ω) (properties : List (String × String)) (l : Wrapping)
    (c : Cache) (taken : List String) :
    Accepts (∀ p ∈ properties, l.Takes p) (offer site properties ⟨l.around c, taken⟩) fun d =>
      d.cache = (l.fitted properties).around c ∧ ∀ name, name ∈ d.taken ↔
        name ∈ taken ∨ name ∈ properties.map (·.1) ∧ (l.rule? name).isSome = true := by
  induction properties generalizing l taken with
  | nil => exact Accepts.pure (by simp) ⟨rfl, by simp⟩
  | cons p rest ih =>
    refine ((l.accepts_assign site c p).bind (B := ∀ q ∈ rest, l.Takes q) ?_).mono
      List.forall_mem_cons.symm fun _ h => h
    rintro _ rfl
    refine (ih (l.set p) (if (l.rule? p.1).isSome then p.1 :: taken else taken)).mono ?_ ?_
    · simp only [Wrapping.takes_set]
    · rintro d ⟨cache, known⟩
      refine ⟨cache, fun name => ?_⟩
      rw [known name, Wrapping.rule?_set, List.map_cons, List.mem_cons]
      by_cases same : name = p.1
      · subst same
        cases (l.rule? p.1).isSome <;> simp
      · cases (l.rule? p.1).isSome <;> simp [same]

theorem accepts_offer_base (site : Site ω) (properties : List (String × String)) (id : String)
    (taken : List String) :
    Accepts True (offer site properties ⟨Cache.base id, taken⟩) (· = ⟨Cache.base id, taken⟩) := by
  refine ⟨fun _ s => ⟨_, ?_, rfl⟩, fun no => absurd trivial no⟩
  induction properties with
  | nil => rfl
  | cons p rest ih => exact ih

structure Draft.Has (b : Blueprint) (d : Draft) (layers : List Wrapping) : Prop where
  cache : d.cache = Wrapping.cache b.id layers
  taken : ∀ name ∈ b.properties.names,
    name ∈ d.taken ↔ ∃ l ∈ layers, (l.rule? name).isSome = true

theorem Draft.Has.cons (h : d.Has b layers) (plain : ∀ name, l.rule? name = none) :
    Draft.Has b { d with cache := l.around d.cache } (l :: layers) where
  cache := by rw [h.cache]; rfl
  taken name mem := by simp [h.taken name mem, plain name]

theorem accepts_add (site : Site ω) (h : d.Has b layers) (l : Wrapping) :
    Accepts (∀ p ∈ b.properties.entries, l.Takes p) (b.add site l.around d) fun d =>
      d.Has b (l.fitted b.properties.entries :: layers) := by
  refine (accepts_offer site b.properties.entries l d.cache d.taken).mono Iff.rfl ?_
  rintro d' ⟨cache, known⟩
  refine ⟨by rw [cache, h.cache]; rfl, fun name mem => ?_⟩
  have named : name ∈ b.properties.entries.map (·.1) := mem
  rw [known name, h.taken name mem]
  simp [named, or_comm]

def evicting (b : Blueprint) (names : List String) : List Wrapping :=
  (names.filterMap Eviction.ofName?).map fun e => e.layer.fitted b.properties.entries

theorem accepts_addEach (site : Site ω) (names : List String) (h : d.Has b layers) :
    Accepts (∀ name ∈ names, ∃ e, Eviction.ofName? name = some e ∧
        ∀ p ∈ b.properties.entries, e.layer.Takes p)
      (b.addEach site CacheFactories.builtIn names d) fun d =>
        d.Has b ((b.evicting names).reverse ++ layers) := by
  induction names generalizing d layers with
  | nil => exact Accepts.pure (by simp) h
  | cons name rest ih =>
    cases known : Eviction.ofName? name with
    | none =>
      refine ⟨fun all => ?_, fun _ s => ?_⟩
      · obtain ⟨e, found, -⟩ := all name List.mem_cons_self
        cases known.symm.trans found
      · refine ⟨"unknown cache decorator '" ++ name ++ "'", ?_⟩
        simp only [addEach, bind_apply, ofExcept_apply, Eviction.decorator_builtIn_eq, known]
    | some e =>
      have step : b.addEach site CacheFactories.builtIn (name :: rest) d =
          b.add site e.layer.around d >>= b.addEach site CacheFactories.builtIn rest := by
        funext s
        simp only [addEach, bind_apply, ofExcept_apply, Eviction.decorator_builtIn_eq, known]
      rw [step]
      refine ((accepts_add site h e.layer).bind fun d' made => ih made).mono ?_ fun d' made => ?_
      · simp [known]
      · simpa [evicting, known] using made

def resized (size : Option UInt64) : List Wrapping → List Wrapping
  | [] => []
  | l :: rest => (size.elim l fun n => l.adjust "size" n.toNat) :: rest

theorem one_le_toNat_iff (n : UInt64) : 1 ≤ n.toNat ↔ some n ≠ some 0 := by
  rw [Nat.one_le_iff_ne_zero, ne_eq, ne_eq, Option.some.injEq, ← UInt64.toNat_inj]
  rfl

theorem accepts_applySize (site : Site ω) (h : d.Has b (l :: layers))
    (sized : l.rule? "size" = some (Setting.capacity "size")) :
    Accepts (b.size ≠ some 0) (b.applySize site d) (·.Has b (resized b.size (l :: layers))) := by
  unfold applySize
  cases b.size with
  | none => exact Accepts.pure (by simp) h
  | some size =>
    let p := ("size", toString size.toNat)
    have read : Setting.word "size" p.2 = .ok size.toNat :=
      Setting.word_toString "size" size.toNat_lt_size
    have positive := one_le_toNat_iff size
    have takes : l.Takes p ↔ some size ≠ some 0 := by
      simp only [Wrapping.Takes, p, sized, Option.some.injEq, forall_eq',
        Setting.capacity_eq_ok_iff, read, Except.ok.injEq, exists_eq_left', ← positive]
    rw [h.cache]
    refine ((l.accepts_assign site (Wrapping.cache b.id layers) p).given.bind fun r made =>
      Accepts.pure trivial ?_).mono (by rw [and_true, takes]) fun _ h => h
    obtain ⟨fits, rfl⟩ := made
    have held : Setting.capacity "size" p.2 = .ok size.toNat :=
      Setting.capacity_eq_ok_iff.mpr ⟨read, positive.mpr (takes.mp fits)⟩
    have set : l.set p = l.adjust "size" size.toNat := by
      simp only [Wrapping.set, p, sized]
      rw [held]
    refine ⟨by rw [set]; rfl, fun name mem => ?_⟩
    simpa [resized] using h.taken name mem

def timed (b : Blueprint) (now : Nat) (layers : List Wrapping) : List Wrapping :=
  match b.clearInterval with
  | none => layers
  | some interval => (Wrapping.scheduled interval now).fitted b.properties.entries :: layers

def covered (b : Blueprint) (now : Nat) (layers : List Wrapping) : List Wrapping :=
  let copied := if b.copyOnRead then .serialized :: b.timed now layers else b.timed now layers
  if b.blocking then
    (Wrapping.blocking b.blockingTimeout).fitted b.properties.entries ::
      .synchronized :: .counted :: copied
  else .synchronized :: .counted :: copied

def addTimed (b : Blueprint) (site : Site ω) (d : Draft) : Action ω Draft :=
  match b.clearInterval with
  | none => pure d
  | some interval => b.add site (Cache.scheduled interval site.now) d

def addCovers (b : Blueprint) (site : Site ω) (d : Draft) : Action ω Draft :=
  let cache := if b.copyOnRead then d.cache.serialized else d.cache
  let d : Draft := { d with cache := cache.counted.synchronized }
  if b.blocking then b.add site (Cache.blocking b.blockingTimeout) d else pure d

theorem addStandard_eq (site : Site ω) (d : Draft) :
    b.addStandard site d = b.addTimed site d >>= b.addCovers site := by
  unfold addStandard addTimed
  cases b.clearInterval <;> rfl

theorem accepts_addTimed (site : Site ω) (h : d.Has b layers) :
    Accepts (∀ interval, b.clearInterval = some interval →
        ∀ p ∈ b.properties.entries, (Wrapping.scheduled interval site.now).Takes p)
      (b.addTimed site d) (·.Has b (b.timed site.now layers)) := by
  unfold addTimed timed
  cases b.clearInterval with
  | none => exact Accepts.pure (by simp) h
  | some interval =>
    refine (accepts_add site h (.scheduled interval site.now)).mono ?_ fun _ h => h
    simp only [Option.some.injEq, forall_eq']

theorem accepts_addCovers (site : Site ω) (now : Nat) (h : d.Has b (b.timed now layers)) :
    Accepts (b.blocking = true →
        ∀ p ∈ b.properties.entries, (Wrapping.blocking b.blockingTimeout).Takes p)
      (b.addCovers site d) (·.Has b (b.covered now layers)) := by
  have copied : Draft.Has b
      { d with cache := if b.copyOnRead then d.cache.serialized else d.cache }
      (if b.copyOnRead then .serialized :: b.timed now layers else b.timed now layers) := by
    split
    · exact h.cons (l := .serialized) fun _ => rfl
    · exact h
  have counted := copied.cons (l := .counted) fun _ => rfl
  have synchronized := counted.cons (l := .synchronized) fun _ => rfl
  unfold addCovers covered
  cases b.blocking with
  | false => exact Accepts.pure (by simp) synchronized
  | true =>
    refine (accepts_add site synchronized (.blocking b.blockingTimeout)).mono ?_ fun _ h => h
    simp only [forall_const]

theorem accepts_addStandard (site : Site ω) (h : d.Has b layers) :
    Accepts ((∀ interval, b.clearInterval = some interval →
          ∀ p ∈ b.properties.entries, (Wrapping.scheduled interval site.now).Takes p) ∧
        (b.blocking = true →
          ∀ p ∈ b.properties.entries, (Wrapping.blocking b.blockingTimeout).Takes p))
      (b.addStandard site d) (·.Has b (b.covered site.now layers)) := by
  rw [addStandard_eq]
  exact (accepts_addTimed site h).bind fun d timed => accepts_addCovers site site.now timed

def close (b : Blueprint) (d : Draft) : Action ω Cache :=
  let left := b.properties.names.filter fun name => !d.taken.contains name
  if left.isEmpty then pure d.cache
  else
    Action.fail (.config ("cache '" ++ b.id ++ "' has no setting for properties: " ++
      ", ".intercalate left))

theorem accepts_close (h : d.Has b layers) :
    Accepts (∀ name ∈ b.properties.names, ∃ l ∈ layers, (l.rule? name).isSome = true)
      (b.close d : Action ω Cache) (· = Wrapping.cache b.id layers) := by
  have known : (b.properties.names.filter fun name => !d.taken.contains name).isEmpty = true ↔
      ∀ name ∈ b.properties.names, ∃ l ∈ layers, (l.rule? name).isSome = true := by
    simp only [List.isEmpty_iff, List.filter_eq_nil_iff, Bool.not_eq_true, Bool.not_eq_false',
      List.contains_iff_mem]
    exact forall₂_congr h.taken
  dsimp only [close]
  split
  · rename_i none
    exact Accepts.pure (known.mp none) h.cache
  · rename_i some
    exact ⟨fun all => absurd (known.mpr all) some, fun _ s => ⟨_, rfl⟩⟩

def evictionNames (b : Blueprint) : List String :=
  if b.decorators.isEmpty then [CacheFactories.defaultEviction] else b.decorators

theorem build_eq (site : Site ω)
    (mapped : (b.implementation.getD CacheFactories.defaultStore).toUpper =
      CacheFactories.defaultStore) :
    b.build site CacheFactories.builtIn =
      offer site b.properties.entries ⟨Cache.base b.id, []⟩ >>= fun d =>
        b.addEach site CacheFactories.builtIn b.evictionNames d >>= fun d =>
          b.applySize site d >>= fun d => b.addStandard site d >>= b.close := by
  have found : CacheFactories.builtIn.store (b.implementation.getD CacheFactories.defaultStore) =
      .ok Cache.base := by
    have map : "MAP".toUpper = "MAP" := by decide +kernel
    simp only [CacheFactories.defaultStore] at mapped
    simp only [CacheFactories.store, CacheFactories.builtIn, CacheFactories.registerStore,
      CacheFactories.registerDecorator, CacheFactories.defaultStore, Table.get?_insert, map]
    rw [if_pos mapped.symm]
  have named : ¬(Cache.base b.id).id ≠ b.id := fun other => other rfl
  unfold build
  dsimp only
  rw [found]
  change (if (Cache.base b.id).id ≠ b.id then _ else _) = _
  rw [if_neg named]
  simp only [mapped, ne_eq, not_true_eq_false, if_false]
  rfl

def wrappings (b : Blueprint) (now : Nat) : List Wrapping :=
  b.covered now (resized b.size (b.evicting b.evictionNames).reverse)

/-- Every layer can be made and takes the properties that it has rules for, and every property is
for some layer. -/
structure Fits (b : Blueprint) (now : Nat) : Prop where
  eviction : ∀ name ∈ b.evictionNames, ∃ e, Eviction.ofName? name = some e ∧
    ∀ p ∈ b.properties.entries, e.layer.Takes p
  size : b.size ≠ some 0
  scheduled : ∀ interval, b.clearInterval = some interval →
    ∀ p ∈ b.properties.entries, (Wrapping.scheduled interval now).Takes p
  blocking : b.blocking = true →
    ∀ p ∈ b.properties.entries, (Wrapping.blocking b.blockingTimeout).Takes p
  known : ∀ name ∈ b.properties.names, ∃ l ∈ b.wrappings now, (l.rule? name).isSome = true

theorem fits_iff (b : Blueprint) (now : Nat) : b.Fits now ↔ True ∧
    (∀ name ∈ b.evictionNames, ∃ e, Eviction.ofName? name = some e ∧
      ∀ p ∈ b.properties.entries, e.layer.Takes p) ∧ b.size ≠ some 0 ∧
    ((∀ interval, b.clearInterval = some interval →
        ∀ p ∈ b.properties.entries, (Wrapping.scheduled interval now).Takes p) ∧
      (b.blocking = true →
        ∀ p ∈ b.properties.entries, (Wrapping.blocking b.blockingTimeout).Takes p)) ∧
    ∀ name ∈ b.properties.names, ∃ l ∈ b.wrappings now, (l.rule? name).isSome = true :=
  ⟨fun h => ⟨trivial, h.eviction, h.size, ⟨h.scheduled, h.blocking⟩, h.known⟩,
    fun ⟨_, eviction, size, ⟨scheduled, blocking⟩, known⟩ =>
      ⟨eviction, size, scheduled, blocking, known⟩⟩

theorem sized_of_mem_evicting {names : List String} (mem : l ∈ b.evicting names) :
    l.rule? "size" = some (Setting.capacity "size") := by
  obtain ⟨e, -, rfl⟩ := List.mem_map.mp mem
  rw [Wrapping.rule?_fitted]
  cases e <;> rfl

theorem evictionNames_ne_nil (b : Blueprint) : b.evictionNames ≠ [] := by
  unfold evictionNames
  split
  · exact List.cons_ne_nil _ _
  · rename_i some
    exact fun none => some (List.isEmpty_iff.mpr none)

theorem evicting_ne_nil (known : ∀ name ∈ b.evictionNames, ∃ e, Eviction.ofName? name = some e) :
    b.evicting b.evictionNames ≠ [] := by
  obtain ⟨name, mem⟩ := List.exists_mem_of_ne_nil _ b.evictionNames_ne_nil
  obtain ⟨e, found⟩ := known name mem
  exact List.ne_nil_of_mem (List.mem_map_of_mem (List.mem_filterMap.mpr ⟨name, mem, found⟩))

theorem accepts_build (site : Site ω)
    (mapped : (b.implementation.getD CacheFactories.defaultStore).toUpper =
      CacheFactories.defaultStore) :
    Accepts (b.Fits site.now) (b.build site CacheFactories.builtIn)
      (· = Wrapping.cache b.id (b.wrappings site.now)) := by
  have bare : Draft.Has b ⟨Cache.base b.id, []⟩ [] := ⟨rfl, by simp⟩
  rw [build_eq site mapped]
  refine ((accepts_offer_base site b.properties.entries b.id []).bind fun d made =>
    (accepts_addEach site b.evictionNames (made ▸ bare)).given.bind fun d evicted => ?_).mono
      (fits_iff b site.now).symm fun _ h => h
  obtain ⟨known, has⟩ := evicted
  obtain ⟨l, rest, listed⟩ := List.exists_cons_of_ne_nil (List.reverse_ne_nil_iff.mpr
    (evicting_ne_nil fun name mem => (known name mem).imp fun e found => found.1))
  have mem : l ∈ b.evicting b.evictionNames :=
    List.mem_reverse.mp (listed ▸ List.mem_cons_self)
  rw [List.append_nil, listed] at has
  refine (accepts_applySize site has (sized_of_mem_evicting mem)).bind fun d sized => ?_
  refine (accepts_addStandard site sized).bind fun d all => ?_
  rw [← listed] at all
  exact accepts_close all

end Blueprint
end StatementCache
