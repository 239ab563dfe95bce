import StatementCache.Proofs.Contents.Retention
import StatementCache.Proofs.Eviction.Line

/-! Retention in tiers, exactly. Over a map what a tier retains is held, and what is held is
retained or waits to be removed. The tiers are reshaped in many ways, but a key becomes retained
only as it is put or read, and one that ceases to be waits or is gone. -/
namespace StatementCache

open StatementCache.Action

namespace Tiers

variable {t t' : Tiers} {held : Entries} {j k : CacheKey} {e : Entry} {now : Nat}

def Retains (t : Tiers) (k : CacheKey) : Prop := k ∈ t.hot ∨ k ∈ t.warm.map (·.1)

structure Settles (t t' : Tiers) : Prop where
  retains : ∀ j, t'.Retains j → t.Retains j
  hot : t'.hot.Sublist t.hot
  timeToLive : t'.timeToLive = t.timeToLive

theorem Settles.refl (t : Tiers) : t.Settles t := ⟨fun _ h => h, .refl _, rfl⟩

theorem Settles.trans {t'' : Tiers} (first : t.Settles t') (second : t'.Settles t'') :
    t.Settles t'' where
  retains j h := first.retains j (second.retains j h)
  hot := second.hot.trans first.hot
  timeToLive := second.timeToLive.trans first.timeToLive

theorem timeToLive_enter : (t.enter now k).timeToLive = t.timeToLive := by
  unfold enter
  split
  · rfl
  · split <;> rfl

theorem retains_enter (h : (t.enter now k).Retains j) : j = k ∨ t.Retains j := by
  obtain hot | warm := h
  · exact .inr (.inl (hot_enter ▸ hot))
  · suffices j = k ∨ j ∈ t.warm.map (·.1) from this.imp_right .inr
    unfold enter at warm
    split at warm
    · exact mem_renewed.mp warm
    · split at warm
      · exact List.mem_cons.mp warm
      · refine (List.mem_cons.mp warm).imp_right fun there => ?_
        exact ((List.dropLast_sublist t.warm).map _).subset there

theorem Settles.enter (settles : t.Settles t') (known : t.Retains k) :
    t.Settles (t'.enter now k) where
  retains j h := (retains_enter h).elim (fun same => same ▸ known) (settles.retains j)
  hot := by rw [hot_enter]; exact settles.hot
  timeToLive := timeToLive_enter.trans settles.timeToLive

theorem settles_demote (again : Tiers → CacheKey → Bool) (count : Nat) (t : Tiers) :
    t.Settles (t.demote now again count) := by
  induction count generalizing t with
  | zero => exact .refl t
  | succ count ih =>
    unfold demote
    cases last : t.hot.getLast? with
    | none => exact .refl t
    | some k =>
      have shorter := List.dropLast_sublist t.hot
      have left : t.Settles { t with hot := t.hot.dropLast } :=
        ⟨fun _ h => h.imp_left fun hot => shorter.subset hot, shorter, rfl⟩
      refine Settles.trans ?_ (ih _)
      split
      -- what enters the warm tier has just left the hot one
      · exact left.enter (.inl (List.mem_of_getLast? last))
      · exact left

theorem settles_promote : ({ t with hot := k :: t.hot } : Tiers).Settles (t.promote now k) :=
  settles_demote _ _ _

theorem mem_warm_of_find? {entry : CacheKey × Nat}
    (found : t.warm.find? (fun e => e.1 = k) = some entry) : k ∈ t.warm.map (·.1) :=
  List.mem_map.mpr ⟨entry, List.mem_of_find?_eq_some found, by simpa using List.find?_some found⟩

theorem mem_warm_of_use (young : (t.use now k).1 = true) : k ∈ t.warm.map (·.1) := by
  unfold use at young
  split at young
  · cases young
  · exact mem_warm_of_find? ‹_›

theorem hot_use : (t.use now k).2.hot = t.hot := by
  unfold use
  split <;> rfl

theorem settles_use : t.Settles (t.use now k).2 := by
  unfold use
  split
  · exact .refl t
  · refine ⟨fun j h => h.imp_right fun there => ?_, .refl _, rfl⟩
    obtain rfl | there := mem_renewed.mp there
    · exact mem_warm_of_find? ‹_›
    · exact there

theorem settles_resizeHot (size : Nat) : t.Settles (t.resizeHot now size) := by
  have demoted : ({ t with hotSize := size } : Tiers).Settles (t.resizeHot now size) :=
    settles_demote _ _ _
  exact ⟨demoted.retains, demoted.hot, demoted.timeToLive⟩

theorem settles_resizeWarm (capacity : Nat) : t.Settles (t.resizeWarm capacity) :=
  ⟨fun _ h => h.imp_right fun there => ((List.take_sublist ..).map _).subset there, .refl _, rfl⟩

theorem use_of_ageless (ageless : t.timeToLive = none) (warm : k ∈ t.warm.map (·.1)) :
    (t.use now k).1 = true := by
  obtain ⟨e, found⟩ := Option.isSome_iff_exists.mp
    (List.find?_isSome.mpr (List.any_eq_true.mp (isWarm_iff.mpr warm)))
  simp [use, found, ageless]

structure Limits where
  hotSize : Nat
  warmCapacity : Nat
  timeToLive : Option Nat

def limits (t : Tiers) : Limits := ⟨t.hotSize, t.warmCapacity, t.timeToLive⟩

theorem Reshaped.limits (reshaped : t.Reshaped t') (same : t'.timeToLive = t.timeToLive) :
    t'.limits = t.limits := by
  rw [Tiers.limits, Tiers.limits, reshaped.hotSize, reshaped.warmCapacity, same]

theorem limits_resizeHot (size : Nat) :
    (t.resizeHot now size).limits = { t.limits with hotSize := size } := by
  have reshaped : Reshaped { t with hotSize := size } (t.resizeHot now size) :=
    reshaped_demote (fun _ _ h => by cases h) _ _
  exact reshaped.limits (settles_resizeHot size).timeToLive

/-- The tiers cover a map in their bounds, the ring has each key once, and what is retained is
held. -/
structure Housed (t : Tiers) (held : Entries) : Prop extends t.Covers held.get? where
  distinct : t.hot.Nodup
  stored : ∀ k, t.Retains k → k ∈ held.keys

def reclaimable (t : Tiers) : List CacheKey := t.reclaimed.filter fun k => !t.isRetained k

theorem mem_reclaimable : k ∈ t.reclaimable ↔ k ∈ t.reclaimed ∧ ¬t.Retains k := by
  rw [reclaimable, List.mem_filter, Bool.not_eq_true', ← Bool.not_eq_true, isRetained_iff]
  rfl

theorem Housed.mem_drained (h : t.Housed held) :
    k ∈ (held.eraseAll t.reclaimable).keys ↔ t.Retains k := by
  rw [Table.mem_keys_eraseAll, mem_reclaimable]
  constructor
  · rintro ⟨there, stays⟩
    obtain ⟨e, found⟩ := Table.mem_keys_iff_exists.mp there
    obtain retained | waits := h.keys k e found
    · exact isRetained_iff.mp retained
    · exact not_not.mp fun gone => stays ⟨waits, gone⟩
  · exact fun retained => ⟨h.stored k retained, fun gone => gone.2 retained⟩

theorem Housed.drained (h : t.Housed held) :
    ({ t with reclaimed := [] } : Tiers).Housed (held.eraseAll t.reclaimable) where
  toCovers := h.toCovers.drained fun _ e there =>
    isRetained_iff.mpr (h.mem_drained.mp (Table.mem_keys_iff_exists.mpr ⟨e, there⟩))
  distinct := h.distinct
  stored _ retained := h.mem_drained.mpr retained

theorem Housed.enter (h : t.Housed held) : (t.enter now k).Housed (held.insert k e) where
  toCovers := h.toCovers.enter fun j x there => by
    rw [Table.get?_insert] at there
    split at there
    · exact .inl (Eq.symm ‹_›)
    · exact .inr there
  distinct := by rw [hot_enter]; exact h.distinct
  stored j retained := Table.mem_keys_insert.mpr ((retains_enter retained).imp_right (h.stored j))

theorem Housed.settled (h : t.Housed held) (settles : t.Settles t')
    (covers : t'.Covers held.get?) : t'.Housed held where
  toCovers := covers
  distinct := h.distinct.sublist settles.hot
  stored j retained := h.stored j (settles.retains j retained)

theorem Housed.promote (h : t.Housed held) (there : k ∈ held.keys) (cold : k ∉ t.hot) :
    (t.promote now k).Housed held where
  toCovers := h.toCovers.promote
  distinct := (List.nodup_cons.mpr ⟨cold, h.distinct⟩).sublist settles_promote.hot
  stored j retained := by
    obtain hot | warm := settles_promote.retains j retained
    · obtain rfl | hot := List.mem_cons.mp hot
      · exact there
      · exact h.stored j (.inl hot)
    · exact h.stored j (.inr warm)

theorem Housed.erase (h : t.Housed held) (covers : t'.Covers (held.erase k).get?)
    (hot : t'.hot.Sublist t.hot) (fewer : ∀ j, t'.Retains j → j ≠ k ∧ t.Retains j) :
    t'.Housed (held.erase k) where
  toCovers := covers
  distinct := h.distinct.sublist hot
  stored j retained := by
    obtain ⟨other, before⟩ := fewer j retained
    rw [Table.keys_erase]
    exact (List.mem_erase_of_ne other).mpr (h.stored j before)

theorem mem_withoutWarm : j ∈ (t.withoutWarm k).map (·.1) ↔ j ≠ k ∧ j ∈ t.warm.map (·.1) := by
  simp [withoutWarm, and_comm]

theorem Housed.forget (h : t.Housed held) (k : CacheKey) : (t.forget k).Housed (held.erase k) := by
  have covers : (t.forget k).Covers (held.erase k).get? :=
    h.toCovers.forget (by rw [Table.get?_erase, if_pos rfl]) fun _ _ => Table.get?_of_erase
  refine h.erase covers List.filter_sublist fun j retained => ?_
  obtain hot | warm := retained
  · obtain ⟨hot, other⟩ := List.mem_filter.mp hot
    exact ⟨of_decide_eq_true other, .inl hot⟩
  · exact (mem_withoutWarm.mp warm).imp_right .inr

theorem Housed.dropWarm (h : t.Housed held) (cold : k ∉ t.hot) :
    (t.dropWarm k).Housed (held.erase k) := by
  have covers : (t.dropWarm k).Covers (held.erase k).get? :=
    h.toCovers.dropWarm (by rw [Table.get?_erase, if_pos rfl]) fun _ _ => Table.get?_of_erase
  refine h.erase covers (.refl _) fun j retained => ?_
  obtain hot | warm := retained
  · exact ⟨fun same => cold (same ▸ hot), .inl hot⟩
  · exact (mem_withoutWarm.mp warm).imp_right .inr

end Tiers

namespace Layer

theorem drainEach_base (id : String) (ks : List CacheKey) {t : Tiers} (queue : t.reclaimed = ks)
    (m : Entries) :
    let gone := ks.filter fun k => !t.isRetained k
    drainEach (base id) ks (t, m) =
      ⟨.ok gone.length, ({ t with reclaimed := [] }, m.eraseAll gone)⟩ := by
  induction ks generalizing t m with
  | nil =>
    cases t
    cases queue
    rfl
  | cons k ks ih =>
    have rest := @ih { t with reclaimed := ks } rfl
    have removed : (base id).remove k m = ⟨.ok (m.get? k), m.erase k⟩ := rfl
    cases retained : t.isRetained k with
    | true => simpa [drainEach, bind_apply, onFirst, retained] using rest m
    | false =>
      simp [drainEach, bind_apply, onFirst, onSecond, retained, removed, Except.map, rest]

theorem drain_base (id : String) (t : Tiers) (m : Entries) :
    drain (base id) (t, m) =
      ⟨.ok t.reclaimable.length, ({ t with reclaimed := [] }, m.eraseAll t.reclaimable)⟩ :=
  drainEach_base id t.reclaimed rfl m

theorem get_tiered_base (id : String) (now : Nat) (k : CacheKey) (t : Tiers) (m : Entries) :
    let d : Tiers := { t with reclaimed := [] }
    let m' := m.eraseAll t.reclaimable
    (tiered now (base id)).get k (t, m) =
      match m'.get? k with
      | none => ⟨.ok none, (d, m')⟩
      | some e =>
        if k ∈ d.hot then ⟨.ok (some e), (d, m')⟩
        else if (d.use now k).1 then ⟨.ok (some e), ((d.use now k).2.promote now k, m')⟩
        else ⟨.ok none, ((d.use now k).2.dropWarm k, m'.erase k)⟩ := by
  intro d m'
  have drained : drain (base id) (t, m) = ⟨.ok t.reclaimable.length, (d, m')⟩ := drain_base id t m
  have looked : (base id).get k m' = ⟨.ok (m'.get? k), m'⟩ := rfl
  have removed : (base id).remove k m' = ⟨.ok (m'.get? k), m'.erase k⟩ := rfl
  cases found : m'.get? k with
  | none => simp [tiered, bind_apply, drained, onSecond, looked, found, Except.map]
  | some e =>
    by_cases hot : k ∈ d.hot
    · simp [tiered, bind_apply, drained, onSecond, looked, found, Except.map, hot]
    · cases young : (d.use now k).1 <;>
        simp [tiered, bind_apply, drained, onSecond, looked, found, Except.map, hot, onFirst, young,
          removed]

end Layer

namespace Tiers

inductive Service where
  | demand (now : Nat) (d : Demand)
  | drain

end Tiers

namespace Demand

theorem advance_of_eraseAll {held : Entries} {gone : List CacheKey} {k : CacheKey} {e : Entry}
    (d : Demand) (there : (Visit.advance (held.eraseAll gone) d).get? k = some e) :
    (Visit.advance held d).get? k = some e := by
  cases d with
  | put j x =>
    rw [Visit.advance, Table.get?_insert] at there ⊢
    split at there
    · rwa [if_pos ‹_›]
    · rw [if_neg ‹_›]
      exact Table.get?_of_eraseAll there
  | remove j =>
    rw [Visit.advance, Table.get?_erase] at there ⊢
    split at there
    · cases there
    · rw [if_neg ‹_›]
      exact Table.get?_of_eraseAll there
  | clear => exact there
  | get _ | size | assign _ _ => exact Table.get?_of_eraseAll there

def lifetime? : Demand → Option Nat
  | .assign name value => if name = "warmTtl" then (Setting.word name value).toOption else none
  | .put _ _ | .get _ | .remove _ | .clear | .size => none

end Demand

namespace Tiers.Service

def on {τ : Type} (inner : Store τ) : Service → Action (Tiers × τ) Response
  | .demand now d => d.on (Layer.tiered now inner)
  | .drain => .count <$> Layer.drain inner

def write (w : Nat × CacheKey × Entry) : Service := .demand w.1 (.put w.2.1 w.2.2)

def advance (held : Entries) : Service → Entries
  | .demand _ d => Visit.advance held d
  | .drain => held

def limits (l : Limits) : Service → Limits
  | .demand _ d => ⟨(d.capacity? "size").getD l.hotSize,
      (d.capacity? "warmSize").getD l.warmCapacity, d.lifetime?.or l.timeToLive⟩
  | .drain => l

def LatestPut (past : List Service) (k : CacheKey) (e : Entry) : Prop :=
  Action.Since (fun service => ∃ now, service = .demand now (.put k e))
    (fun service => ∃ now d, service = .demand now d ∧ d.Drops k) past

structure Follows (service : Service) (s s' : Tiers × Entries) : Prop where
  housed : s'.1.Housed s'.2
  limits : s'.1.limits = service.limits s.1.limits
  /-- Nothing is held that the map alone would not hold. -/
  came : ∀ k e, s'.2.get? k = some e → (service.advance s.2).get? k = some e

end Tiers.Service

namespace Layer

open Tiers

variable (id : String) (now : Nat) {t : Tiers} {m : Entries}

theorem state_put (t : Tiers) (m : Entries) (k : CacheKey) (e : Entry) :
    ((Service.demand now (.put k e)).on (base id) (t, m)).state =
      (({ t with reclaimed := [] } : Tiers).enter now k,
        (m.eraseAll t.reclaimable).insert k e) := by
  have written (m : Entries) : (base id).put k e m = ⟨.ok (), m.insert k e⟩ := rfl
  simp [Service.on, Demand.on, tiered, bind_apply, drain_base, Except.map, onSecond, onFirst,
    written]

theorem follows_put (h : t.Housed m) (k : CacheKey) (e : Entry) :
    (Service.demand now (.put k e)).Follows (t, m)
      ((Service.demand now (.put k e)).on (base id) (t, m)).state := by
  rw [state_put]
  exact ⟨h.drained.enter, reshaped_enter.limits timeToLive_enter,
    fun _ _ => Demand.advance_of_eraseAll (.put k e)⟩

theorem follows_get (h : t.Housed m) (k : CacheKey) :
    (Service.demand now (.get k)).Follows (t, m)
      ((Service.demand now (.get k)).on (base id) (t, m)).state := by
  have drained := h.drained
  have came : ∀ j x, (m.eraseAll t.reclaimable).get? j = some x → m.get? j = some x :=
    fun _ _ => Table.get?_of_eraseAll
  simp only [Service.on, Demand.on, map_apply, get_tiered_base]
  cases found : (m.eraseAll t.reclaimable).get? k with
  | none => exact ⟨drained, rfl, came⟩
  | some e =>
    by_cases hot : k ∈ t.hot
    · simp only [hot, if_true]
      exact ⟨drained, rfl, came⟩
    -- the use renews the place of a warm key, even of one that is too old
    · have used : ({ t with reclaimed := [] } : Tiers).Settles
          (({ t with reclaimed := [] } : Tiers).use now k).2 := settles_use
      have limits := reshaped_use.limits used.timeToLive
      have housed := drained.settled used drained.toCovers.use
      have cold := fun there => hot (used.hot.subset there)
      simp only [hot, if_false]
      split
      · have there := Table.mem_keys_iff_exists.mpr ⟨e, found⟩
        exact ⟨housed.promote there cold,
          (reshaped_promote.limits settles_promote.timeToLive).trans limits, came⟩
      · exact ⟨housed.dropWarm cold, limits, fun j x there => came j x (Table.get?_of_erase there)⟩

theorem follows_remove (h : t.Housed m) (k : CacheKey) :
    (Service.demand now (.remove k)).Follows (t, m)
      ((Service.demand now (.remove k)).on (base id) (t, m)).state := by
  have removed (m : Entries) : (base id).remove k m = ⟨.ok (m.get? k), m.erase k⟩ := rfl
  have run : ((Service.demand now (.remove k)).on (base id) (t, m)).state =
      (({ t with reclaimed := [] } : Tiers).forget k, (m.eraseAll t.reclaimable).erase k) := by
    simp [Service.on, Demand.on, tiered, bind_apply, drain_base, Except.map, onSecond, onFirst,
      removed]
  rw [run]
  exact ⟨h.drained.forget k, rfl, fun _ _ => Demand.advance_of_eraseAll (.remove k)⟩

theorem follows_assign (h : t.Housed m) (name value : String) :
    (Service.demand now (.assign name value)).Follows (t, m)
      ((Service.demand now (.assign name value)).on (base id) (t, m)).state := by
  have kept {t' : Tiers} (housed : t'.Housed m)
      (limits : t'.limits = Service.limits t.limits (.demand now (.assign name value))) :
      (Service.demand now (.assign name value)).Follows (t, m) (t', m) :=
    ⟨housed, limits, fun _ _ there => there⟩
  simp only [Service.limits, Demand.capacity?, Demand.lifetime?] at kept
  simp only [Service.on, Demand.on, map_apply, tiered]
  split
  · cases asked : Setting.capacity "size" value with
    | error fault => exact kept h (by simp [asked, Except.toOption])
    | ok size =>
      refine kept (h.settled (settles_resizeHot size) (h.toCovers.resizeHot size)) ?_
      simp [asked, Except.toOption, limits_resizeHot]
  · cases asked : Setting.capacity "warmSize" value with
    | error fault => exact kept h (by simp [asked, Except.toOption])
    | ok capacity =>
      refine kept (h.settled (settles_resizeWarm capacity)
        (h.toCovers.resizeWarm (Setting.one_le_capacity asked))) ?_
      simp [asked, Except.toOption, limits, resizeWarm]
  · cases asked : Setting.word "warmTtl" value with
    | error fault => exact kept h (by simp [asked, Except.toOption])
    | ok limit =>
      refine kept ⟨{ h.toCovers with }, h.distinct, h.stored⟩ ?_
      simp [asked, Except.toOption, limits]
  · rename_i hot warm age
    refine kept h ?_
    rw [if_neg hot, if_neg warm, if_neg age]
    rfl

theorem follows_on (h : t.Housed m) (service : Service) :
    service.Follows (t, m) (service.on (base id) (t, m)).state := by
  have came : ∀ j x, (m.eraseAll t.reclaimable).get? j = some x → m.get? j = some x :=
    fun _ _ => Table.get?_of_eraseAll
  cases service with
  | drain =>
    simp only [Service.on, map_apply, drain_base]
    exact ⟨h.drained, rfl, came⟩
  | demand now d =>
    cases d with
    | put k e => exact follows_put id now h k e
    | get k => exact follows_get id now h k
    | remove k => exact follows_remove id now h k
    | clear =>
      have covers : t.clear.Covers (Table.get? (Table.empty : Entries)) :=
        ⟨⟨Nat.zero_le _, Nat.zero_le _, h.room⟩, fun _ _ there => by cases there⟩
      refine ⟨⟨covers, .nil, ?_⟩, rfl, fun _ _ there => there⟩
      rintro k (hot | warm)
      · cases hot
      · cases warm
    | size =>
      simp only [Service.on, Demand.on, total_apply, tiered, Store.below, drain_base]
      exact ⟨h.drained, rfl, came⟩
    | assign name value => exact follows_assign id now h name value

theorem get?_drained (h : t.Housed m) {k : CacheKey} (retained : t.Retains k) :
    ∃ e, m.get? k = some e ∧ (m.eraseAll t.reclaimable).get? k = some e := by
  obtain ⟨e, found⟩ := Table.mem_keys_iff_exists.mp (h.mem_drained.mpr retained)
  exact ⟨e, Table.get?_of_eraseAll found, found⟩

theorem get_retained (h : t.Housed m) {k : CacheKey} (retained : t.Retains k)
    (young : k ∈ t.hot ∨ t.timeToLive = none) :
    ∃ e, m.get? k = some e ∧ ((tiered now (base id)).get k (t, m)).result = .ok (some e) := by
  obtain ⟨e, there, found⟩ := get?_drained h retained
  refine ⟨e, there, ?_⟩
  rw [get_tiered_base, found]
  by_cases hot : k ∈ t.hot
  · simp only [hot, if_true]
  · have ageless := young.resolve_left hot
    have fresh : (({ t with reclaimed := [] } : Tiers).use now k).1 = true :=
      use_of_ageless ageless (retained.resolve_left hot)
    simp only [hot, if_false, fresh, if_true]

/-- A warm key that is read while it is young comes to the front of the hot ring, which lets its
earliest promotion go when it is full. -/
theorem hot_get_of_young (h : t.Housed m) {k : CacheKey} (cold : k ∉ t.hot)
    (young : (t.use now k).1 = true) :
    ((tiered now (base id)).get k (t, m)).state.1.hot = (k :: t.hot).take t.hotSize := by
  have fresh : (({ t with reclaimed := [] } : Tiers).use now k).1 = true := by
    rw [← young]
    unfold use
    dsimp only
    split <;> rfl
  obtain ⟨e, -, found⟩ := get?_drained h (.inr (mem_warm_of_use young))
  simp only [get_tiered_base, found, cold, if_false, fresh, if_true, hot_promote]
  rw [reshaped_use.hotSize, hot_use]

theorem size_tiered_le (h : t.Housed m) :
    ((tiered now (base id)).size (t, m)).1 ≤ t.hotSize + t.warmCapacity := by
  have within : (m.eraseAll t.reclaimable).keys ⊆ t.hot ++ t.warm.map (·.1) :=
    fun k there => List.mem_append.mpr (h.mem_drained.mp there)
  calc ((tiered now (base id)).size (t, m)).1
    _ = (m.eraseAll t.reclaimable).keys.length := by
      simp only [tiered, Store.below, drain_base]
      exact (List.length_map ..).symm
    _ ≤ (t.hot ++ t.warm.map (·.1)).length :=
      (List.subperm_of_subset (m.eraseAll t.reclaimable).distinct within).length_le
    _ = t.hot.length + t.warm.length := by rw [List.length_append, List.length_map]
    _ ≤ t.hotSize + t.warmCapacity := Nat.add_le_add h.hot h.warm

/-- Over a run the tiers house the map, within the limits that were set last. -/
theorem housed_played (hotSize warmCapacity : Nat) (timeToLive : Option Nat) (past : List Service) :
    let s := played (Service.on (base id)) past (.empty hotSize warmCapacity timeToLive, .empty)
    s.1.Housed s.2 ∧
      s.1.limits = past.foldl Service.limits ⟨hotSize, max warmCapacity 1, timeToLive⟩ := by
  induction past using List.reverseRecOn with
  | nil =>
    refine ⟨⟨⟨⟨Nat.zero_le _, Nat.zero_le _, Nat.le_max_right ..⟩, fun _ _ there => ?_⟩, .nil, ?_⟩,
      rfl⟩
    · cases there
    · rintro k (hot | warm)
      · cases hot
      · cases warm
  | append_singleton past service ih =>
    obtain ⟨housed, limits⟩ := ih
    have follows := follows_on id housed service
    rw [List.foldl_append, ← limits]
    simp only [played_concat]
    exact ⟨follows.housed, follows.limits⟩

theorem latest_put_played (hotSize warmCapacity : Nat) (timeToLive : Option Nat)
    (past : List Service) {k : CacheKey} {e : Entry}
    (there : (played (Service.on (base id)) past
      (.empty hotSize warmCapacity timeToLive, .empty)).2.get? k = some e) :
    Service.LatestPut past k e := by
  refine since_of_run (Service.on (base id)) (.empty hotSize warmCapacity timeToLive, .empty)
    (fun s => s.2.get? k = some e) (fun held => by cases held) (fun past service held => ?_)
    past there
  rw [played_concat] at held
  obtain ⟨housed, -⟩ := housed_played id hotSize warmCapacity timeToLive past
  have came := (follows_on id housed service).came k e held
  cases service with
  | drain => exact .inr ⟨came, by simp⟩
  | demand now d =>
    obtain rfl | ⟨before, stays⟩ := Demand.came_of_advance came
    · exact .inl ⟨now, rfl⟩
    · refine .inr ⟨before, ?_⟩
      rintro ⟨_, d', same, drops⟩
      cases same
      exact stays drops

theorem hot_played_writes (writes : List (Nat × CacheKey × Entry)) (s : Tiers × Entries) :
    (played (Service.on (base id)) (writes.map Service.write) s).1.hot = s.1.hot := by
  induction writes generalizing s with
  | nil => rfl
  | cons w writes ih =>
    rw [List.map_cons, played_cons, ih]
    exact (congrArg (·.1.hot) (state_put id w.1 s.1 s.2 w.2.1 w.2.2)).trans hot_enter

/-- Tiers over a map are exact. Over every run they house the map: the ring has each key once and
fits, the warm tier fits, what is retained is held, and what is held is retained or waits to be
reclaimed. So a drain leaves what is retained, no more is counted than the tiers have room for, a
hot key is found with what was put last however much is written, and where nothing ages so is every
key that a tier retains. -/
theorem tiers_retain_exactly (id : String) (hotSize warmCapacity : Nat) (timeToLive : Option Nat)
    (past : List Service) (now : Nat) :
    let layer := tiered now (base id)
    let run (services : List Service) : Tiers × Entries :=
      played (Service.on (base id)) services (.empty hotSize warmCapacity timeToLive, .empty)
    let s := run past
    (s.1.Housed s.2 ∧
      s.1.limits = past.foldl Service.limits ⟨hotSize, max warmCapacity 1, timeToLive⟩) ∧
    (∃ n, ∃ left : Entries,
      drain (base id) s = ⟨.ok n, ({ s.1 with reclaimed := [] }, left)⟩ ∧
        ∀ k, k ∈ left.keys ↔ s.1.Retains k) ∧
    (layer.size s).1 ≤ s.1.hotSize + s.1.warmCapacity ∧
    (∀ k ∈ s.1.hot, ∀ writes : List (Nat × CacheKey × Entry),
      let later := past ++ writes.map Service.write
      ∃ e, Service.LatestPut later k e ∧ (layer.get k (run later)).result = .ok (some e)) ∧
    (s.1.timeToLive = none → ∀ k, s.1.Retains k →
      ∃ e, Service.LatestPut past k e ∧ (layer.get k s).result = .ok (some e)) := by
  intro layer run s
  obtain ⟨housed, limits⟩ := housed_played id hotSize warmCapacity timeToLive past
  have latest := latest_put_played id hotSize warmCapacity timeToLive
  refine ⟨⟨housed, limits⟩, ⟨_, _, drain_base id s.1 s.2, fun k => housed.mem_drained⟩,
    size_tiered_le id now housed, fun k hot writes => ?_, fun ageless k retained => ?_⟩
  · intro later
    -- the keys that the writes push out go from the warm tier alone
    have still : k ∈ (run later).1.hot := by
      simp only [run, later, played_append, hot_played_writes]
      exact hot
    obtain ⟨housed', -⟩ := housed_played id hotSize warmCapacity timeToLive later
    obtain ⟨e, there, found⟩ := get_retained id now housed' (.inl still) (.inl still)
    exact ⟨e, latest later there, found⟩
  · obtain ⟨e, there, found⟩ := get_retained id now housed retained (.inr ageless)
    exact ⟨e, latest past there, found⟩

end Layer
end StatementCache
