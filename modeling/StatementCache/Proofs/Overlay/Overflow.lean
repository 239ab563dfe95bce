import StatementCache.Proofs.Eviction.Bursts
import StatementCache.Proofs.Overlay.Rollback

/-! The commit of one overlay over a map from which the least recently used key goes. Placeholders
take room like values do, and they are written last: where both together are too many, they push
out what the same commit has published. -/
namespace StatementCache

open StatementCache.Action Function

section Served

variable {σ ω : Type} {ref : CacheRef} {id : String} {room : Nat} {w : World}
  {s : Recency × Entries}

namespace Chain

theorem put_stacked_lru (inner : Store σ) (k : CacheKey) (e : Entry) (s : Recency × σ) (v : ω) :
    (stacked (Layer.lru inner.beside)).put k e (s, v) =
      ⟨((Layer.lru inner).put k e s).result, (((Layer.lru inner).put k e s).state, v)⟩ := by
  obtain ⟨r, t⟩ := s
  rcases put : inner.put k e t with ⟨fault | _, t'⟩
  · simp [stacked, Store.regroup, Store.beside, Layer.lru, bind_apply, put]
  · cases evicted : (r.push k).1 <;>
      simp [stacked, Store.regroup, Store.beside, Layer.lru, bind_apply, put, evicted]

theorem put_store_lru (site : Site ω) (k : CacheKey) (e : Entry) (s : Recency × Entries) (v : ω) :
    ((Chain.lru (.base id)).store site).put k e (s, v) =
      ⟨.ok (), (((Demand.put k e).on (Layer.lru (Layer.base id)) s).state, v)⟩ := by
  refine (put_stacked_lru (Layer.base id) k e s v).trans ?_
  have done : ((Layer.lru (Layer.base id)).put k e s).result = .ok () := by
    obtain ⟨r, m⟩ := s
    cases evicted : (r.push k).1 <;> simp [Layer.lru, Layer.base, bind_apply, evicted, Except.map]
  rw [done, Demand.on, map_apply]
  rfl

theorem get_store_lru (site : Site ω) (k : CacheKey) (s : Recency × Entries) (v : ω) :
    ((Chain.lru (.base id)).store site).get k (s, v) =
      ⟨.ok (s.2.get? k), (((Demand.get k).on (Layer.lru (Layer.base id)) s).state, v)⟩ := rfl

end Chain

namespace World

/-- Behind the reference stands a map with eviction by recency, in the given state. -/
def Stands (ref : CacheRef) (id : String) (s : Recency × Entries) (w : World) : Prop :=
  w.caches.get? ref.serial = some ⟨.lru (.base id), s⟩

theorem Stands.shape_eq (h : w.Stands ref id s) : w.shape ref.serial = some (.lru (.base id)) := by
  rw [shape, h, Option.map_some]

theorem Stands.contents_eq (h : w.Stands ref id s) : w.contents ref.serial = s.2.get? := by
  funext k
  rw [contents, h, Option.bind_some]
  rfl

theorem Stands.onCache (h : w.Stands ref id s) {α : Type}
    {m : (c : Cache) → Action (c.chain.State × World) α} {a : α} {s' : Recency × Entries}
    (did : m ⟨.lru (.base id), s⟩ (s, w) = ⟨.ok a, (s', w)⟩) :
    ∃ w', World.onCache ref m w = ⟨.ok a, w'⟩ ∧ w'.Stands ref id s' := by
  have found : w.caches.get? ref.serial = some ⟨.lru (.base id), s⟩ := h
  refine ⟨{ w with caches := w.caches.insert ref.serial ⟨.lru (.base id), s'⟩ }, ?_, ?_⟩
  · simp only [World.onCache, found, did]
  · rw [Stands, Table.get?_insert, if_pos rfl]

theorem Stands.put (h : w.Stands ref id s) (host : Host) (k : CacheKey) (e : Entry) :
    ∃ w', (store host ref).put k e w = ⟨.ok (), w'⟩ ∧
      w'.Stands ref id ((Demand.put k e).on (Layer.lru (Layer.base id)) s).state :=
  h.onCache (Chain.put_store_lru _ k e s w)

theorem Stands.get (h : w.Stands ref id s) (host : Host) (k : CacheKey) :
    ∃ w', (store host ref).get k w = ⟨.ok (s.2.get? k), w'⟩ ∧
      w'.Stands ref id ((Demand.get k).on (Layer.lru (Layer.base id)) s).state :=
  h.onCache (Chain.get_store_lru _ k s w)

theorem Stands.all (h : w.Stands ref id s) (host : Host) (writes : List (CacheKey × Entry)) :
    ∃ w', Action.all (writes.map fun p => (store host ref).put p.1 p.2) w = ⟨.ok (), w'⟩ ∧
      w'.Stands ref id
        (played (Demand.on (Layer.lru (Layer.base id))) (Recency.puts writes) s) := by
  induction writes generalizing w s with
  | nil => exact ⟨w, rfl, h⟩
  | cons p writes ih =>
    obtain ⟨w', first, stands⟩ := h.put host p.1 p.2
    obtain ⟨w'', rest, stands⟩ := ih stands
    refine ⟨w'', ?_, stands⟩
    simp only [List.map_cons, Action.all, both, first, rest]
    rfl

def Keeping (ref : CacheRef) (id : String) (room : Nat) (w : World) : Prop :=
  ∃ s, w.Stands ref id s ∧ Recency.policy.Keeps s.1 s.2 ∧ s.1.capacity = room

theorem keeps_keeping_get (host : Host) (k : CacheKey) :
    Keeps (Keeping ref id room) ((store host ref).get k) := by
  rintro w ⟨⟨r, m⟩, stands, keeps, same⟩
  obtain ⟨w', looked, stands'⟩ := stands.get host k
  obtain ⟨r', run, capacity, -, keeps'⟩ := (Layer.governs_lru id).keeps_step keeps (.get k)
  rw [run] at stands' keeps'
  rw [looked]
  exact ⟨_, stands', keeps', capacity.trans same⟩

end World
end Served

namespace Overlay

open World

def Access.looked? : Access → Option CacheKey
  | .get k => some k
  | .put _ _ | .clear => none

def Access.written? : Access → Option CacheKey
  | .put k _ => some k
  | .get _ | .clear => none

/-- The keys under which something is put, each once. -/
def buffered (accesses : List Access) : List CacheKey :=
  (accesses.filterMap Access.written?).dedup

/-- The keys that are looked up while the cache has no value for them, and for which none is put,
each once. -/
def wanting (w : World) (serial : Nat) (accesses : List Access) : List CacheKey :=
  (accesses.filterMap Access.looked?).dedup.filter fun k =>
    (w.contents serial k).all (·.isPlaceholder) && decide (k ∉ buffered accesses)

variable {o : Overlay} {ref : CacheRef} {c : Chain} {w : World} {id : String} {room : Nat}
  {requests : List (Host × Access)} {accesses : List Access} {k : CacheKey}

theorem mem_buffered : k ∈ buffered accesses ↔ ∃ a ∈ accesses, a.written? = some k := by
  rw [buffered, List.mem_dedup, List.mem_filterMap]

theorem mem_wanting {serial : Nat} : k ∈ wanting w serial accesses ↔
    (∃ a ∈ accesses, a.looked? = some k) ∧ (w.contents serial k).all (·.isPlaceholder) = true ∧
      k ∉ buffered accesses := by
  rw [wanting, List.mem_filter, List.mem_dedup, List.mem_filterMap, Bool.and_eq_true,
    decide_eq_true_eq]

theorem isSome_lastPut_iff {accesses : List Access} (uncleared : ∀ a ∈ accesses, a.clears = false) :
    (lastPut k accesses).isSome ↔ ∃ a ∈ accesses, a.written? = some k := by
  induction accesses with
  | nil => simp [lastPut]
  | cons a earlier ih =>
    replace ih := ih fun a mem => uncleared a (List.mem_cons_of_mem _ mem)
    have kept := uncleared a List.mem_cons_self
    cases a with
    | clear => cases kept
    | get j => simp [lastPut, ih, Access.written?]
    | put j e =>
      by_cases same : j = k
      · simp [lastPut, same, Access.written?]
      · simp [lastPut, same, ih, Access.written?]

theorem reflects_accessAll (direct : c.Direct) (shaped : w.shape ref.serial = some c)
    (requests : List (Host × Access)) :
    ∃ history : List Moment, history.map (·.request) = requests.map (·.2) ∧
      (∀ m ∈ history, m.world.contents = w.contents) ∧
      Reflects ref history (accessAll (fresh ref, w) requests).1 := by
  induction requests using List.reverseRecOn with
  | nil => exact ⟨[], rfl, fun _ mem => (List.not_mem_nil mem).elim, reflects_fresh ref⟩
  | append_singleton requests r ih =>
    obtain ⟨history, asked, met, reflects⟩ := ih
    have before := undisturbed_accessAll direct shaped requests
    let m : Moment := ⟨r.1, (accessAll (fresh ref, w) requests).2, r.2⟩
    have shaped' : m.world.shape ref.serial = some c := by rw [before.same.shape_eq, shaped]
    refine ⟨history ++ [m], by simp [asked, m], fun m' mem => ?_, ?_⟩
    · obtain earlier | now := List.mem_append.mp mem
      · exact met m' earlier
      · rw [List.mem_singleton.mp now]
        exact before.same.contents_eq
    · rw [accessAll_concat]
      exact reflects.step direct shaped'

theorem nodup_missed_accessAll (ref : CacheRef) (w : World) (requests : List (Host × Access)) :
    (accessAll (fresh ref, w) requests).1.missed.Nodup := by
  induction requests using List.reverseRecOn with
  | nil => exact .nil
  | append_singleton requests r ih =>
    rw [accessAll_concat]
    generalize accessAll (fresh ref, w) requests = s at ih
    obtain ⟨host, request⟩ := r
    cases request with
    | put k e => exact ih
    | clear => exact ih
    | get k =>
      rw [access, state_discard]
      obtain same | missed := fst_get (World.find? host) k s.1 s.2
      · rw [same]
        exact ih
      · rw [missed]
        exact nodup_missed_miss k ih

theorem keeping_accessAll (keeping : w.Keeping ref id room) (requests : List (Host × Access)) :
    (accessAll (fresh ref, w) requests).2.Keeping ref id room := by
  have shaped : w.shape ref.serial = some (.lru (.base id)) := by
    obtain ⟨s, stands, -⟩ := keeping
    exact stands.shape_eq
  induction requests using List.reverseRecOn with
  | nil => exact keeping
  | append_singleton requests r ih =>
    have target := (undisturbed_accessAll (c := .lru (.base id)) trivial shaped requests).target_eq
    rw [accessAll_concat]
    generalize accessAll (fresh ref, w) requests = s at ih target
    obtain ⟨host, request⟩ := r
    cases request with
    | put k e => exact ih
    | clear => exact ih
    | get k =>
      rw [access, state_discard]
      refine keeps_get (fun cache found => ?_) ih
      rw [eq_store_of_find? found, target]
      exact keeps_keeping_get host k

/-- Without a clear the commit does nothing but write what is buffered, and then placeholders. -/
theorem commit_stands {s : Recency × Entries} (stands : w.Stands ref id s) (target : o.target = ref)
    (kept : o.clearOnCommit = false) (host : Host) :
    ∃ w', commit (World.find? host) (o, w) = ⟨.ok (), (o.reset, w')⟩ ∧
      w'.Stands ref id
        (played (Demand.on (Layer.lru (Layer.base id))) (Recency.puts o.writes) s) := by
  subst target
  obtain ⟨w', wrote, stands'⟩ := stands.all host o.writes
  have published : o.publish (store host o.target) w = ⟨.ok (), w'⟩ := by
    rw [publish, kept, if_neg Bool.false_ne_true, flush_eq, wrote]
  refine ⟨w', ?_, stands'⟩
  simp only [commit, settle, World.find?_of_some stands host, published]

theorem nodup_writes (distinct : o.missed.Nodup) : (o.writes.map (·.1)).Nodup := by
  have keys : (o.writes.map (·.1)) =
      o.pending.keys ++ o.missed.filter fun k => !o.pending.contains k := by
    simp [writes, Table.keys, List.map_map, Function.comp_def]
  rw [keys, List.nodup_append]
  refine ⟨o.pending.distinct, distinct.filter _, fun k there j other same => ?_⟩
  subst same
  rw [Table.mem_keys_iff] at there
  rw [List.mem_filter, Table.contains, Bool.not_eq_true', Option.isSome_eq_false_iff,
    Option.isNone_iff_eq_none] at other
  exact there other.2

theorem Moment.misses_iff {serial : Nat} {m : Moment} : m.misses serial k = true ↔
    m.request.looked? = some k ∧ (m.world.contents serial k).all (·.isPlaceholder) = true := by
  obtain ⟨host, w, request⟩ := m
  cases request <;> simp [Moment.misses, Access.looked?]

structure Gathered (ref : CacheRef) (w : World) (accesses : List Access) (o : Overlay) : Prop where
  target_eq : o.target = ref
  kept : o.clearOnCommit = false
  pending : ∀ k, o.pending.get? k = lastPut k accesses.reverse
  mem_pending : ∀ k, k ∈ buffered accesses ↔ k ∈ o.pending.keys
  missed : ∀ k, k ∈ o.missed ↔ (∃ a ∈ accesses, a.looked? = some k) ∧
    (w.contents ref.serial k).all (·.isPlaceholder) = true
  distinct : o.missed.Nodup

/-- It does not matter in which order the overlay keeps its work. -/
theorem gathered_accessAll (direct : c.Direct) (shaped : w.shape ref.serial = some c)
    (uncleared : ∀ r ∈ requests, r.2.clears = false)
    (reordered : o.Reorders (accessAll (fresh ref, w) requests).1) :
    Gathered ref w (requests.map (·.2)) o := by
  obtain ⟨history, asked, met, reflects⟩ := reflects_accessAll direct shaped requests
  replace uncleared : ∀ a ∈ history.map (·.request), a.clears = false := by
    rw [asked]
    exact List.forall_mem_map.mpr uncleared
  rw [← asked]
  have pending : ∀ k, o.pending.get? k = lastPut k (history.map (·.request)).reverse := by
    intro k
    rw [reordered.get?_pending, reflects.buffered k, List.map_reverse]
  refine ⟨reordered.target_eq.trans reflects.target_eq, ?kept, pending, ?mem, ?missed, ?distinct⟩
  case kept =>
    rw [reordered.clears_eq, reflects.clears_eq, List.any_eq_false]
    intro m mem
    rw [uncleared m.request (List.mem_map_of_mem mem)]
    exact Bool.false_ne_true
  case mem =>
    intro k
    rw [Table.mem_keys_iff, ← Option.isSome_iff_ne_none, pending k, mem_buffered,
      isSome_lastPut_iff fun a mem => uncleared a (List.mem_reverse.mp mem)]
    simp only [List.mem_reverse]
  case missed =>
    intro k
    rw [reordered.missed.mem_iff, reflects.missed k, List.any_eq_true]
    constructor
    · rintro ⟨m, mem, misses⟩
      obtain ⟨looks, absent⟩ := Moment.misses_iff.mp misses
      exact ⟨⟨m.request, List.mem_map_of_mem mem, looks⟩, met m mem ▸ absent⟩
    · rintro ⟨⟨a, there, looks⟩, absent⟩
      obtain ⟨m, mem, rfl⟩ := List.mem_map.mp there
      exact ⟨m, mem, Moment.misses_iff.mpr ⟨looks, (met m mem).symm ▸ absent⟩⟩
  case distinct => exact reordered.missed.nodup_iff.mpr (nodup_missed_accessAll ref w requests)

theorem Gathered.perm_buffered (h : Gathered ref w accesses o) :
    (buffered accesses).Perm o.pending.keys :=
  (List.perm_ext_iff_of_nodup (List.nodup_dedup _) o.pending.distinct).mpr h.mem_pending

theorem Gathered.perm_wanting (h : Gathered ref w accesses o) :
    (wanting w ref.serial accesses).Perm (o.missed.filter fun k => !o.pending.contains k) := by
  have distinct : (wanting w ref.serial accesses).Nodup := (List.nodup_dedup _).filter _
  refine (List.perm_ext_iff_of_nodup distinct (h.distinct.filter _)).mpr fun k => ?_
  have absent : (!o.pending.contains k) = true ↔ k ∉ buffered accesses := by
    rw [h.mem_pending k, Table.mem_keys_iff, Table.contains]
    simp
  rw [mem_wanting, List.mem_filter, h.missed k, absent, and_assoc]

theorem Gathered.own (h : Gathered ref w accesses o) {s : Recency × Entries}
    (burst : Recency.Burst room o.writes s) (k : CacheKey) (e : Entry)
    (last : lastPut k accesses.reverse = some e) : s.2.get? k = some e ∨ s.2.get? k = none := by
  have mem : (k, e) ∈ o.writes := mem_writes_iff.mpr (.inl ((h.pending k).trans last))
  cases held : s.2.get? k with
  | none => exact .inr rfl
  | some x => exact .inl (by rw [burst.wrote (k, e) mem x held])

/-- The placeholders are written after the values, so values have the room that they leave. -/
theorem Gathered.count (h : Gathered ref w accesses o) {s : Recency × Entries}
    (burst : Recency.Burst room o.writes s) :
    ((buffered accesses).filter fun k => (s.2.get? k).isSome).length =
      min (buffered accesses).length (room - (wanting w ref.serial accesses).length) := by
  have first := burst.count_first (nodup_writes h.distinct)
  rw [List.length_map] at first
  rw [(h.perm_buffered.filter _).length_eq, h.perm_buffered.length_eq, h.perm_wanting.length_eq,
    Table.keys, List.length_map]
  exact first

theorem Gathered.mem_buffered_iff (h : Gathered ref w accesses o) :
    k ∈ buffered accesses ↔ ∃ e, lastPut k accesses.reverse = some e := by
  rw [h.mem_pending k, Table.mem_keys_iff_exists, h.pending k]

theorem Gathered.all_last_iff (h : Gathered ref w accesses o) {left : CacheKey → Option Entry}
    (own : ∀ k e, lastPut k accesses.reverse = some e → left k = some e ∨ left k = none) :
    (∀ k e, lastPut k accesses.reverse = some e → left k = some e) ↔
      ∀ k ∈ buffered accesses, (left k).isSome = true := by
  constructor
  · intro all k mem
    obtain ⟨e, last⟩ := h.mem_buffered_iff.mp mem
    rw [all k e last]
    rfl
  · intro all k e last
    refine (own k e last).resolve_right fun gone => ?_
    have there := all k (h.mem_buffered_iff.mpr ⟨e, last⟩)
    rw [gone] at there
    cases there

/-- The commit of an overlay over a map from which the least recently used key goes, after lookups
and writes during which nobody else used the cache. It succeeds whatever the cache held before, and
values and placeholders share the room. A buffered key reads back its value or is not there, and as
many values are there as the placeholders leave room for, in whichever order the overlay keeps its
work. So all values are there where both together fit, and otherwise only if there is none. -/
theorem commit_keeps_values_that_fit (id : String) (capacity : Nat) (past : List Demand)
    (requests : List (Host × Access)) (host : Host)
    (shared : w.Stands ref id
      (played (Demand.on (Layer.lru (Layer.base id))) past (.empty capacity, .empty)))
    (uncleared : ∀ r ∈ requests, r.2.clears = false)
    (reordered : o.Reorders (accessAll (fresh ref, w) requests).1) :
    let accesses := requests.map (·.2)
    let room := Demand.room (max capacity 1) past
    let values := buffered accesses
    let placeholders := wanting w ref.serial accesses
    let done := commit (World.find? host) (o, (accessAll (fresh ref, w) requests).2)
    let left := done.state.2.contents ref.serial
    done.result = .ok () ∧
      (∀ reader k, ((World.store reader ref).get k done.state.2).result = .ok (left k)) ∧
      (∀ k e, lastPut k accesses.reverse = some e → left k = some e ∨ left k = none) ∧
      (values.filter fun k => (left k).isSome).length =
        min values.length (room - placeholders.length) ∧
      ((∀ k e, lastPut k accesses.reverse = some e → left k = some e) ↔
        values = [] ∨ values.length + placeholders.length ≤ room) := by
  intro accesses room values placeholders done left
  have gathered := gathered_accessAll (c := .lru (.base id)) trivial shared.shape_eq uncleared
    reordered
  obtain ⟨keeps, same, -⟩ := (Layer.governs_lru id).keeps_played (Layer.fresh_lru capacity) past
  obtain ⟨s, stands, keeps, same⟩ := keeping_accessAll ⟨_, shared, keeps, same⟩ requests
  obtain ⟨w', became, after⟩ := commit_stands stands gathered.target_eq gathered.kept host
  have burst := Recency.burst_played id keeps (nodup_writes gathered.distinct)
  rw [same] at burst
  change done = ⟨.ok (), (o.reset, w')⟩ at became
  -- From here on only the writes of the commit matter, not how the world came to them.
  have now : left = (played (Demand.on (Layer.lru (Layer.base id))) (Recency.puts o.writes)
      s).2.get? := by
    rw [← after.contents_eq]
    simp only [left, became]
  have own := gathered.own burst
  rw [← now] at own
  have count : (values.filter fun k => (left k).isSome).length =
      min values.length (room - placeholders.length) := by
    rw [now]
    exact gathered.count burst
  refine ⟨congrArg (·.result) became, fun reader k => ?_, own, count, ?_⟩
  · obtain ⟨w'', looked, -⟩ := after.get reader k
    rw [now, became, looked]
  · have whole : _ ↔ ∀ k ∈ values, (left k).isSome = true := gathered.all_last_iff own
    rw [whole, ← List.length_filter_eq_length_iff, count, ← List.length_eq_zero_iff]
    omega

def keepingLast (capacity : Nat) (past : List Demand) : World :=
  let state := played (Demand.on (Layer.lru (Layer.base "names"))) past (.empty capacity, .empty)
  { World.empty with
    caches := Table.empty.insert 0 ⟨.lru (.base "names"), state⟩, nextSerial := 1 }

theorem stands_keepingLast (capacity : Nat) (past : List Demand) :
    (keepingLast capacity past).Stands ⟨0, "names"⟩ "names"
      (played (Demand.on (Layer.lru (Layer.base "names"))) past (.empty capacity, .empty)) := rfl

/-- Keys 1 and 2 are missed; 2, 3 and 4 are written. In room for three, the placeholder of key 1 and
two of the values remain, and what the cache held before is gone. -/
theorem commit_keeps_two_of_three :
    let host : Host := ⟨0, 0, fun _ _ => false⟩
    let key (n : Int64) : CacheKey := .ofValues [.integer n]
    let ref : CacheRef := ⟨0, "names"⟩
    let w := keepingLast 3 [.put (key 9) (.rows []), .get (key 9)]
    let requests := [(host, .get (key 1)), (host, .get (key 2)), (host, .put (key 2) .placeholder),
      (host, .put (key 2) (.rows [])), (host, .put (key 3) (.rows [])), (host, .get (key 9)),
      (host, .put (key 4) (.rows []))]
    let o : Overlay := ⟨ref, false, ((Table.empty.insert (key 4) (.rows [])).insert (key 3)
      (.rows [])).insert (key 2) (.rows []), [key 2, key 1]⟩
    let done := commit (World.find? host) (o, (accessAll (fresh ref, w) requests).2)
    o.Reorders (accessAll (fresh ref, w) requests).1 ∧ done.result = .ok () ∧
      ([key 2, key 3, key 4].filter fun k => (done.state.2.contents 0 k).isSome).length = 2 := by
  intro host key ref w requests o done
  have reordered : o.Reorders (accessAll (fresh ref, w) requests).1 := by
    refine ⟨rfl, rfl, ?_, .swap _ _ _⟩
    have turned : o.pending.entries =
      (accessAll (fresh ref, w) requests).1.pending.entries.reverse := rfl
    rw [turned]
    exact List.reverse_perm _
  obtain ⟨ok, -, -, count, -⟩ := commit_keeps_values_that_fit "names" 3
    [.put (key 9) (.rows []), .get (key 9)] requests host (stands_keepingLast ..) (by decide)
    reordered
  have values : buffered (requests.map (·.2)) = [key 2, key 3, key 4] := rfl
  have placeholders : wanting w ref.serial (requests.map (·.2)) = [key 1] := rfl
  rw [values, placeholders] at count
  exact ⟨reordered, ok, count⟩

/-- In room for one, the placeholder of key 1 pushes out the value of key 2. -/
theorem placeholder_pushes_out_value :
    let host : Host := ⟨0, 0, fun _ _ => false⟩
    let key (n : Int64) : CacheKey := .ofValues [.integer n]
    let ref : CacheRef := ⟨0, "names"⟩
    let requests := [(host, .get (key 1)), (host, .put (key 2) (.rows [[.integer 2]]))]
    let s := accessAll (fresh ref, keepingLast 1 []) requests
    let done := commit (World.find? host) s
    (∀ r ∈ requests, r.2.clears = false) ∧
      s.1.pending.entries = [(key 2, .rows [[.integer 2]])] ∧
      done.result = .ok () ∧
      ((World.store host ref).get (key 2) done.state.2).result = .ok none := by
  refine ⟨by simp [Access.clears], by rfl, by rfl, by rfl⟩

end Overlay
end StatementCache
