import StatementCache.Proofs.Assembly.Limits
import StatementCache.Proofs.Statistics.Tallies

/-! What the statistics of an assembled cache say of its past: how many lookups were answered, and
how many of them with a value, as the callers of the whole cache saw it. -/
namespace StatementCache

open StatementCache.Action

namespace Action

variable {ι σ α : Type} (step : ι → Action σ α)

def told : List ι → σ → List (ι × Except Fault α)
  | [], _ => []
  | i :: rest, s => (i, (step i s).result) :: told rest (step i s).state

theorem told_concat (steps : List ι) (i : ι) (s : σ) :
    told step (steps ++ [i]) s =
      told step steps s ++ [(i, (step i (played step steps s)).result)] := by
  induction steps generalizing s with
  | nil => rfl
  | cons first rest ih => simp only [List.cons_append, told, ih, played_cons]

theorem map_fst_told (steps : List ι) (s : σ) : (told step steps s).map (·.1) = steps := by
  induction steps generalizing s with
  | nil => rfl
  | cons first rest ih => simp only [told, List.map_cons, ih]

end Action

inductive Inquiry where
  | demand (d : Demand)
  | stats

namespace Inquiry

inductive Reply where
  | response (r : Response)
  | stats (s : Option Stats)

def on {σ : Type} (store : Store σ) : Inquiry → Action σ Reply
  | .demand d => .response <$> d.on store
  | .stats => Action.total fun s => (.stats (store.stats s).1, (store.stats s).2)

def isGet : Inquiry → Bool
  | .demand (.get _) => true
  | _ => false

def isRequest (i : Inquiry) (r : Except Fault Reply) : Bool := i.isGet && !timedOut r

def isHit (i : Inquiry) (r : Except Fault Reply) : Bool :=
  i.isGet && match r with
    | .ok (.response (.found e)) => StatementCache.isHit e
    | _ => false

theorem isGet_of_isRequest {i : Inquiry} {r : Except Fault Reply} (h : i.isRequest r) :
    i.isGet := by
  simp only [isRequest, Bool.and_eq_true] at h
  exact h.1

theorem isRequest_of_isHit {i : Inquiry} {r : Except Fault Reply} (h : i.isHit r) :
    i.isRequest r := by
  simp only [isHit, Bool.and_eq_true] at h
  obtain ⟨asked, found⟩ := h
  split at found
  · simp only [isRequest, asked, timedOut, Bool.not_false, Bool.and_self]
  · cases found

theorem isRequest_get (k : CacheKey) (r : Except Fault (Option Entry)) :
    isRequest (.demand (.get k)) ((r.map .found).map .response) = !timedOut r := by
  rw [isRequest, timedOut_map, timedOut_map]
  rfl

theorem isHit_get (k : CacheKey) (r : Except Fault (Option Entry)) :
    isHit (.demand (.get k)) ((r.map .found).map .response) = answered r := by
  cases r <;> rfl

end Inquiry

structure Ask (ω : Type) where
  site : Site ω
  inquiry : Inquiry

namespace Ask

variable {ω : Type}

def perform (c : Chain) (ask : Ask ω) : Action (c.State × ω) Inquiry.Reply :=
  ask.inquiry.on (c.store ask.site)

def isGet (ask : Ask ω) : Bool := ask.inquiry.isGet

/-- How many lookups did not give up waiting. -/
def requests (record : List (Ask ω × Except Fault Inquiry.Reply)) : Nat :=
  record.countP fun told => told.1.inquiry.isRequest told.2

/-- How many lookups gave back a value. -/
def hits (record : List (Ask ω × Except Fault Inquiry.Reply)) : Nat :=
  record.countP fun told => told.1.inquiry.isHit told.2

variable {record : List (Ask ω × Except Fault Inquiry.Reply)} {ask : Ask ω}
  {r : Except Fault Inquiry.Reply}

theorem requests_concat :
    requests (record ++ [(ask, r)]) = requests record + (ask.inquiry.isRequest r).toNat := by
  rw [requests, List.countP_append, List.countP_singleton]
  cases ask.inquiry.isRequest r <;> rfl

theorem hits_concat : hits (record ++ [(ask, r)]) = hits record + (ask.inquiry.isHit r).toNat := by
  rw [hits, List.countP_append, List.countP_singleton]
  cases ask.inquiry.isHit r <;> rfl

theorem hits_le_requests : hits record ≤ requests record :=
  List.countP_mono_left fun _ _ => Inquiry.isRequest_of_isHit

theorem requests_told_le {c : Chain} (past : List (Ask ω)) (s : c.State × ω) :
    requests (told (perform c) past s) ≤ past.countP isGet := by
  conv_rhs => rw [← map_fst_told (perform c) past s, List.countP_map]
  exact List.countP_mono_left fun _ _ => Inquiry.isGet_of_isRequest

end Ask

namespace Store.Tallies

variable {σ ω : Type} {store : Store σ} {tally : σ → Counters}

theorem on (h : store.Tallies tally) (i : Inquiry) (s : σ) :
    tally (i.on store s).state =
      ⟨(tally s).requests + .ofNat (i.isRequest (i.on store s).result).toNat,
        (tally s).hits + .ofNat (i.isHit (i.on store s).result).toNat⟩ := by
  have quiet (other : i.isGet = false) (same : tally (i.on store s).state = tally s) :
      tally (i.on store s).state =
        ⟨(tally s).requests + .ofNat (i.isRequest (i.on store s).result).toNat,
          (tally s).hits + .ofNat (i.isHit (i.on store s).result).toNat⟩ := by
    simp only [same, Inquiry.isRequest, Inquiry.isHit, other, Bool.false_and, Bool.toNat_false,
      UInt64.reduceOfNat, UInt64.add_zero]
  cases i with
  | stats => exact quiet rfl (h.stats s).1
  | demand d =>
    cases d with
    | put k e => exact quiet rfl (by simpa [Inquiry.on, Demand.on] using h.put k e s)
    | remove k => exact quiet rfl (by simpa [Inquiry.on, Demand.on] using h.remove k s)
    | clear => exact quiet rfl (by simpa [Inquiry.on, Demand.on] using h.clear s)
    | size => exact quiet rfl (by simpa [Inquiry.on, Demand.on] using h.size s)
    | assign name value =>
      exact quiet rfl (by simpa [Inquiry.on, Demand.on] using h.assign name value s)
    | get k =>
      have counted := h.get k s
      simp only [Inquiry.on, Demand.on, map_apply, counted, Inquiry.isRequest_get,
        Inquiry.isHit_get, Counters.after_eq]

/-- Over a run the counters are the numbers of lookups that were answered. -/
theorem played {c : Chain} {tally : c.State × ω → Counters}
    (h : ∀ site, (c.store site).Tallies tally) (past : List (Ask ω)) {s : c.State × ω}
    (zero : tally s = .zero) :
    tally (Action.played (Ask.perform c) past s) =
      ⟨.ofNat (Ask.requests (told (Ask.perform c) past s)),
        .ofNat (Ask.hits (told (Ask.perform c) past s))⟩ := by
  induction past using List.reverseRecOn with
  | nil => exact zero
  | append_singleton past ask ih =>
    rw [played_concat, told_concat, Ask.requests_concat, Ask.hits_concat, UInt64.ofNat_add,
      UInt64.ofNat_add]
    have step := (h ask.site).on ask.inquiry (Action.played (Ask.perform c) past s)
    rw [ih] at step
    exact step

end Store.Tallies

/-- Counts of 64 bits are exact as long as they fit, and then their difference is, too. -/
theorem Stats.exact_of_counts {hits requests : Nat} (fewer : hits ≤ requests)
    (fits : requests < UInt64.size) (size : Nat) :
    let stats : Stats := ⟨.ofNat requests, .ofNat hits, size⟩
    stats.requests.toNat = requests ∧ stats.hits.toNat = hits ∧ stats.hits ≤ stats.requests ∧
      stats.misses.toNat + stats.hits.toNat = stats.requests.toNat := by
  intro stats
  have asked : stats.requests.toNat = requests := UInt64.toNat_ofNat_of_lt' fits
  have found : stats.hits.toNat = hits :=
    UInt64.toNat_ofNat_of_lt' (Nat.lt_of_le_of_lt fewer fits)
  have ordered : stats.hits.toNat ≤ stats.requests.toNat := by rwa [asked, found]
  refine ⟨asked, found, UInt64.le_iff_toNat_le.mpr ordered, ?_⟩
  rw [Stats.misses, UInt64.toNat_sub_of_le _ _ (UInt64.le_iff_toNat_le.mpr ordered)]
  exact Nat.sub_add_cancel ordered

theorem CacheFactories.mapped_of_store {name : String} {make : String → Cache}
    (found : builtIn.store name = .ok make) : name.toUpper = defaultStore := by
  have map : defaultStore.toUpper = defaultStore := by decide +kernel
  simp only [store, builtIn, registerStore, registerDecorator, Table.get?_insert, Table.get?_empty,
    map] at found
  split at found
  · rename_i same
    split at same
    · rename_i mapped
      exact mapped.symm
    · cases same
  · cases found

namespace Blueprint

variable {ω : Type} {b : Blueprint} {site : Site ω} {w : ω} {c : Cache}

theorem mapped_of_build (built : (b.build site CacheFactories.builtIn w).result = .ok c) :
    (b.implementation.getD CacheFactories.defaultStore).toUpper = CacheFactories.defaultStore := by
  let name := b.implementation.getD CacheFactories.defaultStore
  suffices Gives (fun _ : Cache => name.toUpper = CacheFactories.defaultStore)
      (b.build site CacheFactories.builtIn) from this w c built
  refine Gives.bind (Q := fun _ => name.toUpper = CacheFactories.defaultStore) ?_
    fun _ mapped _ _ _ => mapped
  exact fun _ make found => CacheFactories.mapped_of_store found

theorem counts_of_build (built : (b.build site CacheFactories.builtIn w).result = .ok c) :
    c.Counts ω := by
  have made : c = Wrapping.cache b.id (b.wrappings site.now) :=
    (accepts_build site (mapped_of_build built)).answer built
  subst made
  exact counts_covered b site.now
    (sheds_resized b.size fun l mem => sheds_evicting (List.mem_reverse.mp mem))

/-- Whatever an assembled cache was asked before, by whichever threads and at whatever times, its
statistics tell how many lookups did not give up waiting and how many gave back a value. -/
theorem statistics_exact (built : (b.build site CacheFactories.builtIn w).result = .ok c)
    (past : List (Ask ω)) (few : past.countP Ask.isGet < UInt64.size) (start : ω) (last : Site ω) :
    let s := played (Ask.perform c.chain) past (c.state, start)
    let record := told (Ask.perform c.chain) past (c.state, start)
    ∃ stats, (Ask.perform c.chain ⟨last, .stats⟩ s).result = .ok (.stats (some stats)) ∧
      stats.requests.toNat = Ask.requests record ∧ stats.hits.toNat = Ask.hits record ∧
      stats.hits ≤ stats.requests ∧
      stats.misses.toNat + stats.hits.toNat = stats.requests.toNat := by
  intro s record
  have counts : c.Counts ω := counts_of_build built
  obtain ⟨tally, zero, tallies⟩ := counts
  have counted : tally s = ⟨.ofNat (Ask.requests record), .ofNat (Ask.hits record)⟩ :=
    Store.Tallies.played tallies past (zero start)
  obtain ⟨-, size, answer⟩ := (tallies last).stats s
  rw [counted] at answer
  have requests : Ask.requests record < UInt64.size :=
    Nat.lt_of_le_of_lt (Ask.requests_told_le past _) few
  exact ⟨_, congrArg (fun found => Except.ok (Inquiry.Reply.stats found)) answer,
    Stats.exact_of_counts Ask.hits_le_requests requests size⟩

/-- A thread waits in vain for another one's key, and then comes a value, a snapshot that cannot be
read, a placeholder and a clear. -/
theorem statistics_exact_of_two_threads :
    let b : Blueprint := { Blueprint.ofId "orders" with
      size := some 1, clearInterval := some 50
      copyOnRead := true, blocking := true, blockingTimeout := some 100 }
    let rows : Entry := .rows [[.scalar (.integer 7)]]
    let past : List (Ask Unit) :=
      [⟨.lone 1 0, .demand (.get .empty)⟩, ⟨.lone 2 10, .demand (.get .empty)⟩,
        ⟨.lone 1 20, .demand (.put .empty rows)⟩, ⟨.lone 2 30, .demand (.get .empty)⟩,
        ⟨.lone 2 35, .demand (.put .empty (.snapshot []))⟩, ⟨.lone 1 40, .demand (.get .empty)⟩,
        ⟨.lone 1 45, .demand (.put .empty .placeholder)⟩, ⟨.lone 2 48, .demand (.get .empty)⟩,
        ⟨.lone 2 70, .demand .size⟩, ⟨.lone 1 71, .stats⟩]
    ∃ c stats, (b.build (.lone 0 0) CacheFactories.builtIn ()).result = .ok c ∧
      (Ask.perform c.chain ⟨.lone 1 80, .stats⟩
        (played (Ask.perform c.chain) past (c.state, ()))).result = .ok (.stats (some stats)) ∧
      stats.requests.toNat = 4 ∧ stats.hits.toNat = 1 ∧
      stats.misses.toNat + stats.hits.toNat = stats.requests.toNat := by
  intro b rows past
  have map : (b.implementation.getD CacheFactories.defaultStore).toUpper =
      CacheFactories.defaultStore := by decide +kernel
  have valid : b.Valid := by
    refine ⟨?_, by decide, ?_⟩
    · intro name mem
      cases mem
    · intro p mem
      cases mem
  obtain ⟨c, built⟩ := (b.build_accepts_iff (.lone 0 0) () map).1.mpr valid
  have layers : b.wrappings 0 = [.blocking (some 100), .synchronized, .counted, .serialized,
      .scheduled 50 0, .lru 1] := by decide +kernel
  have made : c = Wrapping.cache "orders" [.blocking (some 100), .synchronized, .counted,
      .serialized, .scheduled 50 0, .lru 1] :=
    layers ▸ (accepts_build (.lone 0 0) map).answer built
  obtain ⟨stats, answer, requests, hits, -, sum⟩ :=
    statistics_exact built past (by decide) () (.lone 1 80)
  refine ⟨c, stats, built, answer, requests.trans ?_, hits.trans ?_, sum⟩
  · subst made
    decide +kernel
  · subst made
    decide +kernel

end Blueprint
end StatementCache
