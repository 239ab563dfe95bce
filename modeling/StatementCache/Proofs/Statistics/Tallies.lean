import StatementCache.Proofs.Assembly.Acceptance
import StatementCache.Proofs.Contents.Piecewise
import StatementCache.Proofs.Locks.Ownership

/-! Counting of lookups. The layer that counts sees neither the lookups that the blocking layer
above it refuses nor any that wait for a key below it, so what it counts is what the callers of the
whole cache were told. -/
namespace StatementCache

open StatementCache.Action

def timedOut {α : Type} : Except Fault α → Bool
  | .error (.lockTimeout _ _ _) => true
  | _ => false

@[simp] theorem timedOut_map {α β : Type} (r : Except Fault α) (f : α → β) :
    timedOut (r.map f) = timedOut r := by
  cases r with
  | error e => cases e <;> rfl
  | ok a => rfl

def answered : Except Fault (Option Entry) → Bool
  | .ok found => isHit found
  | .error _ => false

/-- The counters after a lookup that ended like this. -/
def Counters.after (c : Counters) (r : Except Fault (Option Entry)) : Counters :=
  if timedOut r then c else if answered r then c.request.hit else c.request

theorem Counters.after_eq (c : Counters) (r : Except Fault (Option Entry)) :
    c.after r = ⟨c.requests + .ofNat (!timedOut r).toNat, c.hits + .ofNat (answered r).toNat⟩ := by
  cases r with
  | error e =>
    cases late : timedOut (.error e : Except Fault (Option Entry)) <;>
      simp [after, late, answered, request]
  | ok found =>
    cases hit : isHit found <;> simp [after, timedOut, answered, hit, request, Counters.hit]

namespace Store

variable {σ τ : Type}

structure Prompt (store : Store σ) : Prop extends store.Yields where
  get : ∀ k, Succeeds (store.get k)

def Unwaiting (store : Store σ) : Prop := ∀ k s, timedOut (store.get k s).result = false

theorem Prompt.unwaiting {store : Store σ} (h : store.Prompt) : store.Unwaiting := fun k s => by
  obtain ⟨found, ok⟩ := h.get k s
  rw [ok]
  rfl

theorem Prompt.regroup {store : Store τ} (h : store.Prompt) (split : σ → τ) (join : τ → σ) :
    (store.regroup split join).Prompt where
  toYields := h.toYields.regroup split join
  get k s := h.get k (split s)

/-- The store counts the lookups that it is asked for, by how they end, and nothing else. -/
structure Tallies (store : Store σ) (tally : σ → Counters) : Prop where
  put : ∀ k e s, tally (store.put k e s).state = tally s
  get : ∀ k s, tally (store.get k s).state = (tally s).after (store.get k s).result
  remove : ∀ k s, tally (store.remove k s).state = tally s
  clear : ∀ s, tally (store.clear s).state = tally s
  size : ∀ s, tally (store.size s).2 = tally s
  stats : ∀ s, tally (store.stats s).2 = tally s ∧
    ∃ size, (store.stats s).1 = some ⟨(tally s).requests, (tally s).hits, size⟩
  assign : ∀ name value s, tally (store.assign name value s).state = tally s

theorem Tallies.regroup {store : Store τ} {tally : τ → Counters} (h : store.Tallies tally)
    (split : σ → τ) (join : τ → σ) (inverse : ∀ t, split (join t) = t) :
    (store.regroup split join).Tallies fun s => tally (split s) where
  put k e s := by simpa only [Store.regroup, inverse] using h.put k e (split s)
  get k s := by simpa only [Store.regroup, inverse] using h.get k (split s)
  remove k s := by simpa only [Store.regroup, inverse] using h.remove k (split s)
  clear s := by simpa only [Store.regroup, inverse] using h.clear (split s)
  size s := by simpa only [Store.regroup, inverse] using h.size (split s)
  stats s := by simpa only [Store.regroup, inverse] using h.stats (split s)
  assign name value s := by simpa only [Store.regroup, inverse] using h.assign name value (split s)

end Store

namespace Layer

open Store

variable {τ : Type} {inner : Store τ}

theorem prompt_base (id : String) : (base id).Prompt where
  toYields := yields_base id
  get _ := Succeeds.total _

theorem prompt_lru (h : inner.Prompt) : (lru inner).Prompt where
  toYields := yields_lru h.toYields
  get k := (Succeeds.onFirst (Succeeds.modify _)).bind fun _ => Succeeds.onSecond (h.get k)

theorem prompt_fifo (h : inner.Prompt) : (fifo inner).Prompt where
  toYields := yields_fifo h.toYields
  get k := Succeeds.onSecond (h.get k)

theorem prompt_tiered (now : Nat) (h : inner.Prompt) : (tiered now inner).Prompt where
  toYields := yields_tiered now h.toYields
  get k := by
    refine (Succeeds.discard (succeeds_drain h.toYields)).bind fun _ =>
      (Succeeds.onSecond (h.get k)).bind fun found => ?_
    cases found with
    | none => exact Succeeds.pure none
    | some e =>
      refine Succeeds.get.bind fun s => ?_
      split
      · exact Succeeds.pure (some e)
      · refine (Succeeds.onFirst (Succeeds.total _)).bind fun young => ?_
        cases young with
        | true => exact (Succeeds.onFirst (Succeeds.modify _)).bind fun _ => Succeeds.pure (some e)
        | false =>
          exact (Succeeds.onFirst (Succeeds.modify _)).bind fun _ =>
            (Succeeds.discard (Succeeds.onSecond (h.remove k))).bind fun _ => Succeeds.pure none

theorem prompt_scheduled (now : Nat) (h : inner.Prompt) : (scheduled now inner).Prompt where
  toYields := yields_scheduled now h.toYields
  get k := by
    refine (succeeds_clearWhenStale now h.toYields).bind fun cleared => ?_
    cases cleared with
    | true => exact Succeeds.pure none
    | false => exact Succeeds.onSecond (h.get k)

theorem timedOut_decodeFound (id : String) (found : Option Entry) :
    timedOut (decodeFound id found) = false := by
  cases found with
  | none => rfl
  | some e =>
    cases e with
    | snapshot bytes =>
      simp only [decodeFound, decode]
      cases Snapshot.toRows bytes <;> rfl
    | _ => rfl

theorem unwaiting_serialized (h : inner.Prompt) : (serialized inner).Unwaiting := fun k s => by
  obtain ⟨found, ok⟩ := h.get k s
  rcases hget : inner.get k s with ⟨r, t⟩
  rw [hget] at ok
  cases ok
  simp only [serialized, bind_apply, hget, ofExcept_apply, timedOut_decodeFound]

theorem tallies_counted (h : inner.Unwaiting) : (counted inner).Tallies Prod.fst where
  put _ _ _ := rfl
  get k s := by
    obtain ⟨c, t⟩ := s
    have waited := h k t
    rcases hget : inner.get k t with ⟨e | found, t'⟩ <;> rw [hget] at waited
    · have after : c.after (.error e) = c.request := by
        simp only [Counters.after, waited, answered, Bool.false_eq_true, if_false]
      simp [counted, bind_apply, hget, after]
    · have after : c.after (.ok found) = if isHit found then c.request.hit else c.request := rfl
      cases hit : isHit found <;> simp [counted, bind_apply, hget, hit, Except.map, after]
  remove _ _ := rfl
  clear _ := rfl
  size _ := rfl
  stats s := ⟨rfl, (inner.size s.2).1, rfl⟩
  assign _ _ _ := rfl

theorem tallies_synchronized {tally : τ → Counters} (h : inner.Tallies tally) :
    (synchronized inner).Tallies tally :=
  { h with assign := fun _ _ _ => rfl }

/-- A lookup that is refused is none to the layers below, and none to the count. -/
theorem tallies_blocking (thread : Thread) {tally : τ → Counters} (h : inner.Tallies tally) :
    (blocking thread inner).Tallies fun s => tally s.2 where
  put k e s := h.put k e s.2
  get k s := by
    obtain ⟨l, t⟩ := s
    by_cases claimed : (l.claim thread k).1 = true
    · rw [blocking_get_of_claimed thread inner k l t claimed]
      exact h.get k t
    · obtain ⟨owner, own, other⟩ := Locks.other_of_not_claimed claimed
      rw [blocking_get_of_other thread inner k l t own other]
      rfl
  remove k s := h.remove k s.2
  clear s := h.clear s.2
  size s := h.size s.2
  stats s := h.stats s.2
  assign name value s := by
    simp only [blocking]
    split
    · cases Setting.word "timeout" value <;> rfl
    · rfl

end Layer

namespace Chain

variable {ω β σ : Type} {store : Store (β × (σ × ω))}

theorem prompt_stacked (h : store.Prompt) : (stacked store).Prompt := h.regroup _ _

theorem tallies_stacked {tally : β × (σ × ω) → Counters} (h : store.Tallies tally) :
    (stacked store).Tallies fun s => tally (s.1.1, (s.1.2, s.2)) :=
  h.regroup _ _ fun _ => rfl

end Chain

namespace Wrapping

variable {ω : Type} {l : Wrapping}

def sheds : Wrapping → Bool
  | .lru _ | .fifo _ | .tiered _ _ _ | .scheduled _ _ => true
  | .serialized | .counted | .synchronized | .blocking _ => false

@[simp] theorem sheds_adjust (name : String) (n : Nat) : (l.adjust name n).sheds = l.sheds := by
  cases l with
  | tiered hotSize warmCapacity timeToLive =>
    simp only [adjust]
    split
    · rfl
    · split <;> rfl
  | _ => rfl

@[simp] theorem sheds_set (p : String × String) : (l.set p).sheds = l.sheds := by
  unfold set
  split
  · rfl
  · split
    · exact sheds_adjust ..
    · rfl

@[simp] theorem sheds_fitted (properties : List (String × String)) :
    (l.fitted properties).sheds = l.sheds := by
  induction properties generalizing l with
  | nil => rfl
  | cons p rest ih => exact ih.trans (sheds_set p)

theorem set_blocking (timeout : Option Nat) (p : String × String) :
    ∃ timeout', (blocking timeout).set p = .blocking timeout' := by
  unfold set
  split
  · exact ⟨timeout, rfl⟩
  · split
    · exact ⟨_, rfl⟩
    · exact ⟨timeout, rfl⟩

theorem fitted_blocking (timeout : Option Nat) (properties : List (String × String)) :
    ∃ timeout', (blocking timeout).fitted properties = .blocking timeout' := by
  induction properties generalizing timeout with
  | nil => exact ⟨timeout, rfl⟩
  | cons p rest ih =>
    obtain ⟨timeout', first⟩ := set_blocking timeout p
    obtain ⟨last, others⟩ := ih timeout'
    exact ⟨last, (congrArg (fitted · rest) first).trans others⟩

theorem prompt_cache (site : Site ω) (name : String) {layers : List Wrapping}
    (shed : ∀ l ∈ layers, l.sheds) : ((cache name layers).chain.store site).Prompt := by
  induction layers with
  | nil =>
    have bare := Layer.prompt_base name
    exact ⟨⟨fun k => (bare.remove k).onFirst, bare.clear.onFirst⟩, fun k => (bare.get k).onFirst⟩
  | cons l rest ih =>
    have below := ih fun l mem => shed l (List.mem_cons_of_mem _ mem)
    have outer := shed l List.mem_cons_self
    cases l with
    | lru _ => exact Chain.prompt_stacked (Layer.prompt_lru below)
    | fifo _ => exact Chain.prompt_stacked (Layer.prompt_fifo below)
    | tiered _ _ _ => exact Chain.prompt_stacked (Layer.prompt_tiered site.now below)
    | scheduled _ _ => exact Chain.prompt_stacked (Layer.prompt_scheduled site.now below)
    | _ => cases outer

end Wrapping

namespace Cache

variable {ω : Type} {c : Cache}

def Counts (ω : Type) (c : Cache) : Prop :=
  ∃ tally : c.chain.State × ω → Counters, (∀ w, tally (c.state, w) = Counters.zero) ∧
    ∀ site, (c.chain.store site).Tallies tally

theorem counts_counted (h : ∀ site : Site ω, (c.chain.store site).Unwaiting) :
    c.counted.Counts ω :=
  ⟨fun s => s.1.1, fun _ => rfl, fun site => Chain.tallies_stacked (Layer.tallies_counted (h site))⟩

theorem Counts.synchronized (h : c.Counts ω) : c.synchronized.Counts ω := by
  obtain ⟨tally, zero, tallies⟩ := h
  exact ⟨tally, zero, fun site => Layer.tallies_synchronized (tallies site)⟩

theorem Counts.blocking (h : c.Counts ω) (timeout : Option Nat) :
    (c.blocking timeout).Counts ω := by
  obtain ⟨tally, zero, tallies⟩ := h
  exact ⟨fun s => tally (s.1.2, s.2), zero,
    fun site => Chain.tallies_stacked (Layer.tallies_blocking site.thread (tallies site))⟩

end Cache

namespace Blueprint

variable {ω : Type} {b : Blueprint}

theorem sheds_evicting {names : List String} {l : Wrapping} (mem : l ∈ b.evicting names) :
    l.sheds := by
  obtain ⟨e, -, rfl⟩ := List.mem_map.mp mem
  rw [Wrapping.sheds_fitted]
  cases e <;> rfl

theorem sheds_resized (size : Option UInt64) {layers : List Wrapping}
    (shed : ∀ l ∈ layers, l.sheds) : ∀ l ∈ resized size layers, l.sheds := by
  cases layers with
  | nil => exact shed
  | cons l rest =>
    cases size with
    | none => exact shed
    | some n =>
      simp only [List.forall_mem_cons] at shed
      simpa only [resized, Option.elim, List.forall_mem_cons, Wrapping.sheds_adjust] using shed

theorem sheds_timed (b : Blueprint) (now : Nat) {layers : List Wrapping}
    (shed : ∀ l ∈ layers, l.sheds) : ∀ l ∈ b.timed now layers, l.sheds := by
  unfold timed
  split
  · exact shed
  · exact List.forall_mem_cons.mpr ⟨Wrapping.sheds_fitted _, shed⟩

theorem counts_covered (b : Blueprint) (now : Nat) {layers : List Wrapping}
    (shed : ∀ l ∈ layers, l.sheds) :
    (Wrapping.cache b.id (b.covered now layers)).Counts ω := by
  have prompt (site : Site ω) := Wrapping.prompt_cache site b.id (b.sheds_timed now shed)
  have counted : (Wrapping.cache b.id (.synchronized :: .counted ::
      if b.copyOnRead then .serialized :: b.timed now layers
      else b.timed now layers)).Counts ω := by
    refine (Cache.counts_counted fun site => ?_).synchronized
    cases b.copyOnRead with
    | true => exact Layer.unwaiting_serialized (prompt site)
    | false => exact (prompt site).unwaiting
  unfold covered
  cases b.blocking with
  | false => exact counted
  | true =>
    -- a property may change how long the layer waits
    obtain ⟨timeout, same⟩ := Wrapping.fitted_blocking b.blockingTimeout b.properties.entries
    rw [if_pos rfl, same]
    exact counted.blocking timeout

end Blueprint
end StatementCache
