import Mathlib.Logic.ExistsUnique
import StatementCache.Layer.Blocking
import StatementCache.Proofs.Contents.Demand

/-! Who owns the keys of a blocking layer. The inner cache is any store, and another one every
turn: whether an operation of it fails, and what it does before it fails, is left open. -/
namespace StatementCache

def missed : Except Fault (Option Entry) → Bool
  | .ok found => !isHit found
  | .error _ => false

namespace Locks

/-- Every lock of the table has an owner, and nobody waits. -/
def Exact (l : Locks) : Prop :=
  ∀ k lock, l.byKey.get? k = some lock → lock.owner ≠ none ∧ lock.waiters = 0

theorem exact_empty (timeout : Option Nat) : (empty timeout).Exact := fun _ _ h => by cases h

theorem Exact.mem_keys_iff {l : Locks} (h : l.Exact) (k : CacheKey) :
    k ∈ l.byKey.keys ↔ ∃! thread, l.owner? k = some thread := by
  rw [Table.mem_keys_iff]
  constructor
  · intro there
    obtain ⟨lock, hlock⟩ := Option.ne_none_iff_exists'.mp there
    obtain ⟨thread, own⟩ := Option.ne_none_iff_exists'.mp (h k lock hlock).1
    have own : l.owner? k = some thread := by
      simp only [owner?, lockOf, hlock, Option.getD_some, own]
    exact ⟨thread, own, fun other h => Option.some.inj (h.symm.trans own)⟩
  · rintro ⟨thread, own, -⟩ absent
    rw [get?_of_owner? own] at absent
    cases absent

theorem Exact.waiters {l : Locks} (h : l.Exact) (k : CacheKey) : (l.lockOf k).waiters = 0 := by
  unfold lockOf
  cases there : l.byKey.get? k with
  | none => rfl
  | some lock => exact (h k lock there).2

theorem Exact.taken {l : Locks} (h : l.Exact) (k : CacheKey) (thread : Thread) :
    (l.write k { l.lockOf k with owner := some thread }).Exact := by
  intro j lock there
  simp only [write, Table.get?_insert] at there
  split at there
  · cases there
    exact ⟨by simp, h.waiters k⟩
  · exact h j lock there

theorem Exact.release {l : Locks} (h : l.Exact) (thread : Thread) (k : CacheKey) :
    (l.release thread k).Exact := by
  unfold Locks.release
  split
  · intro j lock there
    have idle : ((l.write k { l.lockOf k with owner := none }).lockOf k).isIdle := by
      rw [lockOf_write, if_pos rfl]
      simp only [KeyLock.isIdle, h.waiters k, Option.isNone_none, beq_self_eq_true, Bool.and_self]
    rw [discardIfIdle, if_pos idle] at there
    simp only [write, Table.get?_erase, Table.get?_insert] at there
    split at there
    · cases there
    · exact h j lock there
  · exact h

theorem Exact.claim {l : Locks} (h : l.Exact) (thread : Thread) (k : CacheKey) :
    (l.claim thread k).2.Exact := by
  cases own : l.owner? k with
  | none => rw [claim_of_free own]; exact h.taken k thread
  | some owner =>
    by_cases same : owner = thread
    · rw [claim_of_own (same ▸ own)]; exact h
    · rw [claim_of_other own same]; exact h

theorem claim_fst (l : Locks) (thread : Thread) (k : CacheKey) :
    (l.claim thread k).1 = true ↔ ∀ owner, l.owner? k = some owner → owner = thread := by
  cases own : l.owner? k with
  | none => simp [claim_of_free own]
  | some owner =>
    by_cases same : owner = thread
    · simp [claim_of_own (same ▸ own), same]
    · simp [claim_of_other own same, same]

theorem other_of_not_claimed {l : Locks} {thread : Thread} {k : CacheKey}
    (h : ¬(l.claim thread k).1 = true) : ∃ owner, l.owner? k = some owner ∧ owner ≠ thread := by
  simpa [claim_fst] using h

theorem owner?_claim {l : Locks} {thread : Thread} {k : CacheKey}
    (claimed : (l.claim thread k).1 = true) (j : CacheKey) :
    (l.claim thread k).2.owner? j = if k = j then some thread else l.owner? j := by
  cases own : l.owner? k with
  | none => rw [claim_of_free own, owner?_write]
  | some owner =>
    have same := (claim_fst ..).mp claimed owner own
    rw [claim_of_own (same ▸ own)]
    split
    · rename_i h; rw [← h, own, same]
    · rfl

@[simp] theorem timeout_claim (l : Locks) (thread : Thread) (k : CacheKey) :
    (l.claim thread k).2.timeout = l.timeout := by
  cases own : l.owner? k with
  | none => rw [claim_of_free own, timeout_write]
  | some owner =>
    by_cases same : owner = thread
    · rw [claim_of_own (same ▸ own)]
    · rw [claim_of_other own same]

end Locks

namespace Layer

variable {τ : Type} (thread : Thread) (inner : Store τ) (k : CacheKey) (l : Locks) (t : τ)

theorem blocking_get_of_other {owner : Thread} (own : l.owner? k = some owner)
    (h : owner ≠ thread) :
    (blocking thread inner).get k (l, t) =
      ⟨.error (.lockTimeout inner.id k.display (UInt64.ofNat (l.timeout.getD 0))), (l, t)⟩ := by
  simp only [blocking, Action.bind_apply, Action.onFirst_apply, acquire, Locks.claim_of_other own h]

theorem blocking_get_of_claimed (claimed : (l.claim thread k).1 = true) :
    (blocking thread inner).get k (l, t) =
      let held := (l.claim thread k).2
      let o := inner.get k t
      ⟨o.result, (if missed o.result then held else held.release thread k, o.state)⟩ := by
  obtain ⟨held, there⟩ : ∃ held, l.claim thread k = (true, held) := ⟨_, Prod.ext claimed rfl⟩
  simp only [blocking, Action.bind_apply, Action.onFirst_apply, acquire, there, missed]
  rcases hget : inner.get k t with ⟨_ | found, t'⟩
  · simp only [Action.attempt_apply, Action.onSecond_apply, hget, Action.bind_apply,
      Action.onFirst_apply, Action.modify_apply, Action.fail_apply, Bool.false_eq_true, if_false]
  · cases hit : isHit found <;>
      simp [Action.onSecond_apply, hget, Action.bind_apply, hit]

theorem owner?_blocking_assign (name value : String) (j : CacheKey) :
    ((blocking thread inner).assign name value (l, t)).state.1.owner? j = l.owner? j := by
  simp only [blocking]
  split
  · cases Setting.word "timeout" value <;> rfl
  · rfl

theorem owner?_blocking_get (j : CacheKey) :
    ((blocking thread inner).get k (l, t)).state.1.owner? j =
      if k = j then
        if missed ((blocking thread inner).get k (l, t)).result then some thread
        else if l.owner? k = some thread then none else l.owner? k
      else l.owner? j := by
  by_cases claimed : (l.claim thread k).1 = true
  · have taken := Locks.owner?_claim claimed
    have own := (Locks.claim_fst ..).mp claimed
    rw [blocking_get_of_claimed thread inner k l t claimed]
    dsimp only
    cases miss : missed (inner.get k t).result
    · simp only [Bool.false_eq_true, if_false, Locks.owner?_release, taken]
      by_cases same : k = j
      · cases free : l.owner? k with
        | none => simp [same]
        | some owner => simp [same, own owner free]
      · simp [same]
    · simp only [if_true, taken]
  · obtain ⟨owner, own, other⟩ := Locks.other_of_not_claimed claimed
    rw [blocking_get_of_other thread inner k l t own other]
    split
    · rename_i same; simp [← same, missed, own, other]
    · rfl

/-- Who owns a key after a lookup did so before, or is the one who has looked it up in vain. -/
theorem owned_of_blocking_get {j : CacheKey} {owner : Thread}
    (own : ((blocking thread inner).get k (l, t)).state.1.owner? j = some owner) :
    l.owner? j = some owner ∧ ¬(j = k ∧ owner = thread) ∨
      (j = k ∧ owner = thread) ∧ missed ((blocking thread inner).get k (l, t)).result = true := by
  rw [owner?_blocking_get] at own
  by_cases same : k = j
  · subst same
    rw [if_pos rfl] at own
    split at own
    · rename_i miss
      exact .inr ⟨⟨rfl, (Option.some.inj own).symm⟩, miss⟩
    · split at own
      · cases own
      · rename_i other
        exact .inl ⟨own, fun here => other (here.2 ▸ own)⟩
  · rw [if_neg same] at own
    exact .inl ⟨own, fun here => same here.1.symm⟩

theorem exact_blocking_get (h : l.Exact) :
    ((blocking thread inner).get k (l, t)).state.1.Exact := by
  by_cases claimed : (l.claim thread k).1 = true
  · rw [blocking_get_of_claimed thread inner k l t claimed]
    dsimp only
    split
    · exact h.claim thread k
    · exact (h.claim thread k).release thread k
  · obtain ⟨owner, own, other⟩ := Locks.other_of_not_claimed claimed
    rw [blocking_get_of_other thread inner k l t own other]
    exact h

theorem timeout_blocking_get :
    ((blocking thread inner).get k (l, t)).state.1.timeout = l.timeout := by
  by_cases claimed : (l.claim thread k).1 = true
  · rw [blocking_get_of_claimed thread inner k l t claimed]
    dsimp only
    split <;> simp only [Locks.timeout_release, Locks.timeout_claim]
  · obtain ⟨owner, own, other⟩ := Locks.other_of_not_claimed claimed
    rw [blocking_get_of_other thread inner k l t own other]

end Layer

structure Turn (τ : Type) where
  thread : Thread
  /-- The cache below, as it behaves in this turn. -/
  inner : Store τ
  demand : Demand

namespace Turn

variable {τ : Type}

def perform (turn : Turn τ) : Action (Locks × τ) Response :=
  turn.demand.on (Layer.blocking turn.thread turn.inner)

def Misses (turn : Turn τ) (k : CacheKey) (s : Locks × τ) : Prop :=
  turn.demand = .get k ∧ ∃ found, (turn.perform s).result = .ok (.found found) ∧ isHit found = false

/-- The turn writes or removes the key, even in vain, or looks it up and finds a value or fails. -/
def Settles (turn : Turn τ) (k : CacheKey) (s : Locks × τ) : Prop :=
  (∃ e, turn.demand = .put k e) ∨ turn.demand = .remove k ∨
    turn.demand = .get k ∧ ¬turn.Misses k s

variable {turn : Turn τ} {k : CacheKey} {s : Locks × τ}

theorem misses_iff (h : turn.demand = .get k) :
    turn.Misses k s ↔ missed ((Layer.blocking turn.thread turn.inner).get k s).result = true := by
  simp only [Misses, h, true_and, perform, Demand.on, Action.map_apply]
  rcases ((Layer.blocking turn.thread turn.inner).get k s).result with _ | found
  · simp [missed, Except.map]
  · simp [missed, Except.map]

theorem owner?_of_misses (h : turn.Misses k s) :
    (turn.perform s).state.1.owner? k = some turn.thread := by
  obtain ⟨l, t⟩ := s
  have miss := (misses_iff h.1).mp h
  simp only [perform, h.1, Demand.on, Action.map_apply]
  rw [Layer.owner?_blocking_get, if_pos rfl, if_pos miss]

theorem owner?_of_settles (h : turn.Settles k s) :
    (turn.perform s).state.1.owner? k =
      if s.1.owner? k = some turn.thread then none else s.1.owner? k := by
  obtain ⟨l, t⟩ := s
  obtain ⟨e, asked⟩ | asked | ⟨asked, found⟩ := h
  · simp only [perform, asked, Demand.on, Action.map_apply, Layer.blocking, Layer.releasing,
      Locks.owner?_release, true_and]
  · simp only [perform, asked, Demand.on, Action.map_apply, Layer.blocking, Layer.releasing,
      Locks.owner?_release, true_and]
  · rw [misses_iff asked] at found
    simp only [perform, asked, Demand.on, Action.map_apply]
    rw [Layer.owner?_blocking_get, if_pos rfl, if_neg found]

theorem owner?_of_neither (hit : ¬turn.Misses k s) (h : ¬turn.Settles k s) :
    (turn.perform s).state.1.owner? k = s.1.owner? k := by
  obtain ⟨l, t⟩ := s
  unfold Settles at h
  push Not at h
  obtain ⟨unwritten, unremoved, unasked⟩ := h
  cases asked : turn.demand with
  | put j e =>
    have other : ¬j = k := fun same => unwritten e (same ▸ asked)
    simp [perform, asked, Demand.on, Layer.blocking, Layer.releasing, Locks.owner?_release, other]
  | get j =>
    have other : ¬j = k := fun same => hit (unasked (same ▸ asked))
    simp only [perform, asked, Demand.on, Action.map_apply]
    rw [Layer.owner?_blocking_get, if_neg other]
  | remove j =>
    have other : ¬j = k := fun same => unremoved (same ▸ asked)
    simp [perform, asked, Demand.on, Layer.blocking, Layer.releasing, Locks.owner?_release, other]
  | clear => simp only [perform, asked, Demand.on, Action.map_apply, Layer.blocking,
      Action.onSecond_apply]
  | size => simp only [perform, asked, Demand.on, Action.total_apply, Layer.blocking, Store.below]
  | assign name value =>
    simp only [perform, asked, Demand.on, Action.map_apply]
    exact Layer.owner?_blocking_assign ..

theorem perform_of_other {owner : Thread} (asked : turn.demand = .get k)
    (own : s.1.owner? k = some owner) (other : owner ≠ turn.thread) :
    turn.perform s = ⟨.error (.lockTimeout turn.inner.id k.display
      (UInt64.ofNat (s.1.timeout.getD 0))), s⟩ := by
  simp only [perform, asked, Demand.on, Action.map_apply]
  rw [Layer.blocking_get_of_other _ _ _ _ _ own other]
  rfl

theorem exact_perform (turn : Turn τ) (h : s.1.Exact) : (turn.perform s).state.1.Exact := by
  obtain ⟨l, t⟩ := s
  unfold perform
  cases turn.demand with
  | put k e => simpa [Demand.on, Layer.blocking, Layer.releasing] using h.release turn.thread k
  | get k =>
    simpa [Demand.on] using Layer.exact_blocking_get turn.thread turn.inner k l t h
  | remove k => simpa [Demand.on, Layer.blocking, Layer.releasing] using h.release turn.thread k
  | clear => simpa [Demand.on, Layer.blocking] using h
  | size => simpa [Demand.on, Layer.blocking, Store.below] using h
  | assign name value =>
    simp only [Demand.on, Action.map_apply, Layer.blocking]
    split
    · cases Setting.word "timeout" value <;> exact h
    · exact h

theorem timed_perform (turn : Turn τ) (h : ∃ ms, s.1.timeout = some ms) :
    ∃ ms, (turn.perform s).state.1.timeout = some ms := by
  obtain ⟨l, t⟩ := s
  unfold perform
  cases turn.demand with
  | put k e => simpa [Demand.on, Layer.blocking, Layer.releasing] using h
  | get k => simpa [Demand.on, Layer.timeout_blocking_get] using h
  | remove k => simpa [Demand.on, Layer.blocking, Layer.releasing] using h
  | clear => simpa [Demand.on, Layer.blocking] using h
  | size => simpa [Demand.on, Layer.blocking, Store.below] using h
  | assign name value =>
    simp only [Demand.on, Action.map_apply, Layer.blocking]
    split
    · cases Setting.word "timeout" value with
      | error e => exact h
      | ok ms => exact ⟨ms, rfl⟩
    · exact h

theorem settles_of_lost {owner : Thread} (own : s.1.owner? k = some owner)
    (lost : (turn.perform s).state.1.owner? k ≠ some owner) :
    turn.thread = owner ∧ turn.Settles k s := by
  by_cases other : owner ≠ turn.thread
  · by_cases asked : turn.demand = .get k
    · rw [perform_of_other asked own other] at lost
      exact absurd own lost
    · by_cases settles : turn.Settles k s
      · rw [owner?_of_settles settles, own, if_neg fun same => other (Option.some.inj same)] at lost
        exact absurd rfl lost
      · rw [owner?_of_neither (fun miss => asked miss.1) settles] at lost
        exact absurd own lost
  · have same : owner = turn.thread := Classical.not_not.mp other
    refine ⟨same.symm, Classical.byContradiction fun unsettled => lost ?_⟩
    by_cases miss : turn.Misses k s
    · rw [owner?_of_misses miss, same]
    · rw [owner?_of_neither miss unsettled, own]

/-- Over a run a thread keeps its key, unless it settles it itself on the way. -/
theorem owned_or_settled {owner : Thread} (own : s.1.owner? k = some owner)
    (turns : List (Turn τ)) :
    (Action.played perform turns s).1.owner? k = some owner ∨ ∃ before turn after,
      turns = before ++ turn :: after ∧ turn.thread = owner ∧
        turn.Settles k (Action.played perform before s) := by
  induction turns using List.reverseRecOn with
  | nil => exact .inl own
  | append_singleton turns turn ih =>
    obtain kept | ⟨before, settling, after, rfl, his, settles⟩ := ih
    · rw [Action.played_concat]
      by_cases lost : (turn.perform (Action.played perform turns s)).state.1.owner? k = some owner
      · exact .inl lost
      · obtain ⟨his, settles⟩ := settles_of_lost kept lost
        exact .inr ⟨turns, turn, [], rfl, his, settles⟩
    · exact .inr ⟨before, settling, after ++ [turn], by simp, his, settles⟩

end Turn

/-- At most one thread populates a key. -/
structure SinglePopulator {τ : Type} (s : Locks × τ) : Prop where
  /-- The lock table holds the owned keys, each with its one owner, and no others. -/
  table : ∀ k, k ∈ s.1.byKey.keys ↔ ∃! thread, s.1.owner? k = some thread
  /-- The thread that looks a key up owns it after a miss, and only then. -/
  miss : ∀ (turn : Turn τ) k, turn.demand = .get k →
    ((turn.perform s).state.1.owner? k = some turn.thread ↔ turn.Misses k s)
  /-- A lookup of another thread's key times out and changes nothing. -/
  refused : ∀ (turn : Turn τ) k owner, turn.demand = .get k → s.1.owner? k = some owner →
    owner ≠ turn.thread → ∃ ms, s.1.timeout = some ms ∧
      turn.perform s =
        ⟨.error (.lockTimeout turn.inner.id k.display (UInt64.ofNat ms)), s⟩
  /-- Only its owner gives a key away, by settling it. -/
  lost : ∀ (turn : Turn τ) k owner, s.1.owner? k = some owner →
    (turn.perform s).state.1.owner? k ≠ some owner → turn.thread = owner ∧ turn.Settles k s
  /-- Before a second thread misses a key, the first one has settled it. -/
  apart : ∀ (first last : Turn τ) between k, first.Misses k s →
    last.Misses k (Action.played Turn.perform (first :: between) s) → first.thread ≠ last.thread →
    ∃ before turn after, between = before ++ turn :: after ∧ turn.thread = first.thread ∧
      turn.Settles k (Action.played Turn.perform (first :: before) s)

/-- On a blocking layer with a finite timeout, over whatever cache there is below, every run of
turns ends where each key has a single populator. -/
theorem single_populator {τ : Type} (timeout : Nat) (t : τ) (past : List (Turn τ)) :
    SinglePopulator (Action.played Turn.perform past (Locks.empty (some timeout), t)) := by
  have reached : (Action.played Turn.perform past (Locks.empty (some timeout), t)).1.Exact ∧
      ∃ ms, (Action.played Turn.perform past (Locks.empty (some timeout), t)).1.timeout =
        some ms := by
    induction past using List.reverseRecOn with
    | nil => exact ⟨Locks.exact_empty _, timeout, rfl⟩
    | append_singleton past turn ih =>
      rw [Action.played_concat]
      exact ⟨turn.exact_perform ih.1, turn.timed_perform ih.2⟩
  generalize Action.played Turn.perform past (Locks.empty (some timeout), t) = s at reached
  obtain ⟨exact, ms, timed⟩ := reached
  constructor
  case table => exact exact.mem_keys_iff
  case miss =>
    intro turn k asked
    refine ⟨fun own => Classical.byContradiction fun hit => ?_, Turn.owner?_of_misses⟩
    rw [Turn.owner?_of_settles (.inr (.inr ⟨asked, hit⟩))] at own
    split at own
    · cases own
    · rename_i other; exact other own
  case refused =>
    intro turn k owner asked own other
    refine ⟨ms, timed, ?_⟩
    rw [Turn.perform_of_other asked own other, timed, Option.getD_some]
  case lost => exact fun turn k owner => Turn.settles_of_lost
  case apart =>
    intro first last between k miss again other
    obtain kept | settled := Turn.owned_or_settled (Turn.owner?_of_misses miss) between
    · -- the second thread would have been refused
      obtain ⟨asked, found, result, -⟩ := again
      rw [Action.played_cons, Turn.perform_of_other asked kept other] at result
      cases result
    · exact settled

end StatementCache
