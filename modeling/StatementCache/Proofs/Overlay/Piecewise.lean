import StatementCache.Proofs.Contents.Maps
import StatementCache.Proofs.Contents.Piecewise
import StatementCache.Proofs.Overlay.Attempts

/-! A commit that fails. The writes of an overlay are published one by one, each for itself, so
what fails in the middle leaves the cache between what it was and what it was to become. -/
namespace StatementCache

open StatementCache.Action Function World Store

/-- How the entries of a cache come about from those it had before some writes: a key has the value
of a write that succeeded, or what it had when none did. Nothing else gets in, and entries go where
the layers let them go. -/
def Chain.Accounts (c : Chain) (base : CacheKey → Option Entry) (attempts : List Attempt)
    (after : CacheKey → Option Entry) : Prop :=
  ∀ k, (∃ e f r, ⟨.put k e, r⟩ ∈ attempts ∧ (c.Tears ∨ r = .ok ()) ∧ c.stored e = .ok f ∧
      after k = some f) ∨
    ((∀ e, ⟨.put k e, .ok ()⟩ ∉ attempts) ∧ after k = base k) ∨ (c.Evicts ∧ after k = none)

variable {c : Chain} {base now after : CacheKey → Option Entry} {attempts : List Attempt}

namespace Chain.Accounts

theorem refl (c : Chain) (base : CacheKey → Option Entry)
    (attempts : List Attempt) (none : ∀ k e, ⟨.put k e, .ok ()⟩ ∉ attempts) :
    c.Accounts base attempts base := fun k => .inr (.inl ⟨none k, rfl⟩)

theorem follows (h : c.Accounts base attempts now) (losing : Follows (fun _ => c.Evicts) now after) :
    c.Accounts base attempts after := by
  intro k
  rcases losing k with same | gone
  · rw [same]
    exact h k
  · exact .inr (.inr gone)

theorem failed (h : c.Accounts base attempts now) (write : Write) (e : Fault) :
    c.Accounts base (attempts ++ [⟨write, .error e⟩]) now := by
  intro k
  rcases h k with ⟨x, f, r, tried, came, form, there⟩ | ⟨none, same⟩ | gone
  · exact .inl ⟨x, f, r, List.mem_append_left _ tried, came, form, there⟩
  · refine .inr (.inl ⟨fun x mem => ?_, same⟩)
    rcases List.mem_append.mp mem with before | last
    · exact none x before
    · cases List.mem_singleton.mp last
  · exact .inr (.inr gone)

theorem put (h : c.Accounts base attempts now) {k : CacheKey} {e f : Entry}
    {r : Except Fault Unit} (form : c.stored e = .ok f) (came : c.Tears ∨ r = .ok ()) :
    c.Accounts base (attempts ++ [⟨.put k e, r⟩]) (update now k (some f)) := by
  intro j
  by_cases same : j = k
  · subst same
    rw [update_self]
    exact .inl ⟨e, f, r, List.mem_append_right _ List.mem_cons_self, came, form, rfl⟩
  · rw [update_of_ne same]
    rcases h j with ⟨x, f, r, tried, came, form, there⟩ | ⟨none, kept⟩ | gone
    · exact .inl ⟨x, f, r, List.mem_append_left _ tried, came, form, there⟩
    · refine .inr (.inl ⟨fun x mem => ?_, kept⟩)
      rcases List.mem_append.mp mem with before | last
      · exact none x before
      · cases List.mem_singleton.mp last
        exact same rfl
    · exact .inr (.inr gone)

end Chain.Accounts

namespace World

variable {w : World} {ref : CacheRef}

theorem onCache_of_found {α : Type} {s : c.State} (found : w.caches.get? ref.serial = some ⟨c, s⟩)
    (m : (d : Cache) → Action (d.chain.State × World) α) :
    let done := m ⟨c, s⟩ (s, w)
    (onCache ref m w).result = done.result ∧
      (onCache ref m w).state.contents ref.serial = (c.entries done.state.1).get? ∧
      (onCache ref m w).state.shape ref.serial = some c := by
  intro done
  have ran : onCache ref m w =
      ⟨done.result, { done.state.2 with
        caches := done.state.2.caches.insert ref.serial ⟨c, done.state.1⟩ }⟩ := by
    simp only [onCache, found, done]
  rw [ran]
  refine ⟨rfl, funext fun k => ?_, ?_⟩
  · simp only [contents, Table.get?_insert, if_true, Option.bind_some]
    rfl
  · simp only [shape, Table.get?_insert, if_true, Option.map_some]

theorem reports_siteAt (host : Host) (depth : Nat) (e : Event) :
    Succeeds ((siteAt host depth).note e) := by
  cases depth <;> exact Succeeds.modify _

abbrev heldIn (ref : CacheRef) (w : World) : CacheKey → Option Entry := w.contents ref.serial

section

variable (host : Host) (own : c.target? = none)

include own

theorem put_piecewise (shaped : w.shape ref.serial = some c) (k : CacheKey) (e : Entry) :
    let done := (store host ref).put k e w
    done.state.shape ref.serial = some c ∧
      Written (heldIn ref) c.Evicts c.Tears k (c.stored e) (w.contents ref.serial) done.result
        done.state := by
  obtain ⟨s, found, held⟩ := found_of_shape shaped
  have piecewise := c.piecewise_store (siteAt host ref.serial) (reports_siteAt host _) own
  have put := piecewise.put k e _ (s, w) (Follows.refl _ _)
  obtain ⟨result, contents, shape⟩ :=
    onCache_of_found found fun d => (d.chain.store (siteAt host ref.serial)).put k e
  refine ⟨shape, ?_⟩
  change Written _ _ _ _ _ _ (onCache ref _ w).result (onCache ref _ w).state
  rw [result]
  simpa only [Written, Losing, heldIn, contents, held] using put

theorem remove_piecewise (shaped : w.shape ref.serial = some c) (k : CacheKey) :
    let done := (store host ref).remove k w
    done.state.shape ref.serial = some c ∧
      Follows (fun j => j = k ∨ c.Evicts) (w.contents ref.serial)
        (done.state.contents ref.serial) := by
  obtain ⟨s, found, held⟩ := found_of_shape shaped
  have piecewise := c.piecewise_store (siteAt host ref.serial) (reports_siteAt host _) own
  have remove := piecewise.remove k _ (s, w) (Follows.refl _ _)
  obtain ⟨-, contents, shape⟩ :=
    onCache_of_found found fun d => (d.chain.store (siteAt host ref.serial)).remove k
  refine ⟨shape, ?_⟩
  change Follows _ _ ((onCache ref _ w).state.contents _)
  rw [contents, held]
  exact remove

theorem clear_piecewise (shaped : w.shape ref.serial = some c) :
    let done := (store host ref).clear w
    done.state.shape ref.serial = some c ∧
      Cleared (heldIn ref) c.Evicts (w.contents ref.serial) done.result done.state := by
  obtain ⟨s, found, held⟩ := found_of_shape shaped
  have piecewise := c.piecewise_store (siteAt host ref.serial) (reports_siteAt host _) own
  have clear := piecewise.clear _ (s, w) (Follows.refl _ _)
  obtain ⟨result, contents, shape⟩ :=
    onCache_of_found found fun d => (d.chain.store (siteAt host ref.serial)).clear
  refine ⟨shape, ?_⟩
  change Cleared _ _ _ (onCache ref _ w).result (onCache ref _ w).state
  rw [result]
  simpa only [Cleared, Losing, heldIn, contents, held] using clear

end

end World

namespace Overlay

variable {w : World} {ref : CacheRef} {o : Overlay}

section

variable (host : Host) (own : c.target? = none)

include own

theorem accounts_all (writes : List (CacheKey × Entry)) (past : List Attempt)
    (shaped : w.shape ref.serial = some c) (account : c.Accounts base past (w.contents ref.serial)) :
    let puts := writes.map fun p => Write.put p.1 p.2
    c.Accounts base (past ++ tried (store host ref) puts w)
      ((all (puts.map (·.on (store host ref))) w).state.contents ref.serial) := by
  induction writes generalizing w past with
  | nil => simpa [tried, all] using account
  | cons p writes ih =>
    obtain ⟨shaped', written⟩ := put_piecewise host own shaped p.1 p.2
    have next : c.Accounts base
        (past ++ [⟨.put p.1 p.2, ((store host ref).put p.1 p.2 w).result⟩])
        (((store host ref).put p.1 p.2 w).state.contents ref.serial) := by
      rcases written with ⟨f, form, came, losing⟩ | ⟨⟨e, failed⟩, losing⟩
      · exact (account.put form (came.imp_right Exists.choose_spec)).follows losing
      · rw [failed]
        exact (account.failed _ e).follows losing
    have rest := ih _ shaped' next
    dsimp only at rest
    rw [List.append_assoc] at rest
    exact rest

theorem accounts_flush (past : List Attempt) (shaped : w.shape ref.serial = some c)
    (account : c.Accounts base past (w.contents ref.serial)) :
    c.Accounts base (past ++ tried (store host ref) o.puts w)
      ((o.flush (store host ref) w).state.contents ref.serial) := by
  rw [flush_eq_all]
  exact accounts_all host own o.writes past shaped account

theorem follows_releaseMissed (shaped : w.shape ref.serial = some c) :
    Follows (fun k => k ∈ o.missed ∨ c.Evicts) (w.contents ref.serial)
      ((o.releaseMissed (store host ref) w).state.contents ref.serial) := by
  have kept : Keeps (fun v => v.shape ref.serial = some c ∧
      Follows (fun k => k ∈ o.missed ∨ c.Evicts) (w.contents ref.serial) (v.contents ref.serial))
      (o.releaseMissed (store host ref)) := by
    refine Keeps.all fun m mem => ?_
    obtain ⟨k, missed, rfl⟩ := List.mem_map.mp mem
    refine Keeps.discard fun v ⟨shaped, follows⟩ => ?_
    obtain ⟨shaped', removed⟩ := remove_piecewise host own shaped k
    exact ⟨shaped', follows.trans (removed.mono fun _ => Or.imp_left fun same => same ▸ missed)⟩
  exact (kept w ⟨shaped, Follows.refl _ _⟩).2

theorem follows_publish_of_clear_error {e : Fault} {w' : World}
    (shaped : w.shape ref.serial = some c) (clears : o.clearOnCommit = true)
    (cleared : (store host ref).clear w = ⟨.error e, w'⟩) :
    Follows (fun k => k ∈ o.missed ∨ c.Evicts) (w.contents ref.serial)
      ((o.publish (store host ref) w).state.contents ref.serial) := by
  obtain ⟨shaped', done⟩ := clear_piecewise host own shaped
  rw [cleared] at shaped' done
  have failed : Follows (fun _ => c.Evicts) (w.contents ref.serial) (w'.contents ref.serial) := by
    rcases done with ⟨⟨_, ok⟩, -⟩ | ⟨-, losing⟩
    · cases ok
    · exact losing
  rw [publish_of_clear_error clears cleared]
  exact (failed.mono fun _ => .inr).trans (follows_releaseMissed host own shaped')

theorem accounts_publish (shaped : w.shape ref.serial = some c)
    (cleared : ∀ e, ⟨.clear, .error e⟩ ∉ o.publishing (store host ref) w) :
    c.Accounts (if o.clearOnCommit then fun _ => none else w.contents ref.serial)
      (o.publishing (store host ref) w)
      ((o.publish (store host ref) w).state.contents ref.serial) := by
  cases clears : o.clearOnCommit with
  | false =>
    have account := accounts_flush (o := o) host own [] shaped
      (Chain.Accounts.refl c (w.contents ref.serial) [] fun _ _ => List.not_mem_nil)
    rw [publish_of_not_clear clears, publishing_of_not_clear clears]
    exact account
  | true =>
    obtain ⟨shaped', done⟩ := clear_piecewise host own shaped
    rcases ran : (store host ref).clear w with ⟨e | _, w'⟩
    · rw [publishing_of_clear_error clears ran] at cleared
      exact absurd List.mem_cons_self (cleared e)
    · rw [ran] at shaped' done
      have empty : w'.contents ref.serial = fun _ => none := by
        rcases done with ⟨-, empty⟩ | ⟨⟨_, failed⟩, -⟩
        · exact funext empty
        · cases failed
      have start : c.Accounts (fun _ => none) [⟨.clear, .ok ()⟩] (w'.contents ref.serial) := by
        rw [empty]
        exact Chain.Accounts.refl c _ _ fun _ _ mem => by cases List.mem_singleton.mp mem
      have account := accounts_flush (o := o) host own _ shaped' start
      rw [publish_of_clear clears ran, publishing_of_clear clears ran]
      exact account

end

/-- A commit that fails, over any cache with a map of its own. Either there is no cache any more, or
the deferred clear has failed and nothing was written, or every write was tried for itself and the
entries are those that the successful ones account for. -/
theorem failed_commit_accounts (host : Host) (o : Overlay) (w : World) {e : Fault}
    (own : ∀ c, w.shape o.target.serial = some c → c.target? = none)
    (failed : (commit (World.find? host) (o, w)).result = .error e) :
    let left := (commit (World.find? host) (o, w)).state.2
    let attempts := (commit (Directory.traced (World.find? host)) (o, (w, []))).state.2.2
    match w.shape o.target.serial with
    | none => e = o.unavailable ∧ left = w
    | some c =>
      (⟨.clear, .error e⟩ ∈ attempts ∧
        Follows (fun k => k ∈ o.missed ∨ c.Evicts) (w.contents o.target.serial)
          (left.contents o.target.serial)) ∨
      (attempts.map (·.write) = Ending.commit.due o ∧ (∃ k x, ⟨.put k x, .error e⟩ ∈ attempts) ∧
        c.Accounts (if o.clearOnCommit then fun _ => none else w.contents o.target.serial) attempts
          (left.contents o.target.serial)) := by
  intro left attempts
  cases shaped : w.shape o.target.serial with
  | none =>
    have gone : w.caches.get? o.target.serial = none := by
      simpa only [shape, Option.map_eq_none_iff] using shaped
    have ran : commit (World.find? host) (o, w) = ⟨.error o.unavailable, (o.reset, w)⟩ :=
      run_of_none (World.find?_of_none gone host) .commit
    rw [ran] at failed
    cases failed
    exact ⟨rfl, congrArg (·.state.2) ran⟩
  | some c =>
    have own := own c shaped
    obtain ⟨s, there, -⟩ := found_of_shape shaped
    have found : World.find? host o.target w = some (store host o.target) :=
      World.find?_of_some there host
    have found' : Directory.traced (World.find? host) o.target (w, []) =
        some (store host o.target).traced := by
      simp only [Directory.traced, found, Option.map_some]
    have ran : commit (World.find? host) (o, w) = _ := run_of_some found .commit
    have ran' : commit (Directory.traced (World.find? host)) (o, (w, [])) = _ :=
      run_of_some found' .commit
    have watched : attempts = o.publishing (store host o.target) w := by
      simp only [attempts, ran', work_traced, List.nil_append]
      rfl
    have published : left = (o.publish (store host o.target) w).state := congrArg (·.state.2) ran
    have discharged : o.Discharged .commit attempts (.error e) := by
      rw [watched, ← failed, ran]
      exact discharged_attempts o (store host o.target) .commit w
    by_cases refused : ∃ e', ⟨.clear, .error e'⟩ ∈ attempts
    · obtain ⟨e', mem⟩ := refused
      cases (discharged.halted e' mem).1
      obtain ⟨clears, w', cleared⟩ := clear_error_of_mem (watched ▸ mem)
      refine .inl ⟨mem, ?_⟩
      rw [published]
      exact follows_publish_of_clear_error host own shaped clears cleared
    · have cleared : ∀ e', ⟨.clear, .error e'⟩ ∉ attempts := fun e' mem => refused ⟨e', mem⟩
      have due := discharged.due cleared
      refine .inr ⟨due, ?_, ?_⟩
      · obtain ⟨⟨write, _⟩, mem, rfl⟩ := discharged.blamed e rfl
        have called : write ∈ Ending.commit.due o := due ▸ List.mem_map_of_mem mem
        cases write with
        | put k x => exact ⟨k, x, mem⟩
        | clear => exact absurd mem (cleared e)
        | remove k => exact absurd called (remove_not_mem_due o k)
      · rw [published, watched]
        rw [watched] at cleared
        exact accounts_publish host own shaped cleared

def copying (n : Int64) : World :=
  let entries : Entries := Table.empty.insert (.ofValues [.integer n])
    (.snapshot (Snapshot.ofRows [[.integer n]]))
  { World.empty with
    caches := Table.empty.insert 0 ⟨.serialized (.base "users"), entries⟩
    nextSerial := 1 }

def mixed : Overlay :=
  ((fresh ⟨0, "users"⟩).clear.put (.ofValues [.integer 1]) (.rows [[.integer 1]])).put
    (.ofValues [.integer 2]) (.handle ⟨0, "h"⟩)

/-- The map takes copies only and refuses the handle. -/
theorem failed_commit_accounts_of_handle :
    let host : Host := ⟨0, 0, fun _ _ => false⟩
    let done := commit (World.find? host) (mixed, copying 3)
    let attempts := (commit (Directory.traced (World.find? host)) (mixed, (copying 3, []))).state.2.2
    (copying 3).shape 0 = some (.serialized (.base "users")) ∧ (∃ e, done.result = .error e) ∧
      (Chain.serialized (.base "users")).Accounts (fun _ => none) attempts
        (done.state.2.contents 0) := by
  intro host done attempts
  have own : ∀ c, (copying 3).shape 0 = some c → c.target? = none := by
    rintro c ⟨⟩
    rfl
  have failed : done.result = .error (.notSerializable _) := rfl
  have tried : attempts = [⟨.clear, .ok ()⟩, ⟨.put _ _, .ok ()⟩, ⟨.put _ _, .error _⟩] := rfl
  refine ⟨rfl, ⟨_, failed⟩, ?_⟩
  rcases failed_commit_accounts host mixed (copying 3) own failed with ⟨refused, -⟩ | ⟨-, -, account⟩
  · have among : ⟨.clear, .error _⟩ ∈ attempts := refused
    rw [tried] at among
    simp at among
  · exact account

/-- The clear and one of the two writes are done, the other write fails: what was held is gone, and
one of the buffered values is there. -/
theorem commit_not_atomic :
    let host : Host := ⟨0, 0, fun _ _ => false⟩
    let found (w : World) (n : Int64) :=
      ((World.store host ⟨0, "users"⟩).get (.ofValues [.integer n]) w).result
    let done := commit (World.find? host) (mixed, copying 3)
    (∃ e, done.result = .error e) ∧ found (copying 3) 3 = .ok (some (.rows [[.integer 3]])) ∧
      found done.state.2 3 = .ok none ∧ found done.state.2 1 = .ok (some (.rows [[.integer 1]])) := by
  intro host found done
  have half : done.state.2 = copying 1 := rfl
  rw [half]
  refine ⟨⟨.notSerializable _, rfl⟩, ?_, rfl, ?_⟩
  · cbv
  · cbv

end Overlay
end StatementCache
