import StatementCache.Proofs.Overlay.Guarded

/-! What an overlay asks of its cache when the unit of work ends, and what becomes of it. The cache
is watched: every write is noted with its result, also one that fails. Whatever fails, the overlay
forgets everything, no missed key is passed over, and the caller hears of the first failure. -/
namespace StatementCache

open StatementCache.Action

inductive Write where
  | put (k : CacheKey) (e : Entry)
  | remove (k : CacheKey)
  | clear

structure Attempt where
  write : Write
  result : Except Fault Unit

variable {σ α : Type}

namespace Write

def on (store : Store σ) : Write → Action σ Unit
  | .put k e => store.put k e
  | .remove k => discard (store.remove k)
  | .clear => store.clear

def key? : Write → Option CacheKey
  | .put k _ | .remove k => some k
  | .clear => none

end Write

def noted (write : Write) (m : Action σ α) : Action (σ × List Attempt) α := fun (s, past) =>
  let done := m s
  ⟨done.result, (done.state, past ++ [⟨write, done.result.map fun _ => ()⟩])⟩

def Store.traced (store : Store σ) : Store (σ × List Attempt) :=
  { store.beside with
    put := fun k e => noted (.put k e) (store.put k e)
    remove := fun k => noted (.remove k) (store.remove k)
    clear := noted .clear store.clear }

def Directory.traced (directory : Directory σ) : Directory (σ × List Attempt) := fun ref s =>
  (directory ref s.1).map Store.traced

def tried (store : Store σ) : List Write → σ → List Attempt
  | [], _ => []
  | write :: writes, s =>
    let done := write.on store s
    ⟨write, done.result⟩ :: tried store writes done.state

def firstFault : List Attempt → Except Fault Unit
  | [] => .ok ()
  | a :: attempts => a.result.bind fun _ => firstFault attempts

theorem firstFault_eq_ok_iff {attempts : List Attempt} :
    firstFault attempts = .ok () ↔ ∀ a ∈ attempts, a.result = .ok () := by
  induction attempts with
  | nil => simp [firstFault]
  | cons a attempts ih =>
    obtain ⟨write, result⟩ := a
    cases result with
    | ok _ => simp [firstFault, Except.bind, ih]
    | error e => simp [firstFault, Except.bind]

theorem exists_of_firstFault_eq_error {attempts : List Attempt} {e : Fault}
    (h : firstFault attempts = .error e) : ∃ a ∈ attempts, a.result = .error e := by
  induction attempts with
  | nil => cases h
  | cons a attempts ih =>
    obtain ⟨write, result⟩ := a
    cases result with
    | error e' => exact ⟨_, List.mem_cons_self, h⟩
    | ok _ =>
      obtain ⟨a, mem, failed⟩ := ih h
      exact ⟨a, List.mem_cons_of_mem _ mem, failed⟩

theorem map_write_tried (store : Store σ) (writes : List Write) (s : σ) :
    (tried store writes s).map (·.write) = writes := by
  induction writes generalizing s with
  | nil => rfl
  | cons write writes ih => rw [tried, List.map_cons, ih]

theorem exists_tried_of_mem (store : Store σ) {writes : List Write} {write : Write}
    (mem : write ∈ writes) (s : σ) : ∃ a ∈ tried store writes s, a.write = write := by
  rw [← map_write_tried store writes s] at mem
  exact List.mem_map.mp mem

theorem write_mem_of_tried {store : Store σ} {writes : List Write} {s : σ} {a : Attempt}
    (mem : a ∈ tried store writes s) : a.write ∈ writes := by
  rw [← map_write_tried store writes s]
  exact List.mem_map_of_mem mem

theorem on_traced (store : Store σ) (write : Write) (s : σ) (past : List Attempt) :
    write.on store.traced (s, past) =
      ⟨(write.on store s).result,
        ((write.on store s).state, past ++ [⟨write, (write.on store s).result⟩])⟩ := by
  have same (r : Except Fault Unit) : r.map (fun _ => ()) = r := by cases r <;> rfl
  cases write with
  | put k e => simp [Write.on, Store.traced, noted, same]
  | remove k => simp [Write.on, Store.traced, noted]
  | clear => simp [Write.on, Store.traced, noted, same]

/-- Being watched changes neither the result nor the state. -/
theorem all_traced (store : Store σ) (writes : List Write) (s : σ) (past : List Attempt) :
    all (writes.map (·.on store.traced)) (s, past) =
      ⟨(all (writes.map (·.on store)) s).result,
        ((all (writes.map (·.on store)) s).state, past ++ tried store writes s)⟩ := by
  induction writes generalizing s past with
  | nil => simp [all, tried]
  | cons write writes ih => simp [all, both, tried, on_traced, ih]

theorem result_all (store : Store σ) (writes : List Write) (s : σ) :
    (all (writes.map (·.on store)) s).result = firstFault (tried store writes s) := by
  induction writes generalizing s with
  | nil => rfl
  | cons write writes ih => simp only [List.map_cons, all, both, tried, firstFault, ih]

namespace Overlay

inductive Ending where
  | commit
  | rollback

def Ending.run (directory : Directory σ) : Ending → Action (Overlay × σ) Unit
  | .commit => Overlay.commit directory
  | .rollback => Overlay.rollback directory

def Ending.work (o : Overlay) (store : Store σ) : Ending → Action σ Unit
  | .commit => o.publish store
  | .rollback => o.releaseMissed store

def puts (o : Overlay) : List Write := o.writes.map fun p => .put p.1 p.2

def releases (o : Overlay) : List Write := o.missed.map .remove

def publishing (o : Overlay) (store : Store σ) (s : σ) : List Attempt :=
  if o.clearOnCommit then
    let cleared := store.clear s
    ⟨.clear, cleared.result⟩ :: match cleared.result with
      | .ok _ => tried store o.puts cleared.state
      | .error _ => tried store o.releases cleared.state
  else tried store o.puts s

def Ending.attempts (o : Overlay) (store : Store σ) (s : σ) : Ending → List Attempt
  | .commit => o.publishing store s
  | .rollback => tried store o.releases s

/-- The writes that the end of a unit of work calls for. -/
def Ending.due (o : Overlay) : Ending → List Write
  | .commit => (if o.clearOnCommit then [.clear] else []) ++ o.puts
  | .rollback => o.releases

/-- What is owed to the cache and to the caller, whichever of the attempts failed. -/
structure Discharged (o : Overlay) (ending : Ending) (attempts : List Attempt)
    (result : Except Fault Unit) : Prop where
  /-- A blocking layer locks a missed key until it is written or removed. -/
  missed : ∀ k ∈ o.missed, ∃ a ∈ attempts, a.write.key? = some k
  /-- After a failed clear nothing is written over the old entries. -/
  halted : ∀ e, ⟨.clear, .error e⟩ ∈ attempts →
    result = .error e ∧ ∀ a ∈ attempts, ∀ k f, a.write ≠ .put k f
  due : (∀ e, ⟨.clear, .error e⟩ ∉ attempts) → attempts.map (·.write) = ending.due o
  ok_iff : result = .ok () ↔ ∀ a ∈ attempts, a.result = .ok ()
  blamed : ∀ e, result = .error e → ∃ a ∈ attempts, a.result = .error e

variable {o : Overlay} {store : Store σ} {directory : Directory σ}

theorem flush_eq_all (o : Overlay) (store : Store σ) :
    o.flush store = all (o.puts.map (·.on store)) := by
  rw [flush_eq, puts, List.map_map]
  rfl

theorem releaseMissed_eq_all (o : Overlay) (store : Store σ) :
    o.releaseMissed store = all (o.releases.map (·.on store)) := by
  rw [releaseMissed, releases, List.map_map]
  rfl

theorem publish_of_clear {s s' : σ} (clears : o.clearOnCommit = true)
    (cleared : store.clear s = ⟨.ok (), s'⟩) : o.publish store s = o.flush store s' := by
  simp [publish, clears, bind_apply, cleared]

theorem publish_of_clear_error {s s' : σ} {e : Fault} (clears : o.clearOnCommit = true)
    (cleared : store.clear s = ⟨.error e, s'⟩) :
    o.publish store s = ⟨.error e, (o.releaseMissed store s').state⟩ := by
  simp only [publish, clears, if_true, bind_apply, attempt_apply, cleared, discard_apply,
    Except.map, fail_apply]

theorem publish_of_not_clear (clears : o.clearOnCommit = false) :
    o.publish store = o.flush store := by
  simp [publish, clears]

theorem publishing_of_clear {s s' : σ} (clears : o.clearOnCommit = true)
    (cleared : store.clear s = ⟨.ok (), s'⟩) :
    o.publishing store s = ⟨.clear, .ok ()⟩ :: tried store o.puts s' := by
  simp only [publishing, clears, if_true, cleared]

theorem publishing_of_clear_error {s s' : σ} {e : Fault} (clears : o.clearOnCommit = true)
    (cleared : store.clear s = ⟨.error e, s'⟩) :
    o.publishing store s = ⟨.clear, .error e⟩ :: tried store o.releases s' := by
  simp only [publishing, clears, if_true, cleared]

theorem publishing_of_not_clear (clears : o.clearOnCommit = false) (s : σ) :
    o.publishing store s = tried store o.puts s := by
  simp only [publishing, clears, Bool.false_eq_true, if_false]

theorem publish_traced (o : Overlay) (store : Store σ) (s : σ) (past : List Attempt) :
    o.publish store.traced (s, past) =
      ⟨(o.publish store s).result,
        ((o.publish store s).state, past ++ o.publishing store s)⟩ := by
  cases clears : o.clearOnCommit with
  | false =>
    simp only [publish_of_not_clear clears, flush_eq_all, all_traced,
      publishing_of_not_clear clears]
  | true =>
    have watched := on_traced store .clear s past
    simp only [Write.on] at watched
    rcases cleared : store.clear s with ⟨e | _, s'⟩ <;> rw [cleared] at watched
    · rw [publish_of_clear_error clears cleared, publish_of_clear_error clears watched,
        publishing_of_clear_error clears cleared, releaseMissed_eq_all, releaseMissed_eq_all,
        all_traced, List.append_assoc, List.singleton_append]
    · rw [publish_of_clear clears cleared, publish_of_clear clears watched,
        publishing_of_clear clears cleared, flush_eq_all, flush_eq_all, all_traced,
        List.append_assoc, List.singleton_append]

theorem work_traced (o : Overlay) (store : Store σ) (ending : Ending) (s : σ)
    (past : List Attempt) :
    ending.work o store.traced (s, past) =
      ⟨(ending.work o store s).result,
        ((ending.work o store s).state, past ++ ending.attempts o store s)⟩ := by
  cases ending with
  | commit => exact publish_traced o store s past
  | rollback => simp only [Ending.work, Ending.attempts, releaseMissed_eq_all, all_traced]

theorem result_work (o : Overlay) (store : Store σ) (ending : Ending) (s : σ) :
    (ending.work o store s).result = firstFault (ending.attempts o store s) := by
  cases ending with
  | rollback => simp only [Ending.work, Ending.attempts, releaseMissed_eq_all, result_all]
  | commit =>
    simp only [Ending.work, Ending.attempts]
    cases clears : o.clearOnCommit with
    | false =>
      rw [publish_of_not_clear clears, publishing_of_not_clear clears, flush_eq_all, result_all]
    | true =>
      rcases cleared : store.clear s with ⟨e | _, s'⟩
      · rw [publish_of_clear_error clears cleared, publishing_of_clear_error clears cleared]
        rfl
      · rw [publish_of_clear clears cleared, publishing_of_clear clears cleared, flush_eq_all,
          result_all]
        rfl

theorem run_of_none {s : σ} (gone : directory o.target s = none) (ending : Ending) :
    ending.run directory (o, s) = ⟨.error o.unavailable, (o.reset, s)⟩ := by
  cases ending <;> simp [Ending.run, Overlay.commit, Overlay.rollback, settle, gone]

theorem run_of_some {s : σ} (found : directory o.target s = some store) (ending : Ending) :
    ending.run directory (o, s) =
      ⟨(ending.work o store s).result, (o.reset, (ending.work o store s).state)⟩ := by
  cases ending <;> simp [Ending.run, Ending.work, Overlay.commit, Overlay.rollback, settle, found]

theorem exists_key_puts {k : CacheKey} (missed : k ∈ o.missed) :
    ∃ write ∈ o.puts, write.key? = some k := by
  have written : ∃ e, (k, e) ∈ o.writes := by
    cases buffered : o.pending.get? k with
    | some e => exact ⟨e, mem_writes_iff.mpr (.inl buffered)⟩
    | none => exact ⟨.placeholder, mem_writes_iff.mpr (.inr ⟨buffered, missed, rfl⟩)⟩
  obtain ⟨e, mem⟩ := written
  exact ⟨.put k e, List.mem_map_of_mem mem, rfl⟩

theorem exists_key_releases {k : CacheKey} (missed : k ∈ o.missed) :
    ∃ write ∈ o.releases, write.key? = some k :=
  ⟨.remove k, List.mem_map_of_mem missed, rfl⟩

theorem clear_not_mem_puts (o : Overlay) : Write.clear ∉ o.puts := by simp [puts]

theorem clear_not_mem_releases (o : Overlay) : Write.clear ∉ o.releases := by simp [releases]

theorem put_not_mem_releases (o : Overlay) (k : CacheKey) (e : Entry) :
    Write.put k e ∉ o.releases := by simp [releases]

theorem remove_not_mem_due (o : Overlay) (k : CacheKey) :
    Write.remove k ∉ Ending.commit.due o := by
  simp only [Ending.due, puts]
  split <;> simp

theorem exists_attempt_of_key {writes : List Write} {k : CacheKey}
    (there : ∃ write ∈ writes, write.key? = some k) (store : Store σ) (s : σ) :
    ∃ a ∈ tried store writes s, a.write.key? = some k := by
  obtain ⟨write, mem, key⟩ := there
  obtain ⟨a, attempted, rfl⟩ := exists_tried_of_mem store mem s
  exact ⟨a, attempted, key⟩

theorem missed_attempts (o : Overlay) (store : Store σ) (ending : Ending) (s : σ) {k : CacheKey}
    (missed : k ∈ o.missed) : ∃ a ∈ ending.attempts o store s, a.write.key? = some k := by
  cases ending with
  | rollback => exact exists_attempt_of_key (exists_key_releases missed) store s
  | commit =>
    simp only [Ending.attempts]
    cases clears : o.clearOnCommit with
    | false =>
      rw [publishing_of_not_clear clears]
      exact exists_attempt_of_key (exists_key_puts missed) store s
    | true =>
      rcases cleared : store.clear s with ⟨e | _, s'⟩
      · obtain ⟨a, mem, key⟩ := exists_attempt_of_key (exists_key_releases missed) store s'
        rw [publishing_of_clear_error clears cleared]
        exact ⟨a, List.mem_cons_of_mem _ mem, key⟩
      · obtain ⟨a, mem, key⟩ := exists_attempt_of_key (exists_key_puts missed) store s'
        rw [publishing_of_clear clears cleared]
        exact ⟨a, List.mem_cons_of_mem _ mem, key⟩

theorem clear_error_of_mem {s : σ} {e : Fault}
    (failed : ⟨.clear, .error e⟩ ∈ o.publishing store s) :
    o.clearOnCommit = true ∧ ∃ s', store.clear s = ⟨.error e, s'⟩ := by
  cases clears : o.clearOnCommit with
  | false =>
    rw [publishing_of_not_clear clears] at failed
    exact absurd (write_mem_of_tried failed) (clear_not_mem_puts o)
  | true =>
    rcases cleared : store.clear s with ⟨e' | _, s'⟩
    · rw [publishing_of_clear_error clears cleared] at failed
      rcases List.mem_cons.mp failed with same | later
      · cases same
        exact ⟨rfl, s', rfl⟩
      · exact absurd (write_mem_of_tried later) (clear_not_mem_releases o)
    · rw [publishing_of_clear clears cleared] at failed
      rcases List.mem_cons.mp failed with same | later
      · cases same
      · exact absurd (write_mem_of_tried later) (clear_not_mem_puts o)

theorem attempts_of_clear_error {ending : Ending} {s : σ} {e : Fault}
    (failed : ⟨.clear, .error e⟩ ∈ ending.attempts o store s) :
    ∃ s', ending.attempts o store s = ⟨.clear, .error e⟩ :: tried store o.releases s' := by
  cases ending with
  | rollback => exact absurd (write_mem_of_tried failed) (clear_not_mem_releases o)
  | commit =>
    obtain ⟨clears, s', cleared⟩ := clear_error_of_mem failed
    exact ⟨s', publishing_of_clear_error clears cleared⟩

theorem map_write_attempts {ending : Ending} {s : σ}
    (cleared : ∀ e, ⟨.clear, .error e⟩ ∉ ending.attempts o store s) :
    (ending.attempts o store s).map (·.write) = ending.due o := by
  cases ending with
  | rollback => exact map_write_tried store o.releases s
  | commit =>
    simp only [Ending.attempts, Ending.due] at cleared ⊢
    cases clears : o.clearOnCommit with
    | false => rw [publishing_of_not_clear clears, map_write_tried]; rfl
    | true =>
      rcases done : store.clear s with ⟨e | _, s'⟩
      · rw [publishing_of_clear_error clears done] at cleared
        exact absurd List.mem_cons_self (cleared e)
      · rw [publishing_of_clear clears done, List.map_cons, map_write_tried]
        rfl

theorem discharged_attempts (o : Overlay) (store : Store σ) (ending : Ending) (s : σ) :
    o.Discharged ending (ending.attempts o store s) (ending.work o store s).result := by
  rw [result_work]
  refine ⟨fun k => missed_attempts o store ending s, fun e failed => ?_, map_write_attempts,
    firstFault_eq_ok_iff, fun e => exists_of_firstFault_eq_error⟩
  obtain ⟨s', shape⟩ := attempts_of_clear_error failed
  rw [shape]
  refine ⟨rfl, fun a mem k f same => ?_⟩
  rcases List.mem_cons.mp mem with rfl | later
  · cases same
  · exact put_not_mem_releases o k f (same ▸ write_mem_of_tried later)

/-- The end of a unit of work, whatever has been asked of the overlay and whichever operations of
the cache fail: nothing stays buffered, and if somebody still owns the cache, what is owed to it and
to the caller is done. The attempts are those of the watched cache, which does the same. -/
theorem run_discharges (directory : Directory σ) (o : Overlay) (s : σ) (ending : Ending) :
    let done := ending.run directory (o, s)
    let watched := ending.run directory.traced (o, (s, []))
    done.state.1.pending = .empty ∧ done.state.1.missed = [] ∧
      done.state.1.clearOnCommit = false ∧
      watched.result = done.result ∧ watched.state.1 = done.state.1 ∧
      watched.state.2.1 = done.state.2 ∧
      match directory o.target s with
      | none => done.result = .error o.unavailable ∧ watched.state.2.2 = []
      | some _ => o.Discharged ending watched.state.2.2 done.result := by
  intro done watched
  cases there : directory o.target s with
  | none =>
    have gone : directory.traced o.target (s, []) = none := by simp [Directory.traced, there]
    have ran : done = ⟨.error o.unavailable, (o.reset, s)⟩ := run_of_none there ending
    have ran' : watched = ⟨.error o.unavailable, (o.reset, (s, []))⟩ := run_of_none gone ending
    rw [ran, ran']
    exact ⟨rfl, rfl, rfl, rfl, rfl, rfl, rfl, rfl⟩
  | some store =>
    have found : directory.traced o.target (s, []) = some store.traced := by
      simp [Directory.traced, there]
    have ran : done = _ := run_of_some there ending
    have ran' : watched = _ := run_of_some found ending
    rw [work_traced, List.nil_append] at ran'
    rw [ran, ran']
    exact ⟨rfl, rfl, rfl, rfl, rfl, rfl, discharged_attempts o store ending s⟩

end Overlay
end StatementCache
