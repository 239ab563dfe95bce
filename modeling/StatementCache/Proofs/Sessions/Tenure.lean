import StatementCache.Proofs.Locks.Accounts
import StatementCache.Proofs.Sessions.Effects
import StatementCache.Proofs.Sessions.OwnReads

/-! How long a session's thread owns keys of shared caches. While a unit of work lasts, every key
that its lookups have left to the thread is noted in its overlays, and with the end of the unit of
work the thread owns none of them, whatever the database and the caches answer. -/
namespace StatementCache

open StatementCache.Action

namespace Executor

open Overlays

variable {e : Executor} {w : World} (ctx : Context)

theorem givenUp_alone {thread : Thread} {r : Runner} {w w' : World} (same : w'.caches = w.caches) :
    GivenUp thread (overlays (.alone r)) w (.empty, w') where
  emptied := rfl
  frees := .of_caches same
  disowned _ _ missed := by
    obtain ⟨o, found, -⟩ := missed
    cases found

variable (addressed : e.overlays.Addressed) (locking : w.Locking)

include addressed locking

theorem givenUp_rollback (required : Bool) :
    let o := rollback ctx required (e, w)
    GivenUp ctx.host.thread e.overlays w (o.state.1.overlays, o.state.2) := by
  cases e with
  | alone r => exact givenUp_alone (Runner.caches_rollback ctx.database required r w)
  | coordinated c =>
    have same := Runner.caches_rollback ctx.database required c.runner w
    have shaped := World.shape_eq_of_caches same
    have undone := Overlays.givenUp_rollback (locking.of_shape shaped) addressed ctx.host
    exact undone.of_caches same rfl

theorem givenUp_close (required : Bool) :
    let o := close ctx required (e, w)
    GivenUp ctx.host.thread e.overlays w (o.state.1.overlays, o.state.2) := by
  cases e with
  | alone r => exact givenUp_alone (Runner.caches_close ctx.database required r w)
  | coordinated c =>
    cases required with
    | true =>
      have same := Runner.caches_close ctx.database true c.runner w
      have shaped := World.shape_eq_of_caches same
      have undone := Overlays.givenUp_rollback (locking.of_shape shaped) addressed ctx.host
      exact undone.of_caches same rfl
    | false =>
      exact (Overlays.givenUp_commit locking addressed ctx.host).of_caches rfl
        (Runner.caches_close ctx.database false c.runner _)

theorem givenUp_commit {required : Bool}
    (durable : (Runner.commit ctx.database required (e.runner, w)).result = .ok ()) :
    let o := commit ctx required (e, w)
    GivenUp ctx.host.thread e.overlays w (o.state.1.overlays, o.state.2) := by
  cases e with
  | alone r => exact givenUp_alone (Runner.caches_commit ctx.database required r w)
  | coordinated c =>
    have same := Runner.caches_commit ctx.database required c.runner w
    have shaped := World.shape_eq_of_caches same
    have done := (Overlays.givenUp_commit (locking.of_shape shaped) addressed ctx.host).of_caches
      same rfl
    have durable : (Runner.commit ctx.database required (c.runner, w)).result = .ok () := durable
    simp only [commit, either, Coordinator.commit, bind_apply, Coordinator.onRunner]
    generalize Runner.commit ctx.database required (c.runner, w) = o at durable done ⊢
    obtain ⟨result, r, v⟩ := o
    cases durable
    exact done

omit locking in
theorem accounts_refused {required : Bool}
    (refused : (Runner.commit ctx.database required (e.runner, w)).result ≠ .ok ()) :
    let o := commit ctx required (e, w)
    Accounts (fun _ _ => False) ctx.host.thread e.overlays w (o.state.1.overlays, o.state.2) := by
  have begun := Accounts.refl addressed ctx.host.thread w
  cases e with
  | alone r => exact begun.of_caches (Runner.caches_commit ctx.database required r w)
  | coordinated c =>
    have same := Runner.caches_commit ctx.database required c.runner w
    have refused : (Runner.commit ctx.database required (c.runner, w)).result ≠ .ok () := refused
    simp only [commit, either, Coordinator.commit, bind_apply, Coordinator.onRunner]
    generalize Runner.commit ctx.database required (c.runner, w) = o at refused same ⊢
    obtain ⟨f | _, r, v⟩ := o
    · exact begun.of_caches same
    · exact absurd rfl refused

end Executor

def Session.LooksUp (x : Session) (ctx : Context) (serial : Nat) (key : CacheKey) : Call → Prop
  | .select id parameters bounds =>
    x.executor.coordinates = true ∧ x.isClosed = false ∧
      ∃ st ref, ctx.find id = .ok st ∧ st.Consults ref ∧ ref.serial = serial ∧
        x.executor.keyOf st bounds (st.source parameters) = key
  | .update _ _ | .commit _ | .rollback _ | .clearCache | .close => False

namespace Application

open Overlays

variable {a : Application} {i : Nat} {x : Session} {s : Scene} {w : World} {host : Host}
  {call : Call}

theorem accounts_within (own : a.Retaining (a.origin i []) [] (x.executor, w)) (locking : w.Locking)
    (addressed : x.overlays.Addressed) (host : Host) (within : ¬call.Ends) :
    let o := Session.perform (a.context i host) call (x, w)
    Accounts (fun _ _ => False) host.thread x.overlays w (o.state.1.overlays, o.state.2) := by
  exact (keeps_retaining_perform_of
    (J := Accounts (fun _ _ => False) host.thread x.overlays w) Accounts.of_caches admits_origin host
    call
    Accounts.keeps_clear
    (fun ref k s h => (Accounts.meets_get locking host ref k s h).narrow fun _ _ => False.elim)
    (fun ref k rows => Accounts.keeps_put ref k (.rows rows))
    (fun publishes => absurd publishes.ends within) (fun ends => absurd ends within) (x, w)
    ⟨own, .refl addressed host.thread w⟩).2

theorem accounts_query {r : Runner} {os : Overlays} {id : String} {st : Statement} {ref : CacheRef}
    (own : a.CoordinatedRetaining (a.origin i []) [] (⟨r, os⟩, w)) (locking : w.Locking)
    (addressed : os.Addressed) (host : Host) (known : a.catalog.statement id = .ok st)
    (consults : st.Consults ref) (isOpen : r.closed = false) (parameters : List Value)
    (bounds : RowBounds) {key : CacheKey}
    (key_eq : key = a.keyOf st bounds (st.source parameters)) :
    let o := Coordinator.queryWithKey (a.context i host) st bounds key (st.source parameters)
      (⟨r, os⟩, w)
    Accounts (fun serial j => serial = ref.serial ∧ j = key) host.thread os w
      (o.state.1.overlays, o.state.2) := by
  intro o
  let after (looked : Nat → CacheKey → Prop) (s : Coordinator × World) : Prop :=
    a.CoordinatedRetaining (a.origin i []) [] s ∧
      Accounts looked host.thread os w (s.1.overlays, s.2)
  let looked (serial : Nat) (j : CacheKey) : Prop := serial = ref.serial ∧ j = key
  have admits : a.Admits i [] (a.origin i []) := admits_origin
  have works := works_query admits host known parameters bounds
  rw [← key_eq] at works
  have lookup : Meets (after fun _ _ => False) (Coordinator.cachedRows host ref key) fun _ =>
      after looked := by
    refine Meets.bind (meets_retaining_get (Accounts.meets_get locking host ref key))
      (fun found => ?_) fun _ _ h => h
    split
    · exact fun _ h => h
    · exact fun _ h => h
    · exact fun _ h => h
  have run : Keeps (after looked)
      (Coordinator.onRunner (Runner.queryWithKey (a.context i host) st bounds key
        (st.source parameters))) :=
    fun s h => keeps_retaining_run Accounts.of_caches works (.coordinated s.1, s.2) h
  have put (rows : Rows) : Keeps (after looked)
      (Coordinator.onOverlays (Overlays.put ref key (.rows rows))) :=
    meets_retaining_overlays (fun _ _ h => h) (Accounts.keeps_put ref key (.rows rows))
  have fetch : Meets (after fun _ _ => False)
      (Coordinator.fetch (a.context i host) st ref bounds key (st.source parameters)) fun _ =>
        after looked := by
    refine Meets.bind lookup (fun found => ?_) fun _ _ h => h
    cases found with
    | some rows => exact fun _ h => h
    | none => exact run.bind fun rows => (put rows).bind fun _ => Keeps.pure rows
  have flushed : Accounts (fun _ _ => False) host.thread os w (st.flush os, w) := by
    have begun := Accounts.refl addressed host.thread w
    unfold Statement.flush
    split
    · exact begun
    · rename_i ref _
      split
      · exact Accounts.keeps_clear ref (os, w) begun
      · exact begun
  have ran : o = _ := Coordinator.query_consults (a.context i host) consults isOpen bounds key
    (st.source parameters) os w
  rw [ran]
  exact (fetch (⟨r, st.flush os⟩, w) ⟨⟨own.environment, own.enabled, own.grown, own.kept⟩,
    flushed⟩).2

theorem accounts_select (own : a.Retaining (a.origin i []) [] (x.executor, w)) (locking : w.Locking)
    (addressed : x.overlays.Addressed) (host : Host) (id : String) (parameters : List Value)
    (bounds : RowBounds) :
    let call := Call.select id parameters bounds
    let o := Session.perform (a.context i host) call (x, w)
    Accounts (fun serial key => x.LooksUp (a.context i host) serial key call) host.thread
      x.overlays w (o.state.1.overlays, o.state.2) := by
  intro call o
  by_cases looks : ∃ serial key, x.LooksUp (a.context i host) serial key call
  · obtain ⟨-, -, coordinates, isOpen, st, ref, known, consults, -⟩ := looks
    obtain ⟨executor, dirty⟩ := x
    cases executor with
    | alone r => cases coordinates
    | coordinated c =>
      obtain ⟨r, os⟩ := c
      have key_eq : r.keyOf st bounds (st.source parameters) =
          a.keyOf st bounds (st.source parameters) := Runner.keyOf_eq own.environment st bounds _
      have done : o.state = _ := Session.state_select_of_known known parameters bounds
        (.sharing r os dirty) w
      rw [done]
      refine (accounts_query own locking addressed host known consults isOpen parameters bounds
        key_eq).narrow fun serial key lookup => ?_
      obtain ⟨-, -, st', ref', known', consults', rfl, rfl⟩ := lookup
      cases known.symm.trans known'
      cases consults.bound.symm.trans consults'.bound
      exact ⟨rfl, rfl⟩
  · have within : ¬call.Ends := not_false
    exact (accounts_within own locking addressed host within).narrow
      fun serial key lookup => looks ⟨serial, key, lookup⟩

/-- While the unit of work lasts its overlays account for everything. -/
theorem accounts_perform (own : a.Retaining (a.origin i []) [] (x.executor, s.world))
    (locking : s.world.Locking) (addressed : x.overlays.Addressed)
    (there : s.sessions[i]? = some x) (host : Host) (call : Call)
    (lasts : ¬a.Ends i s (.called i host call)) :
    let o := Session.perform (a.context i host) call (x, s.world)
    Accounts (fun serial key => x.LooksUp (a.context i host) serial key call) host.thread
      x.overlays s.world (o.state.1.overlays, o.state.2) := by
  intro o
  cases call with
  | select id parameters bounds =>
    exact accounts_select own locking addressed host id parameters bounds
  | update _ _ => exact accounts_within own locking addressed host not_false
  | clearCache => exact accounts_within own locking addressed host not_false
  | rollback _ => exact absurd ⟨rfl, trivial⟩ lasts
  | close => exact absurd ⟨rfl, trivial⟩ lasts
  | commit force =>
    have same : o = _ := Session.commit_eq (a.context i host) force x s.world
    rw [same]
    exact Executor.accounts_refused (a.context i host) addressed fun durable =>
      lasts ⟨rfl, x, there, durable⟩

theorem givenUp_perform (locking : s.world.Locking) (addressed : x.overlays.Addressed)
    (there : s.sessions[i]? = some x) (host : Host) (call : Call)
    (ends : a.Ends i s (.called i host call)) :
    let o := Session.perform (a.context i host) call (x, s.world)
    GivenUp host.thread x.overlays s.world (o.state.1.overlays, o.state.2) := by
  intro o
  obtain ⟨-, ends⟩ := ends
  cases call with
  | select _ _ _ => exact ends.elim
  | update _ _ => exact ends.elim
  | clearCache => exact ends.elim
  | rollback force =>
    have same : o = _ := Session.rollback_eq (a.context i host) force x s.world
    rw [same]
    exact Executor.givenUp_rollback (a.context i host) addressed locking (x.dirty || force)
  | close => exact Executor.givenUp_close (a.context i host) addressed locking x.dirty
  | commit force =>
    obtain ⟨y, same, durable⟩ := ends
    cases there.symm.trans same
    have same : o = _ := Session.commit_eq (a.context i host) force x s.world
    rw [same]
    exact Executor.givenUp_commit (a.context i host) addressed locking durable

theorem addressed_opened (a : Application) : (Session.opened a.catalog).overlays.Addressed := by
  simp only [Session.opened, Catalog.newExecutor, Executor.ofSettings]
  split
  · exact holds_empty
  · exact holds_empty

structure Standing (a : Application) (s : Scene) : Prop where
  keyed : a.Keyed s
  locking : s.world.Locking
  addressed : ∀ (i : Nat) (x : Session), s.sessions[i]? = some x → x.overlays.Addressed

theorem standing_called (h : a.Standing s) (there : s.sessions[i]? = some x) (host : Host)
    (call : Call) :
    let o := Session.perform (a.context i host) call (x, s.world)
    o.state.2.shape = s.world.shape ∧ o.state.1.overlays.Addressed := by
  by_cases ends : a.Ends i s (.called i host call)
  · have done := givenUp_perform h.locking (h.addressed i x there) there host call ends
    refine ⟨done.frees.shaped, ?_⟩
    have emptied := done.emptied
    dsimp only at emptied
    rw [emptied]
    exact holds_empty
  · have done := accounts_perform (h.keyed i x there) h.locking (h.addressed i x there) there host
      call ends
    exact ⟨done.shaped, done.addressed⟩

theorem standing_act (h : a.Standing s) (m : Move) : a.Standing (a.act s m) := by
  refine ⟨keyed_act h.keyed m, ?_, fun j y found => ?_⟩
  · cases m with
    | opened => exact h.locking
    | called i host call =>
      cases there : s.sessions[i]? with
      | none => simpa only [act, there] using h.locking
      | some x =>
        rw [act_called there]
        exact h.locking.of_shape (standing_called h there host call).1
  · cases m with
    | opened =>
      rcases found_opened found with old | rfl
      · exact h.addressed j y old
      · exact addressed_opened a
    | called i host call =>
      by_cases same : i = j
      · subst same
        obtain ⟨x, there, rfl⟩ := found_called found
        exact (standing_called h there host call).2
      · rw [sessions_act_of_ne same] at found
        exact h.addressed j y found

/-- What a session has noted stays noted while its unit of work lasts, whatever others do. -/
theorem missed_resume {serial : Nat} {k : CacheKey} {moves : List Move} (h : a.Standing s)
    (there : s.sessions[i]? = some x) (missed : x.overlays.Missed serial k)
    (lasts : a.Lasts i s moves) {y : Session} (still : (a.resume s moves).sessions[i]? = some y) :
    y.overlays.Missed serial k := by
  induction moves generalizing s x with
  | nil =>
    cases there.symm.trans still
    exact missed
  | cons m moves ih =>
    obtain ⟨goes_on, lasts⟩ := lasts
    obtain ⟨bound, -⟩ := List.getElem?_eq_some_iff.mp there
    cases m with
    | opened =>
      refine ih (standing_act h .opened) ?_ missed lasts still
      simp only [act, List.getElem?_append_left bound, there]
    | called j host call =>
      by_cases same : j = i
      · subst same
        have done := accounts_perform (h.keyed j x there) h.locking (h.addressed j x there) there
          host call goes_on
        refine ih (standing_act h (.called j host call)) ?_ (done.kept serial k missed) lasts still
        rw [act_called there]
        exact List.getElem?_set_self bound
      · exact ih (standing_act h (.called j host call))
          ((sessions_act_of_ne same host call).trans there) missed lasts still

variable {threadOf : Nat → Thread}

def Accounted (threadOf : Nat → Thread) (s : Scene) : Prop :=
  ∀ serial k thread, s.world.owner? serial k = some thread →
    ∃ (i : Nat) (x : Session), s.sessions[i]? = some x ∧ threadOf i = thread ∧
      x.overlays.Missed serial k

theorem accounted_opened (h : Accounted threadOf s) : Accounted threadOf (a.act s .opened) := by
  intro serial k thread own
  obtain ⟨i, x, there, works, missed⟩ := h serial k thread own
  obtain ⟨bound, -⟩ := List.getElem?_eq_some_iff.mp there
  refine ⟨i, x, ?_, works, missed⟩
  simp only [act, List.getElem?_append_left bound, there]

theorem accounted_called (h : Accounted threadOf s) (standing : a.Standing s)
    (call : Call) (works : host.thread = threadOf i) :
    Accounted threadOf (a.act s (.called i host call)) := by
  cases there : s.sessions[i]? with
  | none => simpa only [act, there] using h
  | some x =>
    intro serial k thread own
    obtain ⟨bound, -⟩ := List.getElem?_eq_some_iff.mp there
    have here : (a.act s (.called i host call)).sessions[i]? =
        some (Session.perform (a.context i host) call (x, s.world)).state.1 := by
      rw [act_called there]
      exact List.getElem?_set_self bound
    have elsewhere {j : Nat} {y : Session} (other : j ≠ i) (found : s.sessions[j]? = some y) :
        (a.act s (.called i host call)).sessions[j]? = some y :=
      (sessions_act_of_ne other.symm host call).trans found
    have addressed := standing.addressed i x there
    rw [act_called there] at own
    by_cases ends : a.Ends i s (.called i host call)
    · have done := givenUp_perform standing.locking addressed there host call ends
      obtain ⟨j, y, found, his, missed⟩ := h serial k thread (done.frees.owner serial k thread own)
      refine ⟨j, y, elsewhere (fun same => ?_) found, his, missed⟩
      -- the session itself has given the key up
      subst same
      cases there.symm.trans found
      rw [← his, ← works] at own
      exact done.disowned serial k missed own
    · have done := accounts_perform (standing.keyed i x there) standing.locking addressed there host
        call ends
      obtain ⟨rfl, missed⟩ | ⟨old, -⟩ := done.noted serial k thread own
      · exact ⟨i, _, here, works.symm, missed⟩
      · obtain ⟨j, y, found, his, missed⟩ := h serial k thread old
        by_cases same : j = i
        · subst same
          cases there.symm.trans found
          exact ⟨j, _, here, his, done.kept serial k missed⟩
        · exact ⟨j, y, elsewhere same found, his, missed⟩

/-- No key stays with a thread beyond the unit of work that it was taken in. -/
structure LocksWithin (a : Application) (threadOf : Nat → Thread) (s : Scene) : Prop where
  /-- Whoever owns a key works for a session that has noted it. -/
  accounted : Accounted threadOf s
  /-- A key that a call has left to the thread, because it took the key or looked it up, stays noted
  until the unit of work ends. -/
  recorded : ∀ (i : Nat) (x y : Session) host call later serial key, s.sessions[i]? = some x →
    host.thread = threadOf i →
    (a.act s (.called i host call)).world.owner? serial key = some (threadOf i) →
    s.world.owner? serial key ≠ some (threadOf i) ∨ x.LooksUp (a.context i host) serial key call →
    a.Lasts i s (.called i host call :: later) →
    (a.resume s (.called i host call :: later)).sessions[i]? = some y → y.overlays.Missed serial key
  /-- The end of the unit of work takes all noted keys from the thread, whatever it answers. -/
  released : ∀ (i : Nat) (x : Session) host call serial key, s.sessions[i]? = some x →
    host.thread = threadOf i → a.Ends i s (.called i host call) → x.overlays.Missed serial key →
    (a.act s (.called i host call)).world.owner? serial key ≠ some (threadOf i)

/-- Over caches that were assembled with blocking, whatever the databases answer and whichever
layers fail: every run in which each session stays on one thread. -/
theorem locks_within_unit_of_work (built : w.Blocking) {moves : List Move}
    (one : ∀ i host call, .called i host call ∈ moves → host.thread = threadOf i) :
    a.LocksWithin threadOf (a.run w moves) := by
  have reached : a.Standing (a.run w moves) ∧ Accounted threadOf (a.run w moves) := by
    induction moves using List.reverseRecOn with
    | nil =>
      have closed (i : Nat) (x : Session) : (a.run w []).sessions[i]? ≠ some x := fun there => by
        cases there
      refine ⟨⟨fun i x there => absurd there (closed i x), built.locking,
        fun i x there => absurd there (closed i x)⟩, fun serial k thread own => ?_⟩
      cases (built.free serial k).symm.trans own
    | append_singleton moves m ih =>
      obtain ⟨standing, accounted⟩ :=
        ih fun i host call mem => one i host call (List.mem_append_left _ mem)
      rw [run, resume_concat]
      refine ⟨standing_act standing m, ?_⟩
      cases m with
      | opened => exact accounted_opened accounted
      | called i host call =>
        exact accounted_called accounted standing call (one i host call (by simp))
  obtain ⟨standing, accounted⟩ := reached
  generalize a.run w moves = s at standing accounted
  refine ⟨accounted, ?_, ?_⟩
  · intro i x y host call later serial key there works own left lasts still
    obtain ⟨bound, -⟩ := List.getElem?_eq_some_iff.mp there
    have done := accounts_perform (standing.keyed i x there) standing.locking
      (standing.addressed i x there) there host call lasts.1
    have missed : (Session.perform (a.context i host) call (x, s.world)).state.1.overlays.Missed
        serial key := by
      rw [act_called there] at own
      obtain ⟨-, missed⟩ | ⟨old, other⟩ := done.noted serial key _ own
      · exact missed
      · exact left.elim (absurd old) fun looked => absurd ⟨works.symm, looked⟩ other
    refine missed_resume (standing_act standing (.called i host call)) ?_ missed lasts.2 still
    rw [act_called there]
    exact List.getElem?_set_self bound
  · intro i x host call serial key there works ends missed
    rw [act_called there, ← works]
    exact (givenUp_perform standing.locking (standing.addressed i x there) there host call
      ends).disowned serial key missed

def lockedNames : Cache :=
  (((Cache.base "names").lru Setting.defaultCapacity).counted.synchronized).blocking none

theorem blocking_lockedNames : (World.single lockedNames).Blocking := by
  intro serial c found
  have stored : (Table.empty.insert 0 lockedNames : Table Nat Cache).get? serial = some c := found
  rw [Table.get?_insert] at stored
  split at stored
  · cases stored
    exact ⟨.builtIn, { Blueprint.ofId "names" with blocking := true }, .calm, World.empty,
      World.empty, CacheFactories.selfContained_builtIn, rfl, by with_unfolding_all rfl⟩
  · cases stored

def speechless : Database where
  query _ _ _ := .error (.refused .query)
  execute _ _ _ := .ok 0
  boundary _ := none

/-- A select whose query fails has taken its key, and the rollback gives the key back. -/
theorem locks_within_unit_of_work_of_speechless :
    let a := pair fun _ => speechless
    let select : Call := .select "find" [.integer 7] .default
    let key := a.keyOf findNames .default (findNames.source [.integer 7])
    let s := a.act (a.run (World.single lockedNames) [.opened]) (.called 0 .calm select)
    s.world.owner? 0 key = some 0 ∧
      (∃ x, s.sessions[0]? = some x ∧ x.overlays.Missed 0 key) ∧
      (a.act s (.called 0 .calm (.rollback false))).world.owner? 0 key ≠ some 0 := by
  intro a select key s
  have within (moves : List Move)
      (one : ∀ i host call, .called i host call ∈ moves → host.thread = 0) :
      a.LocksWithin (fun _ => 0) (a.run (World.single lockedNames) moves) :=
    locks_within_unit_of_work blocking_lockedNames one
  have own : s.world.owner? 0 key = some 0 := rfl
  have missed : ∀ x, s.sessions[0]? = some x → x.overlays.Missed 0 key := fun x still =>
    (within [.opened] (by simp)).recorded 0 (Session.opened a.catalog) x .calm select [] 0 key rfl
      rfl own (.inl fun own => by cases own) ⟨fun ends => ends.2, trivial⟩ still
  refine ⟨own, ⟨_, rfl, missed _ rfl⟩, ?_⟩
  refine (within [.opened, .called 0 .calm select] ?_).released 0 _ .calm (.rollback false) 0 key
    rfl rfl ⟨rfl, trivial⟩ (missed _ rfl)
  intro i host call mem
  obtain ⟨-, rfl, -⟩ : i = 0 ∧ host = .calm ∧ call = select := by simpa using mem
  rfl

end Application
end StatementCache
