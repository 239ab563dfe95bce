import StatementCache.Proofs.Key.Separation
import StatementCache.Proofs.Sessions.Freshness

/-! What a session reads after a write of its own, over caches of any layers. While the clear that
came with the write waits, the session answers from its own results, and all of these come from
queries that it has sent since. -/
namespace StatementCache

open StatementCache.Action

namespace Catalog

def Filed (c : Catalog) : Prop := ∀ id st, c.statement id = .ok st → st.id = id

theorem filed_ofSettings (settings : Settings) (factories : CacheFactories) :
    (ofSettings settings factories).Filed := by
  intro id st known
  cases known

theorem Filed.insert {c : Catalog} (h : c.Filed) (st : Statement) :
    Filed { c with statements := c.statements.insert st.id st } := by
  intro id found known
  simp only [statement, Table.get?_insert] at known
  by_cases same : st.id = id
  · rw [if_pos same] at known
    cases known
    exact same
  · rw [if_neg same] at known
    exact h id found known

theorem Filed.addStatement {c c' : Catalog} (h : c.Filed) {st : Statement}
    (added : c.addStatement st = .ok c') : c'.Filed := by
  unfold Catalog.addStatement at added
  split at added
  · cases added
  · cases added
    exact h.insert st

end Catalog

theorem Overlays.hidden_of_clears {os : Overlays} {ref : CacheRef} (clears : os.Clears ref.serial)
    {directory : Directory World} {k : CacheKey} {w : World} {found : Option Entry}
    (ok : (get directory ref k (os, w)).result = .ok found) : found = none := by
  rw [get, onOverlay_apply] at ok
  have clear := clears.overlay rfl
  generalize os.overlay ref = o at ok clear
  cases there : directory o.target w with
  | none =>
    rw [Overlay.get_of_none there] at ok
    cases ok
  | some store =>
    rw [Overlay.get_of_some there] at ok
    rcases looked : store.get k w with ⟨e | entry, w'⟩ <;> rw [looked] at ok
    · cases ok
    · simp only [clear, if_true] at ok
      cases ok
      rfl

theorem Statement.clears_flush {st : Statement} {os : Overlays} {serial : Nat}
    (clears : os.Clears serial) : (st.flush os).Clears serial := by
  unfold flush
  split
  · exact clears
  · split
    · exact clears.insert fun _ => rfl
    · exact clears

namespace Coordinator

variable {ctx : Context} {st : Statement} {bounds : RowBounds} {key : CacheKey} {bound : BoundSql}

theorem ensureOpen_apply (c : Coordinator) (w : World) :
    ensureOpen (c, w) = if c.runner.closed then ⟨.error .executorClosed, (c, w)⟩
      else ⟨.ok (), (c, w)⟩ := by
  simp only [ensureOpen, onRunner, Runner.ensureOpen_apply]
  split
  · rfl
  · rfl

theorem cachedRows_hidden {ref : CacheRef} {c : Coordinator} {w : World} {s : Coordinator × World}
    {found : Option Rows} (clears : c.overlays.Clears ref.serial)
    (looked : cachedRows ctx.host ref key (c, w) = ⟨.ok found, s⟩) :
    found = none ∧ s.1.runner = c.runner ∧ w.log <+: s.2.log := by
  have grown : w.log <+: (Overlays.get (World.find? ctx.host) ref key (c.overlays, w)).state.2.log :=
    Overlays.keeps_world_get (fun ref => (World.keeping_store ctx.host ref).keeps_get) ref key
      (c.overlays, w) (List.prefix_refl _)
  have hidden := @Overlays.hidden_of_clears c.overlays ref clears (World.find? ctx.host) key w
  simp only [cachedRows, bind_apply, onOverlays] at looked
  generalize Overlays.get (World.find? ctx.host) ref key (c.overlays, w) = o at looked grown hidden
  obtain ⟨e | entry, os, w'⟩ := o
  · cases looked
  · cases hidden rfl
    cases looked
    exact ⟨rfl, rfl, grown⟩

/-- Where a clear hides the cache of the statement, the answer is what the executor's own part
gives, and that part sees nothing of the cache. -/
theorem query_hidden {c : Coordinator} {w : World} {rows : Rows}
    (hidden : ∀ ref, st.cache = some ref → c.overlays.Clears ref.serial)
    (ok : (queryWithKey ctx st bounds key bound (c, w)).result = .ok rows) :
    ∃ v, w.log <+: v.log ∧
      Runner.queryWithKey ctx st bounds key bound (c.runner, v) = ⟨.ok rows,
        ((queryWithKey ctx st bounds key bound (c, w)).state.1.runner,
          (queryWithKey ctx st bounds key bound (c, w)).state.2)⟩ := by
  obtain ⟨r, os⟩ := c
  generalize done : queryWithKey ctx st bounds key bound (⟨r, os⟩, w) = o at ok ⊢
  cases closed : r.closed with
  | true =>
    simp only [queryWithKey, bind_apply, ensureOpen_apply, closed, if_true] at done
    cases done
    cases ok
  | false =>
    simp only [queryWithKey, bind_apply, ensureOpen_apply, closed, Bool.false_eq_true,
      if_false] at done
    -- what is left once the executor's own part has run
    have own {os' : Overlays} {v : World} (grown : w.log <+: v.log)
        (ran : onRunner (Runner.queryWithKey ctx st bounds key bound) (⟨r, os'⟩, v) = o) :
        ∃ v, w.log <+: v.log ∧ Runner.queryWithKey ctx st bounds key bound (r, v) =
          ⟨.ok rows, (o.state.1.runner, o.state.2)⟩ := by
      subst ran
      refine ⟨v, grown, ?_⟩
      rw [← ok]
      rfl
    cases cached : st.cache with
    | none =>
      simp only [cached] at done
      exact own (List.prefix_refl _) done
    | some ref =>
      simp only [cached, bind_apply, flushIfRequired_apply] at done
      split at done
      · exact own (List.prefix_refl _) done
      · have clears : (st.flush os).Clears ref.serial := Statement.clears_flush (hidden ref cached)
        unfold ensureCacheable at done
        split at done
        · cases done
          cases ok
        · simp only [pure_apply, bind_apply] at done
          rcases looked : cachedRows ctx.host ref key (⟨r, st.flush os⟩, w) with
            ⟨e | found, ⟨r', os'⟩, v⟩ <;> rw [looked] at done
          · cases done
            cases ok
          · obtain ⟨absent, same, grown⟩ := cachedRows_hidden clears looked
            cases absent
            cases same
            refine ⟨v, grown, ?_⟩
            simp only [bind_apply, onRunner] at done
            rcases ran : Runner.queryWithKey ctx st bounds key bound (r, v) with
              ⟨e | answer, r', v'⟩ <;> rw [ran] at done
            · cases done
              cases ok
            · cases done
              cases ok
              rfl

end Coordinator

theorem Executor.query_hidden {ctx : Context} {st : Statement} {parameters : List Value}
    {bounds : RowBounds} {e : Executor} {w : World} {rows : Rows}
    (hidden : e.coordinates = true → ∀ ref, st.cache = some ref → e.overlays.Clears ref.serial)
    (ok : (query ctx st parameters bounds (e, w)).result = .ok rows) :
    let bound := st.source parameters
    ∃ v, w.log <+: v.log ∧
      Runner.queryWithKey ctx st bounds (e.keyOf st bounds bound) bound (e.runner, v) = ⟨.ok rows,
        ((query ctx st parameters bounds (e, w)).state.1.runner,
          (query ctx st parameters bounds (e, w)).state.2)⟩ := by
  intro bound
  cases e with
  | alone r =>
    refine ⟨w, List.prefix_refl _, ?_⟩
    rw [← ok]
    rfl
  | coordinated c => exact Coordinator.query_hidden (hidden rfl) ok

namespace Application

variable {a : Application} {session : Nat} {V : Account a session} {floor : List Event} {w : World}
  {s : Scene} {moves : List Move} {key : CacheKey} {rows : Rows}

structure Retaining (a : Application) {session : Nat} (V : Account a session) (floor : List Event)
    (s : Executor × World) : Prop where
  environment : s.1.runner.environmentId = a.catalog.settings.environmentId
  enabled : s.1.coordinates = a.catalog.settings.cacheEnabled
  grown : floor <+: s.2.log
  kept : ∀ key rows, s.1.runner.results.rows? key = some rows → V.Covers s.2.log key rows

abbrev CoordinatedRetaining (a : Application) {session : Nat} (V : Account a session)
    (floor : List Event) (s : Coordinator × World) : Prop :=
  a.Retaining V floor (.coordinated s.1, s.2)

section

variable {J : Overlays × World → Prop}
  (caches_only : ∀ {os w w'}, w'.caches = w.caches → J (os, w) → J (os, w'))

include caches_only in
theorem keeps_retaining_run {α : Type} {m : Runner.Run α} (works : a.Works floor V m) :
    Keeps (fun s => a.Retaining V floor s ∧ J (s.1.overlays, s.2)) (Executor.onRunner m) := by
  rintro ⟨e, w⟩ ⟨h, held⟩
  have start : a.Executing V floor w.caches (e.runner, w) := ⟨h.environment, rfl, h.grown, h.kept⟩
  have done := works floor w.caches (List.prefix_refl _) (e.runner, w) start
  have left : J (e.overlays, (m (e.runner, w)).state.2) := caches_only done.caches_eq held
  cases e with
  | alone r => exact ⟨⟨done.environment, h.enabled, done.grown, done.kept⟩, left⟩
  | coordinated c => exact ⟨⟨done.environment, h.enabled, done.grown, done.kept⟩, left⟩

theorem meets_retaining_overlays {J' : Overlays × World → Prop} {α : Type}
    {m : Action (Overlays × World) α} (grows : ∀ mark, Keeps (fun s => World.Reports mark s.2) m)
    (meets : Meets J m fun _ => J') :
    Meets (fun s => a.CoordinatedRetaining V floor s ∧ J (s.1.overlays, s.2))
      (Coordinator.onOverlays m)
      fun _ s => a.CoordinatedRetaining V floor s ∧ J' (s.1.overlays, s.2) := by
  rintro ⟨c, w⟩ ⟨h, held⟩
  have grown : w.log <+: (m (c.overlays, w)).state.2.log :=
    grows w.log (c.overlays, w) (List.prefix_refl _)
  refine ⟨⟨h.environment, h.enabled, h.grown.trans grown, fun key rows found => ?_⟩,
    meets (c.overlays, w) held⟩
  exact V.grows grown (h.kept key rows found)

theorem meets_retaining_get {J' : Overlays × World → Prop} {host : Host} {ref : CacheRef}
    (get : Meets J (Overlays.get (World.find? host) ref key) fun _ => J') :
    Meets (fun s => a.CoordinatedRetaining V floor s ∧ J (s.1.overlays, s.2))
      (Coordinator.onOverlays (Overlays.get (World.find? host) ref key))
      fun _ s => a.CoordinatedRetaining V floor s ∧ J' (s.1.overlays, s.2) :=
  meets_retaining_overlays (fun _ =>
    Overlays.keeps_world_get (fun ref => (World.keeping_store host ref).keeps_get) ref key) get

theorem works_query (admits : a.Admits session floor V) (host : Host) {id : String}
    {st : Statement} (known : a.catalog.statement id = .ok st) (parameters : List Value)
    (bounds : RowBounds) :
    a.Works floor V (Runner.queryWithKey (a.context session host) st bounds
      (a.keyOf st bounds (st.source parameters)) (st.source parameters)) :=
  fun mark caches start s hs =>
    (answers_queryWithin admits host a.nesting mark caches st bounds _ _ start
      ⟨⟨id, known⟩, ⟨parameters, rfl⟩, rfl⟩ s hs).1

include caches_only in
/-- What the overlays keep, and what only the caches decide, every operation keeps. Caches are
reached through the overlays only: by lookups, and where a unit of work ends. -/
theorem keeps_retaining_perform_of (admits : a.Admits session floor V) (host : Host) (call : Call)
    (clear : ∀ ref, Keeps J (Overlays.clear ref))
    (get : ∀ ref k, Keeps J (Overlays.get (World.find? host) ref k))
    (put : ∀ ref k rows, Keeps J (Overlays.put ref k (.rows rows)))
    (commit : call.Publishes → Keeps J (Overlays.commit (World.find? host)))
    (rollback : call.Ends → Keeps J (Overlays.rollback (World.find? host))) :
    Keeps (fun s : Session × World =>
        a.Retaining V floor (s.1.executor, s.2) ∧ J (s.1.overlays, s.2))
      (Session.perform (a.context session host) call) := by
  have clears (ref : CacheRef) :
      Keeps (fun s => a.CoordinatedRetaining V floor s ∧ J (s.1.overlays, s.2))
        (Coordinator.onOverlays (Overlays.clear ref)) :=
    meets_retaining_overlays (fun _ _ h => h) (clear ref)
  apply keeps_perform_of_works (I := fun s => a.Retaining V floor s ∧ J (s.1.overlays, s.2)) call
  · exact fun works => keeps_retaining_run caches_only works
  · rintro id parameters bounds st - known ⟨e, w⟩ h
    have same : e.keyOf st bounds (st.source parameters) = a.keyOf st bounds (st.source parameters) :=
      Runner.keyOf_eq h.1.environment st bounds _
    have works := works_query admits host known parameters bounds
    simp only [Executor.query, bind_apply, get_apply, same]
    cases e with
    | alone r => exact keeps_retaining_run caches_only works (.alone r, w) h
    | coordinated c =>
      refine Coordinator.keeps_queryWithKey (fun s hs => ?_) clears (fun ref => ?_)
        (fun ref rows => ?_) (c, w) h
      · exact keeps_retaining_run caches_only works (.coordinated s.1, s.2) hs
      · exact meets_retaining_get (get ref _)
      · exact meets_retaining_overlays (fun _ _ h => h) (put ref _ rows)
  · exact clears
  · exact fun publishes => meets_retaining_overlays (fun _ =>
      Overlays.keeps_world_commit (World.keeping_store host)) (commit publishes)
  · exact fun ends => meets_retaining_overlays (fun _ =>
      Overlays.keeps_world_rollback (World.keeping_store host)) (rollback ends)

end

theorem keeps_retaining_perform (admits : a.Admits session floor V) (host : Host) (call : Call) :
    Keeps (fun s : Session × World => a.Retaining V floor (s.1.executor, s.2))
      (Session.perform (a.context session host) call) := by
  have any {α : Type} (m : Action (Overlays × World) α) : Keeps (fun _ => True) m :=
    fun _ _ => trivial
  exact fun s h => (keeps_retaining_perform_of (J := fun _ => True) (fun _ _ => trivial) admits host
    call (fun _ => any _) (fun _ _ => any _) (fun _ _ _ => any _) (fun _ => any _) (fun _ => any _)
    s ⟨h, trivial⟩).1

theorem Retaining.elsewhere {e : Executor} {w' : World} (h : a.Retaining V floor (e, w))
    (grown : w.log <+: w'.log) : a.Retaining V floor (e, w') :=
  ⟨h.environment, h.enabled, h.grown.trans grown, fun key rows found =>
    V.grows grown (h.kept key rows found)⟩

theorem retaining_opened (i : Nat) (w : World) :
    a.Retaining (a.origin i []) [] ((Session.opened a.catalog).executor, w) := by
  have nothing : ∀ key rows, Results.rows? .empty key = some rows →
      a.Obtained i [] w.log key rows := by
    intro key rows found
    cases found
  simp only [Session.opened, Catalog.newExecutor, Executor.ofSettings]
  cases enabled : a.catalog.settings.cacheEnabled with
  | true => exact ⟨rfl, enabled.symm, List.nil_prefix, nothing⟩
  | false => exact ⟨rfl, enabled.symm, List.nil_prefix, nothing⟩

/-- Every session makes the keys of the application, and keeps what it has obtained itself. -/
def Keyed (a : Application) (s : Scene) : Prop :=
  ∀ (i : Nat) (x : Session), s.sessions[i]? = some x →
    a.Retaining (a.origin i []) [] (x.executor, s.world)

theorem keyed_act (h : a.Keyed s) (m : Move) : a.Keyed (a.act s m) := by
  intro i x there
  cases m with
  | opened =>
    rcases found_opened there with there | rfl
    · exact h i x there
    · exact retaining_opened i s.world
  | called j host call =>
    cases found : s.sessions[j]? with
    | none =>
      simp only [act, found] at there ⊢
      exact h i x there
    | some y =>
      have admits : a.Admits j s.world.log (a.origin j []) := fun _ _ _ obtained => obtained.anytime
      have own := h j y found
      have done := keeps_retaining_perform admits host call (y, s.world)
        ⟨own.environment, own.enabled, List.prefix_refl _, own.kept⟩
      by_cases same : j = i
      · subst same
        obtain ⟨z, found', rfl⟩ := found_called there
        cases found.symm.trans found'
        rw [act_called found]
        exact ⟨done.environment, done.enabled, List.nil_prefix, done.kept⟩
      · rw [sessions_act_of_ne same] at there
        rw [act_called found]
        exact (h i x there).elsewhere done.grown

theorem keyed_resume (h : a.Keyed s) (moves : List Move) : a.Keyed (a.resume s moves) :=
  resume_induction h (fun _ m h => keyed_act h m) moves

theorem keyed_run (w : World) (moves : List Move) : a.Keyed (a.run w moves) :=
  keyed_resume (fun _ _ there => by cases there) moves

inductive Issued (a : Application) (session : Nat) (s : Scene) (moves : List Move) (key : CacheKey)
    (rows : Rows) : Prop where
  | intro (earlier later : List Move) (host : Host) (call : Call)
      (split : moves = earlier ++ .called session host call :: later)
      (obtained : a.Obtained session (a.resume s earlier).world.log
        (a.resume s (earlier ++ [.called session host call])).world.log key rows)

theorem Issued.extend (h : a.Issued session s moves key rows) (m : Move) :
    a.Issued session s (moves ++ [m]) key rows := by
  obtain ⟨earlier, later, host, call, rfl, obtained⟩ := h
  exact ⟨earlier, later ++ [m], host, call, by simp, obtained⟩

def issuing (a : Application) (session : Nat) (s : Scene) (moves : List Move) :
    Account a session where
  Covers log key rows := a.Obtained session [] log key rows ∧
    (a.Issued session s moves key rows ∨
      a.Obtained session (a.resume s moves).world.log log key rows)
  obtained h := h.1
  grows longer h :=
    ⟨h.1.mono longer, h.2.imp (fun issued => issued) fun obtained => obtained.mono longer⟩

theorem admits_issuing :
    a.Admits session (a.resume s moves).world.log (a.issuing session s moves) :=
  fun _ _ _ obtained => ⟨obtained.anytime, .inr obtained⟩

theorem issued_of_covers {host : Host} {call : Call}
    (h : (a.issuing session s moves).Covers
      (a.resume s (moves ++ [.called session host call])).world.log key rows) :
    a.Issued session s (moves ++ [.called session host call]) key rows := by
  rcases h.2 with issued | obtained
  · exact issued.extend _
  · exact ⟨moves, [], host, call, rfl, obtained⟩

/-- A session some moves after its own write: a clear hides the cache, and every result that it
keeps was issued since. -/
structure Renewed (a : Application) (ref : CacheRef) (session : Nat) (s : Scene) (moves : List Move)
    (x : Session) : Prop where
  environment : x.executor.runner.environmentId = a.catalog.settings.environmentId
  enabled : x.executor.coordinates = a.catalog.settings.cacheEnabled
  clears : x.executor.coordinates = true → x.overlays.Clears ref.serial
  kept : ∀ key rows, x.executor.runner.results.rows? key = some rows →
    a.Issued session s moves key rows

variable {ref : CacheRef} {x : Session}

theorem Renewed.elsewhere (h : a.Renewed ref session s moves x) (m : Move) :
    a.Renewed ref session s (moves ++ [m]) x :=
  ⟨h.environment, h.enabled, h.clears, fun key rows found => (h.kept key rows found).extend m⟩

theorem Renewed.retaining (h : a.Renewed ref session s moves x)
    (own : a.Retaining (a.origin session []) [] (x.executor, (a.resume s moves).world)) :
    a.Retaining (a.issuing session s moves) (a.resume s moves).world.log
      (x.executor, (a.resume s moves).world) :=
  ⟨h.environment, h.enabled, List.prefix_refl _, fun key rows found =>
    ⟨own.kept key rows found, .inl (h.kept key rows found)⟩⟩

theorem Renewed.called (h : a.Renewed ref session s moves x)
    (own : a.Retaining (a.origin session []) [] (x.executor, (a.resume s moves).world))
    (there : (a.resume s moves).sessions[session]? = some x) {host : Host} {call : Call}
    (lasts : ¬a.Ends session (a.resume s moves) (.called session host call)) :
    a.Renewed ref session s (moves ++ [.called session host call])
      (Session.perform (a.context session host) call (x, (a.resume s moves).world)).state.1 := by
  have done := keeps_retaining_perform admits_issuing host call (x, (a.resume s moves).world)
    (h.retaining own)
  have moved : (a.resume s (moves ++ [.called session host call])).world =
      (Session.perform (a.context session host) call (x, (a.resume s moves).world)).state.2 := by
    rw [resume_concat, act_called there]
  refine ⟨done.environment, done.enabled, fun coordinates => ?_, fun key rows found => ?_⟩
  · refine clears_perform there (h.clears ?_) lasts
    rw [h.enabled, ← done.enabled]
    exact coordinates
  · apply issued_of_covers
    rw [moved]
    exact done.kept key rows found

theorem lasts_concat {m : Move} : a.Lasts session s (moves ++ [m]) ↔
    a.Lasts session s moves ∧ ¬a.Ends session (a.resume s moves) m := by
  induction moves generalizing s with
  | nil => simp [Lasts]
  | cons n moves ih =>
    rw [List.cons_append, Lasts, Lasts, ih, resume_cons, and_assoc]

theorem renewed_resume (keyed : a.Keyed s) (there : s.sessions[session]? = some x)
    (h : a.Renewed ref session s [] x)
    (lasts : a.Lasts session s moves) :
    ∃ y, (a.resume s moves).sessions[session]? = some y ∧ a.Renewed ref session s moves y := by
  induction moves using List.reverseRecOn with
  | nil => exact ⟨x, there, h⟩
  | append_singleton moves m ih =>
    obtain ⟨earlier, last⟩ := lasts_concat.mp lasts
    obtain ⟨y, still, held⟩ := ih earlier
    obtain ⟨bound, -⟩ := List.getElem?_eq_some_iff.mp still
    rw [resume_concat]
    cases m with
    | opened =>
      refine ⟨y, ?_, held.elsewhere _⟩
      simp only [act, List.getElem?_append_left bound, still]
    | called i host call =>
      by_cases same : i = session
      · subst same
        refine ⟨_, ?_, held.called (keyed_resume keyed moves i y still) still last⟩
        rw [act_called still]
        exact List.getElem?_set_self bound
      · exact ⟨y, (sessions_act_of_ne same host call).trans still, held.elsewhere _⟩

theorem renewed_executed {before : Scene}
    (h : a.Retaining (a.origin session []) [] (x.executor, before.world))
    (there : before.sessions[session]? = some x) (isOpen : x.isClosed = false) (host : Host)
    {id : String} (parameters : List Value) {st : Statement}
    (known : a.catalog.statement id = .ok st) (bound : st.cache = some ref)
    (flushes : st.flushCacheRequired = true) :
    let executed := a.act before (.called session host (.update id parameters))
    ∃ y, executed.sessions[session]? = some y ∧ a.Renewed ref session executed [] y := by
  intro executed
  obtain ⟨range, -⟩ := List.getElem?_eq_some_iff.mp there
  have acted : executed = _ := act_called there host (.update id parameters)
  have found : (a.context session host).find id = .ok st := known
  refine ⟨_, by rw [acted]; exact List.getElem?_set_self range, ?_⟩
  obtain ⟨e, dirty⟩ := x
  rw [Session.perform, state_discard]
  cases e with
  | alone r =>
    have closed : r.closed = false := isOpen
    have done : (Session.update (a.context session host) id parameters
        (⟨.alone r, dirty⟩, before.world)).state.1 = ⟨.alone { r with results := .empty }, true⟩ := by
      simp [Session.update, bind_apply, found, Session.onExecutor, Executor.update, Executor.either,
        Runner.update, Runner.ensureOpen_apply, closed, Runner.clearResults]
    rw [done]
    refine ⟨h.environment, h.enabled, fun coordinates => ?_, fun _ _ kept => ?_⟩
    · cases coordinates
    · cases kept
  | coordinated c =>
    obtain ⟨r, os⟩ := c
    have closed : r.closed = false := isOpen
    rw [Session.state_update found _ closed, Statement.flush_clears bound flushes]
    refine ⟨h.environment, h.enabled, fun _ => Overlays.clears_clear ref, fun _ _ kept => ?_⟩
    cases kept

/-- The rows are a page of what the database answered to a query that the session sent, in a call of
its own after the scene. The query has the text that was asked for, and parameters that the key does
not tell from those that were. -/
inductive Fetched (a : Application) (session : Nat) (s : Scene) (moves : List Move)
    (asked : BoundSql) (bounds : RowBounds) (rows : Rows) : Prop where
  | intro (earlier later : List Move) (host : Host) (call : Call) (sent : List Event)
      (bound : BoundSql) (answer : Rows)
      (split : moves = earlier ++ .called session host call :: later)
      (after : (a.resume s earlier).world.log <+: sent)
      (reported : sent ++ [.query bound.sql bound.parameters] <+:
        (a.resume s (earlier ++ [.called session host call])).world.log)
      (answered : (a.connect session).query (sent ++ [.query bound.sql bound.parameters]) bound.sql
        bound.parameters = .ok answer)
      (sql_eq : bound.sql = asked.sql)
      (flat_eq : Value.flattenItems bound.parameters = Value.flattenItems asked.parameters)
      (rows_eq : rows = bounds.page answer)

theorem Issued.fetched (filed : a.catalog.Filed) {id : String} {st : Statement}
    (known : a.catalog.statement id = .ok st) (unmapped : st.mapper = none) {bounds : RowBounds}
    {asked : BoundSql} (h : a.Issued session s moves (a.keyOf st bounds asked) rows) :
    a.Fetched session s moves asked bounds rows := by
  obtain ⟨earlier, later, host, call, split, obtained⟩ := h
  obtain ⟨host', nesting, st', bounds', bound, r, w, sent, -, -, after, reported, selected⟩ :=
    obtained
  obtain ⟨⟨id', known'⟩, -, key_eq⟩ := sent
  obtain ⟨id_eq, rfl, sql_eq, flat_eq⟩ := Runner.keyOf_injective key_eq
  have same : id' = id := by rw [← filed id' st' known', ← filed id st known, id_eq]
  subst same
  cases known'.symm.trans known
  simp only [Runner.select, bind_apply, onSecond_apply, Database.runQuery] at selected
  cases answered : (a.connect session).query
      (w.report (.query bound.sql bound.parameters)).log bound.sql bound.parameters with
  | error e =>
    rw [answered] at selected
    cases selected
  | ok answer =>
    simp only [answered, unmapped] at selected
    cases selected
    exact ⟨earlier, later, host, call, w.log, bound, answer, split, after, reported, answered,
      sql_eq.symm, flat_eq.symm, rfl⟩

theorem Renewed.select (filed : a.catalog.Filed) (h : a.Renewed ref session s moves x)
    (own : a.Retaining (a.origin session []) [] (x.executor, (a.resume s moves).world))
    (there : (a.resume s moves).sessions[session]? = some x) (host : Host) {id : String}
    {st : Statement} (known : a.catalog.statement id = .ok st) (unmapped : st.mapper = none)
    (reads : st.cache = none ∨ st.cache = some ref) {parameters : List Value} {bounds : RowBounds}
    (ok : (Session.selectList (a.context session host) id parameters bounds
      (x, (a.resume s moves).world)).result = .ok rows) :
    let asked := st.source parameters
    (∃ v, (a.resume s moves).world.log <+: v.log ∧
      (Runner.queryWithKey (a.context session host) st bounds (a.keyOf st bounds asked) asked
        (x.executor.runner, v)).result = .ok rows) ∧
    a.Fetched session s (moves ++ [.called session host (.select id parameters bounds)]) asked bounds
      rows := by
  intro asked
  have hidden : x.executor.coordinates = true → ∀ ref', st.cache = some ref' →
      x.executor.overlays.Clears ref'.serial := by
    intro coordinates ref' cached
    rcases reads with none | some
    · cases none.symm.trans cached
    · cases some.symm.trans cached
      exact h.clears coordinates
  have found : (a.context session host).find id = .ok st := known
  have renewed := h.retaining own
  have admits : a.Admits session _ (a.issuing session s moves) := admits_issuing
  generalize scene : (a.resume s moves).world = w at ok renewed admits
  have selected : Session.selectList (a.context session host) id parameters bounds (x, w) =
      Session.onExecutor (Executor.query (a.context session host) st parameters bounds) (x, w) := by
    simp only [Session.selectList, bind_apply, ofExcept_apply, found]
  rw [selected] at ok
  have key_eq : x.executor.keyOf st bounds asked = a.keyOf st bounds asked :=
    Runner.keyOf_eq h.environment st bounds asked
  obtain ⟨v, grown, ran⟩ := Executor.query_hidden hidden ok
  rw [key_eq] at ran
  refine ⟨⟨v, grown, by rw [ran]⟩, Issued.fetched filed known unmapped (issued_of_covers ?_)⟩
  have moved : (a.resume s (moves ++ [.called session host (.select id parameters bounds)])).world =
      (Executor.query (a.context session host) st parameters bounds (x.executor, w)).state.2 := by
    rw [resume_concat, act_called there, scene, Session.perform, state_discard, selected]
    rfl
  -- whatever the executor's own part answers is among what it has issued
  have start : a.Executing (a.issuing session s moves) w.log v.caches (x.executor.runner, v) :=
    ⟨h.environment, rfl, grown, (renewed.elsewhere grown).kept⟩
  have answered := answers_queryWithin admits host a.nesting w.log v.caches st bounds _ asked
    (List.prefix_refl _) ⟨⟨id, known⟩, ⟨parameters, rfl⟩, rfl⟩ _ start
  have issued := answered.2 rows (congrArg Outcome.result ran)
  have world := congrArg (fun o => o.state.2.log) ran
  dsimp only at world
  rw [moved, ← world]
  exact issued

/-- After a write that clears a cache, and until its unit of work ends, a session reads its own
writes. Whatever other sessions publish, a select of a statement of that cache, or of none, answers
what the session's own part gives, which does not see the cache; and the rows come from a query that
the session has sent since the write. -/
theorem select_reads_own_writes (filed : a.catalog.Filed) (before : List Move)
    (there : (a.run w before).sessions[session]? = some x) (isOpen : x.isClosed = false)
    (host : Host) {id : String} (parameters : List Value) {st : Statement}
    (known : a.catalog.statement id = .ok st) (bound : st.cache = some ref)
    (flushes : st.flushCacheRequired = true) {executed : Scene}
    (executed_eq : executed = a.act (a.run w before) (.called session host (.update id parameters)))
    (lasts : a.Lasts session executed moves) {y : Session}
    (still : (a.resume executed moves).sessions[session]? = some y) (host' : Host) {id' : String}
    {st' : Statement} (known' : a.catalog.statement id' = .ok st') (unmapped : st'.mapper = none)
    (reads : st'.cache = none ∨ st'.cache = some ref) (parameters' : List Value)
    (bounds : RowBounds)
    (ok : (Session.selectList (a.context session host') id' parameters' bounds
      (y, (a.resume executed moves).world)).result = .ok rows) :
    let asked := st'.source parameters'
    (∃ v, (a.resume executed moves).world.log <+: v.log ∧
      (Runner.queryWithKey (a.context session host') st' bounds (a.keyOf st' bounds asked) asked
        (y.executor.runner, v)).result = .ok rows) ∧
    a.Fetched session executed (moves ++ [.called session host' (.select id' parameters' bounds)])
      asked bounds rows := by
  have keyed := keyed_run (a := a) w before
  obtain ⟨z, began, fresh⟩ := renewed_executed (keyed session x there) there isOpen host parameters
    known bound flushes
  have after := keyed_act keyed (.called session host (.update id parameters))
  rw [← executed_eq] at began fresh after
  obtain ⟨y', still', held⟩ := renewed_resume after began fresh lasts
  cases still'.symm.trans still
  exact held.select filed (keyed_resume after moves session y still) still host' known' unmapped
    reads ok

theorem filed_pair (connect : Nat → Database) : (pair connect).catalog.Filed :=
  ((Catalog.filed_ofSettings .default .builtIn).insert findNames).insert renameNames

/-- The second session writes what the first has published, the first publishes again, and the
second reads the one write. -/
theorem select_reads_own_writes_of_pair :
    let between : List Move :=
      [.called 0 .calm (.select "find" [.integer 7] .default), .called 0 .calm (.commit false)]
    let last := tallied.resume (rewritten committedEarly) between
    ∃ y, last.sessions[1]? = some y ∧
      (Session.selectList (tallied.context 1 .calm) "find" [.integer 7] .default
        (y, last.world)).result = .ok [[.integer 1]] ∧
      tallied.Fetched 1 (rewritten committedEarly)
        (between ++ [.called 1 .calm (.select "find" [.integer 7] .default)])
        (findNames.source [.integer 7]) .default [[.integer 1]] := by
  intro between last
  have lasts : tallied.Lasts 1 (rewritten committedEarly) between := by
    simp [between, Lasts, Ends]
  have there : (tallied.run (World.single (Cache.base "names")) committedEarly).sessions[1]? =
    some (Session.opened tallied.catalog) := rfl
  refine ⟨_, rfl, rfl, ?_⟩
  exact (select_reads_own_writes (filed_pair _) committedEarly there rfl .calm [] rfl rfl rfl rfl lasts
    rfl .calm rfl rfl (.inr rfl) [.integer 7] .default rfl).2

end Application
end StatementCache
