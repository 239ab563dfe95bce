import StatementCache.Proofs.Sessions.Boundaries
import StatementCache.Proofs.Sessions.Reading

/-! A unit of work that clears a cache. Its clear waits for the commit, which replaces what the cache
holds by what was read after the write. -/
namespace StatementCache

open StatementCache.Action

def Overlays.Clears (serial : Nat) (os : Overlays) : Prop :=
  ∃ o, os.bySerial.get? serial = some o ∧ o.clearOnCommit = true

namespace Overlays

variable {serial : Nat} {os : Overlays}

theorem Clears.overlay (h : os.Clears serial) {ref : CacheRef} (same : ref.serial = serial) :
    (os.overlay ref).clearOnCommit = true := by
  obtain ⟨o, found, clears⟩ := h
  subst same
  simp only [Overlays.overlay, found, Option.getD_some, clears]

theorem Clears.insert (h : os.Clears serial) {j : Nat} {o : Overlay}
    (clears : j = serial → o.clearOnCommit = true) : Clears serial ⟨os.bySerial.insert j o⟩ := by
  by_cases same : j = serial
  · exact ⟨o, by simp only [Table.get?_insert, same, if_true], clears same⟩
  · obtain ⟨p, found, clears⟩ := h
    exact ⟨p, by simp only [Table.get?_insert, same, if_false, found], clears⟩

theorem clears_clear (ref : CacheRef) :
    Clears ref.serial ⟨os.bySerial.insert ref.serial (os.overlay ref).clear⟩ :=
  ⟨_, by rw [Table.get?_insert, if_pos rfl], rfl⟩

theorem Clears.get (h : os.Clears serial) (directory : Directory World) (ref : CacheRef)
    (k : CacheKey) (w : World) : Clears serial (get directory ref k (os, w)).state.1 := by
  rw [Overlays.get, onOverlay_apply]
  refine h.insert fun same => ?_
  have clears := h.overlay same
  rcases Overlay.fst_get directory k (os.overlay ref) w with looked | looked
  · rw [looked]
    exact clears
  · rw [looked, Overlay.clearOnCommit_miss]
    exact clears

end Overlays

namespace Application

/-- The move ends the unit of work of a session: a rollback, a close, or a commit that the database
does not refuse. -/
def Ends (a : Application) (session : Nat) (s : Scene) : Move → Prop
  | .opened => False
  | .called i host call => i = session ∧ match call with
    | .rollback _ | .close => True
    | .commit force =>
      ∃ x, s.sessions[i]? = some x ∧ Session.Durable (a.context i host) force (x, s.world)
    | .select _ _ _ | .update _ _ | .clearCache => False

def Lasts (a : Application) (session : Nat) : Scene → List Move → Prop
  | _, [] => True
  | s, m :: moves => ¬a.Ends session s m ∧ a.Lasts session (a.act s m) moves

/-- A unit of work of the writer from its write of a statement that clears the cache, which leads
to `executed`, up to its commit, which leads to `committed`. -/
inductive Flushes (a : Application) (ref : CacheRef) (writer : Nat)
    (before executed committed : Scene) : Prop where
  | intro (x : Session) (there : before.sessions[writer]? = some x) (isOpen : x.isClosed = false)
      (host : Host) (id : String) (parameters : List Value) (st : Statement)
      (known : a.catalog.statement id = .ok st) (bound : st.cache = some ref)
      (flushes : st.flushCacheRequired = true)
      (executed_eq : executed = a.act before (.called writer host (.update id parameters)))
      (moves : List Move) (lasts : a.Lasts writer executed moves)
      (y : Session) (still : (a.resume executed moves).sessions[writer]? = some y)
      (host' : Host) (force : Bool)
      (durable : Session.Durable (a.context writer host') force
        (y, (a.resume executed moves).world))
      (committed_eq : committed =
        a.act (a.resume executed moves) (.called writer host' (.commit force)))

variable {a : Application} {w : World} {ref : CacheRef} {writer first : Nat} {mark : List Event}
  {s : Scene}

section

variable {ctx : Context} {serial : Nat}

def Clearing (serial : Nat) (s : Executor × World) : Prop := s.1.overlays.Clears serial

def CoordinatedClearing (serial : Nat) (s : Coordinator × World) : Prop :=
  s.1.overlays.Clears serial

theorem keeps_clearing_run {α : Type} (m : Runner.Run α) :
    Keeps (CoordinatedClearing serial) (Coordinator.onRunner m) := fun _ h => h

theorem keeps_clearing_clear (ref : CacheRef) :
    Keeps (CoordinatedClearing serial) (Coordinator.onOverlays (Overlays.clear ref)) :=
  fun _ h => Overlays.Clears.insert h fun _ => rfl

theorem keeps_clearing_either {α : Type} {alone : Runner.Run α} {m : Coordinator.Run α}
    (h : Keeps (CoordinatedClearing serial) m) :
    Keeps (Clearing serial) (Executor.either alone m) := by
  rintro ⟨e, w⟩ clears
  cases e with
  | alone r => exact clears
  | coordinated c => exact h (c, w) clears

theorem keeps_clearing_query (st : Statement) (parameters : List Value) (bounds : RowBounds) :
    Keeps (Clearing serial) (Executor.query ctx st parameters bounds) := by
  intro s h
  have keeps (key : CacheKey) : Keeps (CoordinatedClearing serial)
      (Coordinator.queryWithKey ctx st bounds key (st.source parameters)) := by
    refine Coordinator.keeps_queryWithKey (keeps_clearing_run _) keeps_clearing_clear
      (fun ref s h => ?_) fun ref rows s h => ?_
    · exact Overlays.Clears.get h _ ref key s.2
    · exact Overlays.Clears.insert h fun same => Overlays.Clears.overlay h same
  exact keeps_clearing_either (keeps (s.1.keyOf st bounds (st.source parameters))) s h

theorem keeps_clearing_update (st : Statement) (parameters : List Value) :
    Keeps (Clearing serial) (Executor.update ctx st parameters) :=
  keeps_clearing_either (Coordinator.keeps_update keeps_clearing_clear (keeps_clearing_run _))

/-- No operation inside a unit of work takes a clear back. -/
theorem keeps_clearing_perform (call : Call) (within : ¬call.Ends) :
    Keeps (fun s : Session × World => Clearing serial (s.1.executor, s.2))
      (Session.perform ctx call) := by
  apply Session.keeps_perform
  · exact fun _ parameters bounds st _ _ => keeps_clearing_query st parameters bounds
  · exact fun _ parameters st _ _ => keeps_clearing_update st parameters
  · rintro force _ rfl
    exact absurd trivial within
  · rintro force _ rfl
    exact absurd trivial within
  · exact fun _ => keeps_clearing_either (keeps_clearing_run _)
  · rintro _ rfl
    exact absurd trivial within

end

theorem clears_perform {i : Nat} {x : Session} (there : s.sessions[i]? = some x)
    (clears : x.overlays.Clears ref.serial) {host : Host} {call : Call}
    (lasts : ¬a.Ends i s (.called i host call)) :
    (Session.perform (a.context i host) call (x, s.world)).state.1.overlays.Clears ref.serial := by
  have within (h : ¬call.Ends) : Clearing ref.serial
      ((Session.perform (a.context i host) call (x, s.world)).state.1.executor,
        (Session.perform (a.context i host) call (x, s.world)).state.2) :=
    keeps_clearing_perform call h (x, s.world) clears
  cases call with
  | select _ _ _ => exact within not_false
  | update _ _ => exact within not_false
  | clearCache => exact within not_false
  | rollback force => exact absurd ⟨rfl, trivial⟩ lasts
  | close => exact absurd ⟨rfl, trivial⟩ lasts
  | commit force =>
    obtain ⟨executor, dirty⟩ := x
    cases executor with
    | alone r =>
      obtain ⟨o, found, -⟩ := clears
      cases found
    | coordinated c =>
      obtain ⟨r, os⟩ := c
      have refused : ¬Session.Durable (a.context i host) force (.sharing r os dirty, s.world) :=
        fun durable => lasts ⟨rfl, _, there, durable⟩
      rw [Session.perform, Session.overlays_commit_of_refused refused]
      exact clears

structure Working (a : Application) (w : World) (ref : CacheRef) (writer first : Nat)
    (mark : List Event) (s : Scene) : Prop where
  custody : a.InCustody (startOf writer first mark) w
    (a.reading ref.serial (startOf writer first mark)) .free s
  older : first ≤ s.sessions.length
  clears : ∃ x, s.sessions[writer]? = some x ∧ x.overlays.Clears ref.serial

theorem Working.allows (h : a.Working w ref writer first mark s) (m : Move) :
    a.Allows (startOf writer first mark) (a.reading ref.serial (startOf writer first mark))
      .free s m := by
  obtain ⟨x, there, -⟩ := h.clears
  obtain ⟨bound, -⟩ := List.getElem?_eq_some_iff.mp there
  refine ⟨fun _ => ?_, fun i _ _ _ _ => reading_receives ref.serial _ i,
    fun _ _ _ _ _ => Ledger.publishes_free _⟩
  rw [startOf_later h.older]
  exact mark_reported h.custody bound

theorem Working.act (h : a.Working w ref writer first mark s) {m : Move}
    (lasts : ¬a.Ends writer s m) : a.Working w ref writer first mark (a.act s m) := by
  refine ⟨inCustody_act (reading_persists ref.serial _) Ledger.free_grows h.custody
    (h.allows m), Nat.le_trans h.older (length_act m), ?_⟩
  obtain ⟨x, there, clears⟩ := h.clears
  cases m with
  | opened =>
    obtain ⟨bound, -⟩ := List.getElem?_eq_some_iff.mp there
    refine ⟨x, ?_, clears⟩
    simp only [Application.act, List.getElem?_append_left bound, there]
  | called i host call =>
    by_cases same : i = writer
    · subst same
      obtain ⟨bound, -⟩ := List.getElem?_eq_some_iff.mp there
      rw [act_called there]
      exact ⟨_, List.getElem?_set_self bound, clears_perform there clears lasts⟩
    · exact ⟨x, (sessions_act_of_ne same host call).trans there, clears⟩

theorem Working.resume {moves : List Move} (h : a.Working w ref writer first mark s)
    (lasts : a.Lasts writer s moves) : a.Working w ref writer first mark (a.resume s moves) := by
  induction moves generalizing s with
  | nil => exact h
  | cons m moves ih =>
    rw [resume_cons]
    exact ih (h.act lasts.1) lasts.2

theorem coordinated_of_enabled {e : Executor} (enabled : e.coordinates = true) :
    ∃ r os, e = .coordinated ⟨r, os⟩ := by
  cases e with
  | alone r => cases enabled
  | coordinated c => exact ⟨c.runner, c.overlays, rfl⟩

theorem working_executed {before : Scene} {x : Session} (host : Host) {id : String}
    (parameters : List Value) {st : Statement}
    (h : a.InCustody (fun _ => []) w (a.reading ref.serial fun _ => []) .free before)
    (enabled : a.catalog.settings.cacheEnabled = true)
    (there : before.sessions[writer]? = some x) (isOpen : x.isClosed = false)
    (known : a.catalog.statement id = .ok st) (bound : st.cache = some ref)
    (flushes : st.flushCacheRequired = true) :
    let executed := a.act before (.called writer host (.update id parameters))
    a.Working w ref writer executed.sessions.length executed.world.log executed := by
  intro executed
  obtain ⟨e, dirty⟩ := x
  obtain ⟨r, os, rfl⟩ := coordinated_of_enabled ((h.sessions writer _ there).enabled.trans enabled)
  have custody : a.InCustody (fun _ => []) w (a.reading ref.serial fun _ => []) .free executed :=
    inCustody_reading h [.called writer host (.update id parameters)]
  have mine : executed.sessions[writer]? = some (.sharing { r with results := .empty }
      ⟨os.bySerial.insert ref.serial (os.overlay ref).clear⟩ true) := by
    obtain ⟨range, -⟩ := List.getElem?_eq_some_iff.mp there
    have acted : executed = _ := act_called there host (.update id parameters)
    have found : (a.context writer host).find id = .ok st := known
    have closed : r.closed = false := isOpen
    rw [acted, Session.perform, state_discard, Session.state_update found _ closed,
      Statement.flush_clears bound flushes]
    exact List.getElem?_set_self range
  refine ⟨inCustody_restarted custody fun y found => ?_, Nat.le_refl _,
    ⟨_, mine, Overlays.clears_clear ref⟩⟩
  have held := custody.sessions writer y found
  cases mine.symm.trans found
  refine ⟨held.environment, held.enabled, List.prefix_refl _, held.onward, fun _ _ kept => ?_,
    Ledger.holds_cleared held.buffered, held.shared⟩
  cases kept

theorem shared_committed {V : List Event → CacheKey → Rows → Prop}
    (h : a.Working w ref writer first mark s)
    (uncopied : ∀ c, w.shape ref.serial = some c → c.copies = false) {y : Session}
    (still : s.sessions[writer]? = some y) {host : Host} {force : Bool}
    (durable : Session.Durable (a.context writer host) force (y, s.world))
    (fresh : ∀ log k rows, a.Obtained writer mark log k rows → V log k rows) :
    let committed := a.act s (.called writer host (.commit force))
    committed.world.Holds (Ledger.rowsIn ref.serial V committed.world.log) := by
  intro committed
  obtain ⟨x, there, o, found, clear⟩ := h.clears
  cases there.symm.trans still
  obtain ⟨e, dirty⟩ := y
  cases e with
  | alone r => cases found
  | coordinated c =>
    obtain ⟨r, os⟩ := c
    have custody := h.custody.sessions writer _ still
    rw [startOf_writer] at custody
    have done := keeps_commit (a.connect writer) (dirty || force) (r, s.world) custody.executing
    have same : committed.world = _ :=
      (congrArg Scene.world (act_called still host (.commit force))).trans
        (Session.world_commit_of_durable durable)
    dsimp only [context] at same
    generalize (Runner.commit (a.connect writer) (dirty || force) (r, s.world)).state = state
      at done same
    obtain ⟨r', v⟩ := state
    -- the commit of the overlays starts where the database has left the world
    have onward : s.world.Onward v := done.onward
    have stocked : World.Stocked (Ledger.free v.log) v v := by
      refine ⟨fun serial c there => ?_, rfl, rfl⟩
      have caches : v.caches = s.world.caches := done.caches_eq
      rw [caches] at there
      exact Ledger.free_grows _ _ serial c onward.grown (h.custody.shared serial c there)
    have buffered : os.Holds (Ledger.rowsIn ref.serial V v.log) := by
      refine custody.buffered.mono fun serial k e held same rows eq => ?_
      have read := held same rows eq
      rw [startOf_writer] at read
      exact fresh v.log k rows (read.mono onward.grown)
    have published : World.Stocked (Ledger.rowsIn ref.serial V v.log) v
        (Overlays.commit (World.find? host) (os, v)).state.2 := by
      refine Overlays.stocked_commit_replacing found clear buffered (fun _ _ _ _ eq => ?_)
        (fun j other => Ledger.rowsIn_other v.log other) stocked fun c there copies => ?_
      · cases eq
      · have shape : v.shape = w.shape := onward.shaped.trans h.custody.onward.shaped
        rw [shape] at there
        rw [uncopied c there] at copies
        cases copies
    rw [same, published.log_eq]
    exact published.holds

end Application
end StatementCache
