import StatementCache.Proofs.Contents.World
import StatementCache.Proofs.Sessions.Steps

/-! Where results come from. Every result that an executor keeps or hands out was selected from
its own database, by a query that is part of the report, for the key under which it is kept. -/
namespace StatementCache

open StatementCache.Action

namespace Runner

def hydrateWithin (ctx : Context) : Nat → RowMapper → Rows → Run Rows
  | 0 => fun _ _ => Action.fail .nestedTooDeep
  | nesting + 1 => fun mapper rows => hydrateVia ctx (queryWithin ctx nesting) (mapper rows)

theorem queryWithin_eq (ctx : Context) (nesting : Nat) :
    queryWithin ctx nesting = queryVia ctx.database (hydrateWithin ctx nesting) := by
  cases nesting with
  | zero => rfl
  | succ nesting => rfl

theorem keyOf_eq {r r' : Runner} (same : r.environmentId = r'.environmentId) (st : Statement)
    (bounds : RowBounds) (bound : BoundSql) : r.keyOf st bounds bound = r'.keyOf st bounds bound := by
  simp only [keyOf, same]

end Runner

namespace Application

/-- A query that a call of the application asks for, with its key. -/
structure Asked (a : Application) (st : Statement) (bounds : RowBounds) (key : CacheKey)
    (bound : BoundSql) : Prop where
  known : ∃ id, a.catalog.statement id = .ok st
  source : ∃ parameters, bound = st.source parameters
  key_eq : key = a.keyOf st bounds bound

/-- The rows come from the database of a session, by a query for the key that was reported after
`since`. A row mapper worked on them where the statement has one; what its executor knew by then
comes from the same database. -/
inductive Obtained (a : Application) (session : Nat) :
    List Event → List Event → CacheKey → Rows → Prop where
  | intro {since log : List Event} {key : CacheKey} {rows : Rows} (host : Host) (nesting : Nat)
      (st : Statement) (bounds : RowBounds) (bound : BoundSql) (r : Runner) (w : World)
      (asked : a.Asked st bounds key bound)
      (environment : r.environmentId = a.catalog.settings.environmentId)
      (kept : ∀ k known, r.results.rows? k = some known → a.Obtained session [] w.log k known)
      (after : since <+: w.log) (reported : w.log ++ [.query bound.sql bound.parameters] <+: log)
      (selected : (Runner.select (a.connect session)
        (Runner.hydrateWithin (a.context session host) nesting) st bounds bound (r, w)).result =
          .ok rows) : a.Obtained session since log key rows

variable {a : Application} {session : Nat} {since floor log log' : List Event} {key : CacheKey}
  {rows : Rows}

theorem Obtained.mono (h : a.Obtained session since log key rows) (longer : log <+: log') :
    a.Obtained session since log' key rows := by
  obtain ⟨host, nesting, st, bounds, bound, r, w, asked, environment, kept, after, reported,
    selected⟩ := h
  exact ⟨host, nesting, st, bounds, bound, r, w, asked, environment, kept, after,
    reported.trans longer, selected⟩

theorem Obtained.anytime (h : a.Obtained session since log key rows) :
    a.Obtained session [] log key rows := by
  obtain ⟨host, nesting, st, bounds, bound, r, w, asked, environment, kept, -, reported, selected⟩ :=
    h
  exact ⟨host, nesting, st, bounds, bound, r, w, asked, environment, kept, List.nil_prefix, reported,
    selected⟩

/-- A query was reported before some point of the report or after it. -/
theorem Obtained.before_or_after {mark : List Event} (h : a.Obtained session [] log key rows)
    (point : mark <+: log) :
    a.Obtained session mark log key rows ∨ a.Obtained session [] mark key rows := by
  obtain ⟨host, nesting, st, bounds, bound, r, w, asked, environment, kept, after, reported,
    selected⟩ := h
  rcases List.prefix_or_prefix_of_prefix reported point with sooner | later
  · exact .inr ⟨host, nesting, st, bounds, bound, r, w, asked, environment, kept, after, sooner,
      selected⟩
  · rcases List.prefix_concat_iff.mp later with same | later
    · exact .inr ⟨host, nesting, st, bounds, bound, r, w, asked, environment, kept, after,
        same ▸ List.prefix_refl _, selected⟩
    · exact .inl ⟨host, nesting, st, bounds, bound, r, w, asked, environment, kept, later, reported,
        selected⟩

structure Account (a : Application) (session : Nat) where
  Covers : List Event → CacheKey → Rows → Prop
  obtained : ∀ {log key rows}, Covers log key rows → a.Obtained session [] log key rows
  grows : ∀ {log log' key rows}, log <+: log' → Covers log key rows → Covers log' key rows

def origin (a : Application) (session : Nat) (since : List Event) : Account a session where
  Covers := a.Obtained session since
  obtained h := h.anytime
  grows longer h := h.mono longer

variable {V : Account a session} {caches : Table Nat Cache}

def Admits (a : Application) (session : Nat) (since : List Event) (V : Account a session) : Prop :=
  ∀ log key rows, a.Obtained session since log key rows → V.Covers log key rows

theorem admits_origin : a.Admits session since (a.origin session since) := fun _ _ _ h => h

/-- What holds while an executor works: the caches are left alone, the report grows, and every kept
result has a property. -/
structure Executing (a : Application) {session : Nat} (V : Account a session) (floor : List Event)
    (caches : Table Nat Cache) (s : Runner × World) : Prop where
  environment : s.1.environmentId = a.catalog.settings.environmentId
  caches_eq : s.2.caches = caches
  grown : floor <+: s.2.log
  kept : ∀ key rows, s.1.results.rows? key = some rows → V.Covers s.2.log key rows

namespace Executing

variable {r r' : Runner} {w w' : World}

theorem move (h : a.Executing V floor caches (r, w))
    (environment : r'.environmentId = r.environmentId) (same : w'.caches = w.caches)
    (grown : w.log <+: w'.log)
    (kept : ∀ key rows, r'.results.rows? key = some rows → r.results.rows? key = some rows) :
    a.Executing V floor caches (r', w') where
  environment := environment.trans h.environment
  caches_eq := same.trans h.caches_eq
  grown := h.grown.trans grown
  kept key rows found := V.grows grown (h.kept key rows (kept key rows found))

theorem runner (h : a.Executing V floor caches (r, w))
    (environment : r'.environmentId = r.environmentId)
    (kept : ∀ key rows, r'.results.rows? key = some rows → r.results.rows? key = some rows) :
    a.Executing V floor caches (r', w) :=
  h.move environment rfl (List.prefix_refl _) kept

theorem world (h : a.Executing V floor caches (r, w)) (same : w'.caches = w.caches)
    (grown : w.log <+: w'.log) : a.Executing V floor caches (r, w') :=
  h.move rfl same grown fun _ _ found => found

theorem onward {v : World} (h : a.Executing V v.log v.caches (r, w)) : v.Onward w := by
  have same : w.caches = v.caches := h.caches_eq
  refine ⟨h.grown, ?_⟩
  funext serial
  simp only [World.shape, same]

theorem raise (h : a.Executing V floor caches (r, w)) :
    a.Executing V w.log caches (r, w) :=
  ⟨h.environment, h.caches_eq, List.prefix_refl _, h.kept⟩

theorem lower {floor' : List Event} (h : a.Executing V floor' caches (r, w))
    (lower : floor <+: floor') : a.Executing V floor caches (r, w) :=
  ⟨h.environment, h.caches_eq, lower.trans h.grown, h.kept⟩

theorem complete (h : a.Executing V floor caches (r, w))
    (obtained : V.Covers w.log key rows) :
    a.Executing V floor caches
      ({ r with results := r.results.complete key rows }, w) := by
  refine ⟨h.environment, h.caches_eq, h.grown, ?_⟩
  intro other found
  rw [Results.rows?_complete]
  split
  · rename_i same
    intro eq
    cases eq
    exact same ▸ obtained
  · exact h.kept other found

theorem clearResults (h : a.Executing V floor caches (r, w)) :
    a.Executing V floor caches (r.clearResults, w) := by
  unfold Runner.clearResults
  split
  · exact h
  · exact h.runner rfl fun _ _ found => by cases found

end Executing

def Answered (a : Application) {session : Nat} (V : Account a session) (floor : List Event)
    (caches : Table Nat Cache) (key : CacheKey) (r : Except Fault Rows) (s : Runner × World) : Prop :=
  a.Executing V floor caches s ∧ ∀ rows, r = .ok rows → V.Covers s.2.log key rows

def Answers (a : Application) {session : Nat} (since : List Event) (V : Account a session)
    (query : Statement → RowBounds → CacheKey → BoundSql → Runner.Run Rows) : Prop :=
  ∀ floor caches st bounds key bound, since <+: floor → a.Asked st bounds key bound →
    Meets (a.Executing V floor caches) (query st bounds key bound)
      (a.Answered V floor caches key)

theorem keeps_fillDeferred (results : Results) (waiting : List (CacheKey × Slot)) (w : World) :
    (Runner.fillDeferred results waiting w).caches = w.caches ∧
      (Runner.fillDeferred results waiting w).log = w.log := by
  induction waiting generalizing w with
  | nil => exact ⟨rfl, rfl⟩
  | cons entry waiting ih =>
    obtain ⟨k, slot⟩ := entry
    simp only [Runner.fillDeferred, List.foldl_cons] at ih ⊢
    split
    · exact ih (w.fill slot _)
    · exact ih w

theorem log_finish (succeeded : Bool) (s : Runner × World) :
    (Runner.finish succeeded s).state.2.log = s.2.log := by
  simp only [Runner.finish, modify_apply]
  cases succeeded with
  | false => rfl
  | true => exact (keeps_fillDeferred s.1.results s.1.deferred s.2).2

theorem keeps_finish (succeeded : Bool) :
    Keeps (a.Executing V floor caches) (Runner.finish succeeded) := by
  rintro ⟨r, w⟩ h
  have kept : ∀ key rows,
      Results.rows? (if r.scope = .statement then .empty else r.results) key = some rows →
        r.results.rows? key = some rows := by
    intro key rows found
    split at found
    · cases found
    · exact found
  simp only [Runner.finish, modify_apply]
  cases succeeded with
  | false => exact h.runner rfl kept
  | true =>
    obtain ⟨same, log⟩ := keeps_fillDeferred r.results r.deferred w
    exact h.move rfl same (log ▸ List.prefix_refl _) kept

theorem keeps_ensureOpen : Keeps (a.Executing V floor caches) Runner.ensureOpen := by
  rintro ⟨r, w⟩ h
  rw [Runner.ensureOpen_apply]
  split
  · exact h
  · exact h

theorem keeps_clearResults :
    Keeps (a.Executing V floor caches)
      (onFirst (modify Runner.clearResults) : Runner.Run Unit) :=
  fun _ h => h.clearResults

theorem keeps_boundary (db : Database) (b : Boundary) :
    Keeps (a.Executing V floor caches) (onSecond (db.runBoundary b)) := by
  rintro ⟨r, w⟩ h
  simp only [onSecond_apply, Database.runBoundary]
  cases db.boundary b with
  | none => exact h
  | some answer => exact h.world rfl (List.prefix_append _ _)

theorem keeps_execute (db : Database) (bound : BoundSql) :
    Keeps (a.Executing V floor caches) (onSecond (db.runExecute bound)) :=
  fun _ h => h.world rfl (List.prefix_append _ _)

theorem keeps_update (db : Database) (st : Statement) (parameters : List Value) :
    Keeps (a.Executing V floor caches) (Runner.update db st parameters) :=
  keeps_ensureOpen.bind fun _ => keeps_clearResults.bind fun _ => keeps_execute db _

/-- A select reports its query first, so its rows have their origin in what is reported now. -/
theorem meets_select (admits : a.Admits session since V) {host : Host} {nesting : Nat}
    {st : Statement} {bounds : RowBounds} {bound : BoundSql} (start : since <+: floor)
    (asked : a.Asked st bounds key bound)
    (hydrate : ∀ floor mapper rows, since <+: floor →
      Keeps (a.Executing V floor caches)
        (Runner.hydrateWithin (a.context session host) nesting mapper rows)) :
    Meets (a.Executing V floor caches)
      (Runner.select (a.connect session) (Runner.hydrateWithin (a.context session host) nesting)
        st bounds bound)
      (a.Answered V floor caches key) := by
  rintro ⟨r, w⟩ h
  have after : since <+: w.log := start.trans h.grown
  let asking := w.report (.query bound.sql bound.parameters)
  have reported : w.log <+: asking.log := List.prefix_append _ _
  -- what the mapper does starts from the report of the query
  suffices a.Executing V asking.log caches
      (Runner.select (a.connect session) (Runner.hydrateWithin (a.context session host) nesting)
        st bounds bound (r, w)).state by
    refine ⟨this.lower (h.grown.trans reported), fun rows selected => ?_⟩
    exact admits _ _ _ ⟨host, nesting, st, bounds, bound, r, w, asked, h.environment,
      fun key rows found => V.obtained (h.kept key rows found), after, this.grown, selected⟩
  have sent : a.Executing V floor caches (r, asking) := h.world rfl reported
  have begun : a.Executing V asking.log caches (r, asking) := sent.raise
  simp only [Runner.select, bind_apply, onSecond_apply, Database.runQuery]
  cases (a.connect session).query asking.log bound.sql bound.parameters with
  | error e => exact begun
  | ok rows =>
    cases st.mapper with
    | none => exact begun
    | some mapper => exact hydrate asking.log mapper _ (after.trans reported) (r, asking) begun

theorem meets_lookup {db : Database} {hydrate : RowMapper → Rows → Runner.Run Rows}
    {st : Statement} {bounds : RowBounds} {bound : BoundSql}
    (select : Meets (a.Executing V floor caches)
      (Runner.select db hydrate st bounds bound) (a.Answered V floor caches key)) :
    Meets (a.Executing V floor caches)
      (Runner.lookup db hydrate st bounds key bound)
      (a.Answered V floor caches key) := by
  rintro ⟨r, w⟩ h
  rw [Runner.lookup_apply]
  cases found : r.results.find? key with
  | some entry =>
    cases entry with
    | inProgress => exact ⟨h, fun _ eq => by cases eq⟩
    | rows kept =>
      refine ⟨h, fun rows eq => ?_⟩
      cases eq
      exact h.kept key kept (by simp only [Results.rows?, found])
  | none =>
    have marked : a.Executing V floor caches
        ({ r with results := r.results.mark key }, w) := by
      refine h.runner rfl fun other rows found => ?_
      rw [Results.rows?_mark] at found
      split at found
      · cases found
      · exact found
    have selected := select _ marked
    rcases ran : Runner.select db hydrate st bounds bound
      ({ r with results := r.results.mark key }, w) with ⟨e | rows, r', w'⟩ <;>
      rw [ran] at selected
    · refine ⟨selected.1.runner rfl fun other rows found => ?_, fun _ eq => by cases eq⟩
      rwa [Results.rows?_abort] at found
    · have obtained := selected.2 rows rfl
      refine ⟨selected.1.complete obtained, fun _ eq => ?_⟩
      cases eq
      exact obtained

theorem meets_queryVia {db : Database} {hydrate : RowMapper → Rows → Runner.Run Rows}
    {st : Statement} {bounds : RowBounds} {bound : BoundSql}
    (select : Meets (a.Executing V floor caches)
      (Runner.select db hydrate st bounds bound) (a.Answered V floor caches key)) :
    Meets (a.Executing V floor caches)
      (Runner.queryVia db hydrate st bounds key bound)
      (a.Answered V floor caches key) := by
  rintro ⟨r, w⟩ h
  rw [Runner.queryVia_apply]
  split
  · exact ⟨h, fun _ eq => by cases eq⟩
  · have entered : a.Executing V floor caches (r.enter st, w) := by
      unfold Runner.enter
      split
      · exact h.clearResults.runner rfl fun _ _ found => found
      · exact h.runner rfl fun _ _ found => found
    have looked := meets_lookup select _ entered
    generalize Runner.lookup db hydrate st bounds key bound (r.enter st, w) = o at looked
    obtain ⟨result, r', w'⟩ := o
    have left : a.Executing V floor caches (r'.leave, w') :=
      looked.1.runner rfl fun _ _ found => found
    dsimp only
    split
    · refine ⟨keeps_finish result.isOk _ left, fun rows eq => ?_⟩
      rw [log_finish]
      exact looked.2 rows eq
    · exact ⟨left, looked.2⟩

theorem keeps_defer (key : CacheKey) (slot : Slot) :
    Keeps (a.Executing V floor caches) (Runner.defer key slot) := by
  refine keeps_ensureOpen.bind fun _ => Keeps.get.bind fun s => ?_
  split
  · exact fun _ h => h.world rfl (List.prefix_refl _)
  · exact fun _ h => h.runner rfl fun _ _ found => found

theorem keeps_of_ends {db : Database} {b : Boundary} {m : Runner.Run Unit}
    (ends : ∀ r w, Runner.Ends db b r w (m (r, w))) : Keeps (a.Executing V floor caches) m := by
  rintro ⟨r, w⟩ h
  have ended := ends r w
  have cleared := keeps_clearResults _ h
  generalize m (r, w) = o at ended ⊢
  cases ended with
  | asked => exact keeps_boundary db b _ cleared
  | unasked reply said => exact cleared

theorem keeps_commit (db : Database) (required : Bool) :
    Keeps (a.Executing V floor caches) (Runner.commit db required) :=
  keeps_of_ends (Runner.ends_commit db required)

theorem keeps_rollback (db : Database) (required : Bool) :
    Keeps (a.Executing V floor caches) (Runner.rollback db required) :=
  keeps_of_ends (Runner.ends_rollback db required)

theorem keeps_reply {α : Type} {m : Runner.Run α}
    (h : Keeps (a.Executing V floor caches) m) :
    Keeps (a.Executing V floor caches) (Runner.reply m) := by
  refine h.attempt.bind fun r => ?_
  split
  · exact Keeps.fail _
  · exact Keeps.pure _

variable {query : Statement → RowBounds → CacheKey → BoundSql → Runner.Run Rows}

theorem keeps_answer (answers : a.Answers since V query) (start : since <+: floor)
    {st : Statement} (known : ∃ id, a.catalog.statement id = .ok st) (parameters : List Value)
    (bounds : RowBounds) {r : Runner} {w : World} (h : a.Executing V floor caches (r, w)) :
    a.Executing V floor caches
      (query st bounds (r.keyOf st bounds (st.source parameters)) (st.source parameters)
        (r, w)).state :=
  (answers floor caches st bounds _ _ start
    ⟨known, ⟨parameters, rfl⟩, Runner.keyOf_eq h.environment st bounds _⟩ _ h).1

theorem keeps_withKey (answers : a.Answers since V query) (start : since <+: floor)
    {st : Statement} (known : ∃ id, a.catalog.statement id = .ok st) (parameters : List Value)
    (bounds : RowBounds) :
    Keeps (a.Executing V floor caches)
      (Runner.withKey query st parameters bounds) :=
  fun _ h => keeps_answer answers start known parameters bounds h

theorem keeps_loadVia (answers : a.Answers since V query) (start : since <+: floor)
    {st : Statement} (known : ∃ id, a.catalog.statement id = .ok st) (parameters : List Value) :
    Keeps (a.Executing V floor caches) (Runner.loadVia query st parameters) := by
  rintro ⟨r, w⟩ h
  simp only [Runner.loadVia, bind_apply, get_apply]
  split
  · have slot : Keeps (a.Executing V floor caches)
        (onSecond (total World.newSlot) : Runner.Run Slot) :=
      fun _ h => h.world rfl (List.prefix_refl _)
    exact (slot.bind fun slot => (keeps_defer _ slot).bind fun _ => Keeps.pure _) _ h
  · have answered := keeps_answer answers start known parameters .default h
    rw [bind_apply]
    generalize query st .default (r.keyOf st .default (st.source parameters))
      (st.source parameters) (r, w) = o at answered ⊢
    obtain ⟨e | rows, s⟩ := o
    · exact answered
    · exact answered

theorem keeps_hydrateVia {ctx : Context} (answers : a.Answers since V query)
    (start : since <+: floor) (find : ctx.find = a.catalog.statement) (work : Hydration) :
    Keeps (a.Executing V floor caches) (Runner.hydrateVia ctx query work) := by
  have called {α : Type} (id : String) (m : Statement → Runner.Run α)
      (h : ∀ st, (∃ id, a.catalog.statement id = .ok st) →
        Keeps (a.Executing V floor caches) (m st)) :
      Keeps (a.Executing V floor caches)
        (Runner.reply do
          let st ← Action.ofExcept (ctx.find id)
          m st) := by
    refine keeps_reply fun s hs => ?_
    rw [find]
    cases found : a.catalog.statement id with
    | error e => exact hs
    | ok st => exact h st ⟨id, found⟩ s hs
  induction work with
  | done rows => exact Keeps.pure rows
  | failed e => exact Keeps.fail e
  | find id next ih => exact ih _
  | load id parameters next ih =>
    refine (called id _ fun st known => ?_).bind ih
    exact keeps_loadVia answers start known parameters
  | query id parameters bounds next ih =>
    refine (called id _ fun st known => ?_).bind ih
    exact keeps_withKey answers start known parameters bounds
  | cached id parameters bounds next ih =>
    exact (called id _ fun st _ => Keeps.get.bind fun s => Keeps.pure _).bind ih
  | update id parameters next ih =>
    exact (called id _ fun st _ => keeps_update ctx.database st parameters).bind ih
  | commit required next ih => exact (keeps_reply (keeps_commit ctx.database required)).bind ih
  | rollback required next ih => exact (keeps_reply (keeps_rollback ctx.database required)).bind ih
  | clear next ih => exact keeps_clearResults.bind fun _ => ih
  | keep value next ih =>
    exact Keeps.bind (fun _ h => h.world rfl (List.prefix_refl _)) fun _ => ih

/-- However deep row mappers run inside one another, every query answers what it was asked. -/
theorem answers_queryWithin (admits : a.Admits session since V) (host : Host) (nesting : Nat) :
    a.Answers since V (Runner.queryWithin (a.context session host) nesting) := by
  induction nesting with
  | zero =>
    intro floor caches st bounds key bound start asked
    rw [Runner.queryWithin_eq]
    exact meets_queryVia (meets_select admits start asked fun _ _ _ _ => Keeps.fail _)
  | succ nesting ih =>
    intro floor caches st bounds key bound start asked
    rw [Runner.queryWithin_eq]
    refine meets_queryVia (meets_select admits start asked fun floor mapper rows start => ?_)
    exact keeps_hydrateVia ih start rfl (mapper rows)

theorem keeps_close (db : Database) (rollbackRequired : Bool) :
    Keeps (a.Executing V floor caches) (Runner.close db rollbackRequired) := by
  refine Keeps.get.bind fun s => ?_
  split
  · refine (keeps_rollback db rollbackRequired).attempt.bind fun _ => ?_
    refine (keeps_boundary db .close).attempt.bind fun _ => ?_
    refine Keeps.bind (fun _ h => ?_) fun _ => Keeps.ofExcept _
    exact h.runner rfl fun _ _ found => by cases found
  · exact Keeps.pure ()

def Works (a : Application) {session : Nat} (since : List Event) (V : Account a session) {α : Type}
    (m : Runner.Run α) : Prop :=
  ∀ floor caches, since <+: floor → Keeps (a.Executing V floor caches) m

/-- A session keeps what its overlays keep and what work on its own results keeps. Selects stand
apart, since they buffer what they have just run. -/
theorem keeps_perform_of_works {I : Executor × World → Prop} {host : Host} (call : Call)
    (runs : ∀ {α : Type} {m : Runner.Run α}, a.Works since V m → Keeps I (Executor.onRunner m))
    (query : ∀ id parameters bounds st, call = .select id parameters bounds →
      a.catalog.statement id = .ok st →
        Keeps I (Executor.query (a.context session host) st parameters bounds))
    (clear : ∀ ref, Keeps (fun s : Coordinator × World => I (.coordinated s.1, s.2))
      (Coordinator.onOverlays (Overlays.clear ref)))
    (commit : call.Publishes → Keeps (fun s : Coordinator × World => I (.coordinated s.1, s.2))
      (Coordinator.onOverlays (Overlays.commit (World.find? host))))
    (rollback : call.Ends → Keeps (fun s : Coordinator × World => I (.coordinated s.1, s.2))
      (Coordinator.onOverlays (Overlays.rollback (World.find? host)))) :
    Keeps (fun s : Session × World => I (s.1.executor, s.2))
      (Session.perform (a.context session host) call) := by
  have updates (st : Statement) (parameters : List Value) :
      a.Works since V (Runner.update (a.connect session) st parameters) :=
    fun _ _ _ => keeps_update _ st parameters
  have commits (required : Bool) : a.Works since V (Runner.commit (a.connect session) required) :=
    fun _ _ _ => keeps_commit _ required
  have rollbacks (required : Bool) :
      a.Works since V (Runner.rollback (a.connect session) required) :=
    fun _ _ _ => keeps_rollback _ required
  have closes (required : Bool) : a.Works since V (Runner.close (a.connect session) required) :=
    fun _ _ _ => keeps_close _ required
  -- alone and behind overlays an executor's own work is the same
  have behind {α : Type} {m : Runner.Run α} (works : a.Works since V m) :
      Keeps (fun s : Coordinator × World => I (.coordinated s.1, s.2)) (Coordinator.onRunner m) :=
    fun s hs => runs works (.coordinated s.1, s.2) hs
  have either {α : Type} {m : Runner.Run α} {n : Coordinator.Run α} (works : a.Works since V m)
      (several : Keeps (fun s : Coordinator × World => I (.coordinated s.1, s.2)) n) :
      Keeps I (Executor.either m n) := by
    rintro ⟨e, w⟩ h
    cases e with
    | alone r => exact runs works (.alone r, w) h
    | coordinated c => exact several (c, w) h
  apply Session.keeps_perform
  · exact query
  · exact fun _ parameters st _ _ => either (updates st parameters)
      (Coordinator.keeps_update clear (behind (updates st parameters)))
  · rintro force required rfl
    exact either (commits required) ((behind (commits required)).bind fun _ => commit trivial)
  · rintro force required rfl
    exact either (rollbacks required) ((behind (rollbacks required)).both (rollback trivial))
  · exact fun _ => runs (m := onFirst (modify Runner.clearResults)) fun _ _ _ => keeps_clearResults
  · rintro required rfl
    refine either (closes required) ?_
    unfold Coordinator.close
    split
    · exact (behind (closes true)).both (rollback trivial)
    · refine (commit trivial).attempt.bind fun _ => ?_
      exact (behind (closes false)).attempt.bind fun _ => Keeps.ofExcept _

end Application
end StatementCache
