import StatementCache.Mapper
import StatementCache.Proofs.Overlay.Paired
import StatementCache.Proofs.Sessions.Origin

/-! Two sessions in the same state over passive caches that are alike. With a database that answers
by the statement alone they answer alike, and what they send to it is the same. -/
namespace StatementCache

open StatementCache.Action

/-- The answers do not depend on what was sent before. -/
structure Database.Timeless (db : Database) : Prop where
  query : ∀ log log' sql parameters, db.query log sql parameters = db.query log' sql parameters
  execute : ∀ log log' sql parameters,
    db.execute log sql parameters = db.execute log' sql parameters
  boundary : ∀ b answer, db.boundary b = some answer → ∀ log log', answer log = answer log'

def Together (base base' : List Event) (log log' : List Event) : Prop :=
  ∃ events, log = base ++ events ∧ log' = base' ++ events

theorem Together.concat {base base' log log' : List Event} (h : Together base base' log log')
    (e : Event) : Together base base' (log ++ [e]) (log' ++ [e]) := by
  obtain ⟨events, rfl, rfl⟩ := h
  exact ⟨events ++ [e], List.append_assoc .., List.append_assoc ..⟩

variable {base base' : List Event}

abbrev World.Paired (base base' : List Event) : World → World → Prop :=
  World.Alike (Together base base')

namespace Database

variable {db : Database}

theorem alike_runQuery (timeless : db.Timeless) (bound : BoundSql) :
    Alike (World.Paired base base') Eq (db.runQuery bound) (db.runQuery bound) := by
  intro w w' h
  refine ⟨?_, h.caches, h.logs.concat _⟩
  rw [runQuery, runQuery, timeless.query _ (w'.report (.query bound.sql bound.parameters)).log]
  exact .refl _

theorem alike_runExecute (timeless : db.Timeless) (bound : BoundSql) :
    Alike (World.Paired base base') Eq (db.runExecute bound) (db.runExecute bound) := by
  intro w w' h
  refine ⟨?_, h.caches, h.logs.concat _⟩
  rw [runExecute, runExecute, timeless.execute _ (w'.report (.execute bound.sql bound.parameters)).log]
  exact .refl _

theorem alike_runBoundary (timeless : db.Timeless) (b : Boundary) :
    Alike (World.Paired base base') Eq (db.runBoundary b) (db.runBoundary b) := by
  intro w w' h
  unfold runBoundary
  cases asked : db.boundary b with
  | none => exact ⟨.ok rfl, h⟩
  | some answer =>
    refine ⟨?_, h.caches, h.logs.concat _⟩
    dsimp only
    rw [timeless.boundary b answer asked _ (w'.report b.event).log]
    exact .refl _

end Database

/-- Nested values that a row mapper cannot tell apart: a slot is a place, and it does not show
which. -/
inductive NestedValue.Alike : NestedValue → NestedValue → Prop where
  | loaded (rows : Rows) : Alike (.loaded rows) (.loaded rows)
  | deferred (slot slot' : Slot) : Alike (.deferred slot) (.deferred slot')

inductive Hydration.Alike : Hydration → Hydration → Prop where
  | done (rows : Rows) : Alike (.done rows) (.done rows)
  | failed (fault : Fault) : Alike (.failed fault) (.failed fault)
  | find (id : String) {next next' : Except Fault Unit → Hydration}
      (h : ∀ r, Alike (next r) (next' r)) : Alike (.find id next) (.find id next')
  | load (id : String) (parameters : List Value) {next next' : Except Fault NestedValue → Hydration}
      (h : ∀ r r', SameEnd NestedValue.Alike r r' → Alike (next r) (next' r')) :
      Alike (.load id parameters next) (.load id parameters next')
  | query (id : String) (parameters : List Value) (bounds : RowBounds)
      {next next' : Except Fault Rows → Hydration} (h : ∀ r, Alike (next r) (next' r)) :
      Alike (.query id parameters bounds next) (.query id parameters bounds next')
  | cached (id : String) (parameters : List Value) (bounds : RowBounds)
      {next next' : Except Fault Bool → Hydration} (h : ∀ r, Alike (next r) (next' r)) :
      Alike (.cached id parameters bounds next) (.cached id parameters bounds next')
  | update (id : String) (parameters : List Value) {next next' : Except Fault UInt64 → Hydration}
      (h : ∀ r, Alike (next r) (next' r)) :
      Alike (.update id parameters next) (.update id parameters next')
  | commit (required : Bool) {next next' : Except Fault Unit → Hydration}
      (h : ∀ r, Alike (next r) (next' r)) : Alike (.commit required next) (.commit required next')
  | rollback (required : Bool) {next next' : Except Fault Unit → Hydration}
      (h : ∀ r, Alike (next r) (next' r)) :
      Alike (.rollback required next) (.rollback required next')
  | clear {next next' : Hydration} (h : Alike next next') : Alike (.clear next) (.clear next')
  | keep {value value' : NestedValue} {next next' : Hydration} (same : value.Alike value')
      (h : Alike next next') : Alike (.keep value next) (.keep value' next')

/-- The mapper does the same whichever places its nested values stand for. Slots are opaque to the
code of a mapper, so it cannot do otherwise. -/
def RowMapper.Blind (mapper : RowMapper) : Prop := ∀ rows, (mapper rows).Alike (mapper rows)

namespace RowMapper

theorem alike_withStatement (id : String) {work : Hydration} (h : work.Alike work) :
    (withStatement id work).Alike (withStatement id work) := by
  refine .find id fun r => ?_
  cases r with
  | ok _ => exact h
  | error e => exact .failed e

theorem alike_forEach {work : Row → (Row → Hydration) → Hydration}
    (each : ∀ row next next', (∀ row, (next row).Alike (next' row)) →
      (work row next).Alike (work row next')) (rows : Rows) {last last' : Rows → Hydration}
    (h : ∀ rows, (last rows).Alike (last' rows)) :
    (forEach work rows last).Alike (forEach work rows last') := by
  induction rows generalizing last last' with
  | nil => exact h []
  | cons row rows ih => exact each row _ _ fun row => ih fun rows => h (row :: rows)

theorem blind_nested (id : String) (column : Nat) : (nested id column).Blind := fun rows => by
  refine alike_withStatement id (alike_forEach (fun row next next' h => ?_) rows .done)
  refine .load id _ fun r r' same => ?_
  cases same with
  | ok same => exact .keep same (h row)
  | error e => exact .failed e

end RowMapper

def BlindMappers (find : String → Except Fault Statement) : Prop :=
  ∀ id st mapper, find id = .ok st → st.mapper = some mapper → mapper.Blind

inductive Runner.Alike : Runner → Runner → Prop where
  | intro (r : Runner) {deferred deferred' : List (CacheKey × Slot)}
      (same : deferred.map (·.1) = deferred'.map (·.1)) :
      Alike { r with deferred := deferred } { r with deferred := deferred' }

namespace Runner

abbrev Paired (base base' : List Event) : Runner × World → Runner × World → Prop :=
  Beside Runner.Alike (World.Paired base base')

variable {r r' : Runner} {w w' : World} {ctx : Context}

theorem Alike.closed_eq (h : r.Alike r') : r.closed = r'.closed := by cases h; rfl

theorem Alike.depth_eq (h : r.Alike r') : r.depth = r'.depth := by cases h; rfl

theorem Alike.results_eq (h : r.Alike r') : r.results = r'.results := by cases h; rfl

theorem Alike.keyOf_eq (h : r.Alike r') (st : Statement) (bounds : RowBounds) (bound : BoundSql) :
    r.keyOf st bounds bound = r'.keyOf st bounds bound := by
  cases h
  rfl

theorem Alike.results (h : r.Alike r') (f : Results → Results) :
    ({ r with results := f r.results } : Runner).Alike { r' with results := f r'.results } := by
  cases h with
  | intro r same => exact .intro { r with results := f r.results } same

theorem Alike.clearResults (h : r.Alike r') : r.clearResults.Alike r'.clearResults := by
  cases h with
  | intro r same =>
    unfold Runner.clearResults
    dsimp only
    split
    · exact .intro r same
    · exact .intro { r with results := .empty } same

theorem Alike.enter (h : r.Alike r') (st : Statement) : (r.enter st).Alike (r'.enter st) := by
  have deeper {r r' : Runner} (h : r.Alike r') :
      ({ r with depth := r.depth + 1 } : Runner).Alike { r' with depth := r'.depth + 1 } := by
    cases h with
    | intro r same => exact .intro { r with depth := r.depth + 1 } same
  unfold Runner.enter
  rw [h.depth_eq]
  split
  · exact deeper h.clearResults
  · exact deeper h

theorem Alike.leave (h : r.Alike r') : r.leave.Alike r'.leave := by
  cases h with
  | intro r same => exact .intro { r with depth := r.depth - 1 } same

theorem alike_ensureOpen : Action.Alike (Paired base base') Eq ensureOpen ensureOpen := by
  rintro ⟨r, w⟩ ⟨r', w'⟩ h
  rw [ensureOpen_apply, ensureOpen_apply, h.1.closed_eq]
  split
  · exact ⟨.error _, h⟩
  · exact ⟨.ok rfl, h⟩

theorem alike_clearResults : Action.Alike (Paired base base') Eq
    (onFirst (modify clearResults)) (onFirst (modify clearResults)) :=
  Alike.onFirst (.modify fun _ _ h => h.clearResults)

theorem alike_finish (succeeded : Bool) :
    Action.Alike (Paired base base') Eq (finish succeeded) (finish succeeded) := by
  rintro ⟨r, w⟩ ⟨r', w'⟩ ⟨hr, hw⟩
  refine ⟨.ok rfl, ?_, ?_⟩
  · cases hr with
    | intro r same =>
      exact .intro { r with results := if r.scope = .statement then .empty else r.results } rfl
  · simp only [finish, modify_apply]
    cases succeeded with
    | false => exact hw
    | true =>
      obtain ⟨caches, log⟩ := Application.keeps_fillDeferred r.results r.deferred w
      obtain ⟨caches', log'⟩ := Application.keeps_fillDeferred r'.results r'.deferred w'
      simp only [if_true]
      exact ⟨by rw [caches, caches']; exact hw.caches, by rw [log, log']; exact hw.logs⟩

variable {db : Database}

section

variable (timeless : db.Timeless)

include timeless

theorem alike_select {hydrate : RowMapper → Rows → Run Rows} {st : Statement}
    (hydrated : ∀ mapper rows, st.mapper = some mapper →
      Action.Alike (Paired base base') Eq (hydrate mapper rows) (hydrate mapper rows))
    (bounds : RowBounds) (bound : BoundSql) :
    Action.Alike (Paired base base') Eq (select db hydrate st bounds bound)
      (select db hydrate st bounds bound) := by
  refine (db.alike_runQuery timeless bound).onSecond.bind fun rows rows' same => ?_
  subst same
  split
  · exact .pure rfl
  · rename_i mapper mapped
    exact hydrated mapper _ mapped

theorem alike_lookup {hydrate : RowMapper → Rows → Run Rows} {st : Statement}
    (hydrated : ∀ mapper rows, st.mapper = some mapper →
      Action.Alike (Paired base base') Eq (hydrate mapper rows) (hydrate mapper rows))
    (bounds : RowBounds) (key : CacheKey) (bound : BoundSql) :
    Action.Alike (Paired base base') Eq (lookup db hydrate st bounds key bound)
      (lookup db hydrate st bounds key bound) := by
  have keep (f : Results → Results) : Action.Alike (Paired base base') Eq
      (onFirst (modify fun r : Runner => { r with results := f r.results }))
      (onFirst (modify fun r : Runner => { r with results := f r.results })) :=
    Alike.onFirst (.modify fun _ _ h => h.results f)
  refine Alike.get.bind fun s s' h => ?_
  rw [h.1.results_eq]
  split
  · exact .pure rfl
  · exact .fail _
  · refine (keep fun results => results.mark key).bind fun _ _ _ => ?_
    refine (alike_select timeless hydrated bounds bound).attempt.bind fun result result' ends => ?_
    cases ends with
    | ok same =>
      subst same
      exact (keep fun results => results.complete key _).bind fun _ _ _ => .pure rfl
    | error e => exact (keep fun results => results.abort key).bind fun _ _ _ => .fail e

theorem alike_queryVia {hydrate : RowMapper → Rows → Run Rows} {st : Statement}
    (hydrated : ∀ mapper rows, st.mapper = some mapper →
      Action.Alike (Paired base base') Eq (hydrate mapper rows) (hydrate mapper rows))
    (bounds : RowBounds) (key : CacheKey) (bound : BoundSql) :
    Action.Alike (Paired base base') Eq (queryVia db hydrate st bounds key bound)
      (queryVia db hydrate st bounds key bound) := by
  rintro ⟨r, w⟩ ⟨r', w'⟩ h
  rw [queryVia_apply, queryVia_apply, h.1.closed_eq]
  split
  · exact ⟨.error _, h⟩
  · have looked := alike_lookup timeless hydrated bounds key bound (r.enter st, w) (r'.enter st, w')
      ⟨h.1.enter st, h.2⟩
    generalize lookup db hydrate st bounds key bound (r.enter st, w) = o,
      lookup db hydrate st bounds key bound (r'.enter st, w') = o' at looked
    obtain ⟨ends, runners, worlds⟩ := looked
    dsimp only
    rw [runners.leave.depth_eq, ends.isOk]
    have left : Paired base base' (o.state.1.leave, o.state.2) (o'.state.1.leave, o'.state.2) :=
      ⟨runners.leave, worlds⟩
    refine ⟨ends, ?_⟩
    split
    · exact (alike_finish o'.result.isOk _ _ left).2
    · exact left

theorem alike_update (st : Statement) (parameters : List Value) :
    Action.Alike (Paired base base') Eq (update db st parameters) (update db st parameters) :=
  alike_ensureOpen.bind fun _ _ _ => alike_clearResults.bind fun _ _ _ =>
    (db.alike_runExecute timeless _).onSecond

theorem alike_commit (required : Bool) :
    Action.Alike (Paired base base') Eq (commit db required) (commit db required) := by
  refine alike_ensureOpen.bind fun _ _ _ => alike_clearResults.bind fun _ _ _ => ?_
  split
  · exact (db.alike_runBoundary timeless .commit).onSecond
  · exact .pure rfl

theorem alike_rollback (required : Bool) :
    Action.Alike (Paired base base') Eq (rollback db required) (rollback db required) := by
  refine Alike.get.bind fun s s' h => ?_
  rw [h.1.closed_eq]
  split
  · refine alike_clearResults.bind fun _ _ _ => ?_
    split
    · exact (db.alike_runBoundary timeless .rollback).onSecond
    · exact .pure rfl
  · exact .pure rfl

theorem alike_close (rollbackRequired : Bool) :
    Action.Alike (Paired base base') Eq (close db rollbackRequired) (close db rollbackRequired) := by
  refine Alike.get.bind fun s s' h => ?_
  rw [h.1.closed_eq]
  split
  · refine (alike_rollback timeless rollbackRequired).attempt.bind fun _ _ rolledBack => ?_
    refine (db.alike_runBoundary timeless .close).onSecond.attempt.bind fun _ _ closed => ?_
    refine (Alike.onFirst (.modify fun r r' h => ?_)).bind fun _ _ _ => ?_
    · cases h with
      | intro r same => exact .intro { r with closed := true, results := .empty } rfl
    · exact .ofExcept (rolledBack.bind fun _ _ _ => closed)
  · exact .pure rfl

end

theorem alike_defer (key : CacheKey) (slot slot' : Slot) :
    Action.Alike (Paired base base') Eq (defer key slot) (defer key slot') := by
  refine alike_ensureOpen.bind fun _ _ _ => Alike.get.bind fun s s' h => ?_
  rw [h.1.results_eq]
  split
  · exact Alike.onSecond (.modify fun _ _ h => ⟨h.caches, h.logs⟩)
  · refine Alike.onFirst (.modify fun r r' h => ?_)
    cases h with
    | intro r same => exact .intro r (by simp [same])

def Likewise (ctx : Context) (base base' : List Event)
    (query : Statement → RowBounds → CacheKey → BoundSql → Run Rows) : Prop :=
  ∀ id st, ctx.find id = .ok st → ∀ bounds key bound,
    Action.Alike (Paired base base') Eq (query st bounds key bound) (query st bounds key bound)

variable {query : Statement → RowBounds → CacheKey → BoundSql → Run Rows}

theorem alike_withKey (likewise : Likewise ctx base base' query) {id : String} {st : Statement}
    (known : ctx.find id = .ok st) (parameters : List Value) (bounds : RowBounds) :
    Action.Alike (Paired base base') Eq (withKey query st parameters bounds)
      (withKey query st parameters bounds) := by
  refine Alike.get.bind fun s s' h => ?_
  rw [h.1.keyOf_eq]
  exact likewise id st known bounds _ _

theorem alike_isCached (st : Statement) (parameters : List Value) (bounds : RowBounds) :
    Action.Alike (Paired base base') Eq (isCached st parameters bounds)
      (isCached st parameters bounds) := by
  refine Alike.get.bind fun s s' h => ?_
  obtain ⟨r, w⟩ := s
  obtain ⟨r', w'⟩ := s'
  dsimp only at h ⊢
  rw [h.1.keyOf_eq, h.1.results_eq]
  exact .pure rfl

theorem alike_loadVia (likewise : Likewise ctx base base' query) {id : String} {st : Statement}
    (known : ctx.find id = .ok st) (parameters : List Value) :
    Action.Alike (Paired base base') NestedValue.Alike (loadVia query st parameters)
      (loadVia query st parameters) := by
  refine Alike.get.bind fun s s' h => ?_
  obtain ⟨r, w⟩ := s
  obtain ⟨r', w'⟩ := s'
  dsimp only at h ⊢
  rw [h.1.keyOf_eq, h.1.results_eq]
  split
  · have slots : Action.Alike (World.Paired base base') (fun _ _ => True) (total World.newSlot)
        (total World.newSlot) := .total fun _ _ h => ⟨trivial, h.caches, h.logs⟩
    refine slots.onSecond.bind fun slot slot' _ => ?_
    exact (alike_defer _ slot slot').bind fun _ _ _ => .pure (.deferred slot slot')
  · refine (likewise id st known .default _ _).bind fun rows rows' same => ?_
    subst same
    exact .pure (.loaded rows)

theorem alike_reply {α : Type} {Q : α → α → Prop} {m : Run α}
    (h : Action.Alike (Paired base base') Q m m) :
    Action.Alike (Paired base base') (SameEnd Q) (reply m) (reply m) := by
  refine h.attempt.bind fun result result' ends => ?_
  cases ends with
  | ok same => exact .pure (.ok same)
  | error e =>
    cases e with
    | nestedTooDeep => exact .fail _
    | _ => exact .pure (.error _)

theorem alike_hydrateVia (timeless : ctx.database.Timeless)
    (likewise : Likewise ctx base base' query) {work work' : Hydration} (same : work.Alike work') :
    Action.Alike (Paired base base') Eq (hydrateVia ctx query work) (hydrateVia ctx query work') := by
  have called {α : Type} {Q : α → α → Prop} (id : String) (m : Statement → Run α)
      (h : ∀ st, ctx.find id = .ok st → Action.Alike (Paired base base') Q (m st) (m st)) :
      Action.Alike (Paired base base') (SameEnd Q)
        (reply do
          let st ← Action.ofExcept (ctx.find id)
          m st)
        (reply do
          let st ← Action.ofExcept (ctx.find id)
          m st) := by
    refine alike_reply ?_
    cases found : ctx.find id with
    | error e => exact .fail e
    | ok st => exact h st found
  have replied {α : Type} {m : Run (Except Fault α)} {next next' : Except Fault α → Hydration}
      (first : Action.Alike (Paired base base') (SameEnd Eq) m m)
      (rest : ∀ r, Action.Alike (Paired base base') Eq (hydrateVia ctx query (next r))
        (hydrateVia ctx query (next' r))) :
      Action.Alike (Paired base base') Eq (m >>= fun r => hydrateVia ctx query (next r))
        (m >>= fun r => hydrateVia ctx query (next' r)) := by
    refine first.bind fun r r' ends => ?_
    rw [ends.eq]
    exact rest r'
  induction same with
  | done rows => exact .pure rfl
  | failed fault => exact .fail fault
  | find id _ ih => exact ih _
  | load id parameters _ ih =>
    exact (called id _ fun st known => alike_loadVia likewise known parameters).bind ih
  | query id parameters bounds _ ih =>
    exact replied (called id _ fun st known => alike_withKey likewise known parameters bounds) ih
  | cached id parameters bounds _ ih =>
    exact replied (called id _ fun st _ => alike_isCached st parameters bounds) ih
  | update id parameters _ ih =>
    exact replied (called id _ fun st _ => alike_update timeless st parameters) ih
  | commit required _ ih => exact replied (alike_reply (alike_commit timeless required)) ih
  | rollback required _ ih => exact replied (alike_reply (alike_rollback timeless required)) ih
  | clear _ ih => exact alike_clearResults.bind fun _ _ _ => ih
  | keep same _ ih =>
    refine (Alike.onSecond (.modify fun w w' h => ?_)).bind fun _ _ _ => ih
    exact ⟨h.caches, h.logs⟩

theorem likewise_queryWithin (timeless : ctx.database.Timeless) (blind : BlindMappers ctx.find)
    (nesting : Nat) : Likewise ctx base base' (queryWithin ctx nesting) := by
  induction nesting with
  | zero =>
    intro id st known bounds key bound
    exact alike_queryVia timeless (fun _ _ _ => .fail _) bounds key bound
  | succ nesting ih =>
    intro id st known bounds key bound
    refine alike_queryVia timeless (fun mapper rows mapped => ?_) bounds key bound
    exact alike_hydrateVia timeless ih (blind id st mapper known mapped rows)

end Runner
end StatementCache
