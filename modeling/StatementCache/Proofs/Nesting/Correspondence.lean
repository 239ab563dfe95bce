import StatementCache.Proofs.Nesting.Course
import StatementCache.Proofs.Sessions.Origin

/-! The steps of a query come to what running it in one go comes to. -/
namespace StatementCache

open StatementCache.Action

namespace Runner

theorem select_apply (db : Database) (hydrate : RowMapper → Rows → Run Rows) (st : Statement)
    (bounds : RowBounds) (bound : BoundSql) (r : Runner) (w : World) :
    select db hydrate st bounds bound (r, w) =
      let o := db.runQuery bound w
      match o.result with
      | .error e => ⟨.error e, (r, o.state)⟩
      | .ok rows =>
        match st.mapper with
        | none => ⟨.ok (bounds.page rows), (r, o.state)⟩
        | some mapper => hydrate mapper (bounds.page rows) (r, o.state) := by
  simp only [select, bind_apply, onSecond_apply]
  rcases db.runQuery bound w with ⟨e | rows, w'⟩
  · rfl
  · dsimp only
    cases st.mapper with
    | none => rfl
    | some mapper => rfl

theorem defer_apply (key : CacheKey) (slot : Slot) (r : Runner) (w : World)
    (isOpen : r.closed = false) :
    defer key slot (r, w) =
      match r.results.rows? key with
      | some rows => ⟨.ok (), (r, w.fill slot rows)⟩
      | none => ⟨.ok (), ({ r with deferred := r.deferred ++ [(key, slot)] }, w)⟩ := by
  have asked : ensureOpen (r, w) = ⟨.ok (), (r, w)⟩ := by
    rw [ensureOpen_apply, isOpen, if_neg Bool.false_ne_true]
  simp only [defer, bind_apply, asked, get_apply]
  cases r.results.rows? key with
  | some rows => rfl
  | none => rfl

theorem loadVia_apply (query : Statement → RowBounds → CacheKey → BoundSql → Run Rows)
    (st : Statement) (parameters : List Value) (r : Runner) (w : World)
    (isOpen : r.closed = false) :
    loadVia query st parameters (r, w) =
      let bound := st.source parameters
      let key := r.keyOf st .default bound
      let slot := w.newSlot.1
      match r.results.find? key with
      | none =>
        let o := query st .default key bound (r, w)
        ⟨o.result.map .loaded, o.state⟩
      | some (.rows rows) => ⟨.ok (.deferred slot), (r, w.newSlot.2.fill slot rows)⟩
      | some .inProgress =>
        ⟨.ok (.deferred slot),
          ({ r with deferred := r.deferred ++ [(key, slot)] }, w.newSlot.2)⟩ := by
  have known : r.results.contains (r.keyOf st .default (st.source parameters)) =
      (r.results.find? (r.keyOf st .default (st.source parameters))).isSome := rfl
  simp only [loadVia, bind_apply, get_apply, known]
  rcases found : r.results.find? (r.keyOf st .default (st.source parameters)) with _ | _ | rows
  · exact map_apply ..
  · simp only [Option.isSome_some, if_true, bind_apply, onSecond_apply, total_apply,
      defer_apply _ _ _ _ isOpen, Results.rows?, found, pure_apply]
  · simp only [Option.isSome_some, if_true, bind_apply, onSecond_apply, total_apply,
      defer_apply _ _ _ _ isOpen, Results.rows?, found, pure_apply]

def goOn {α : Type} (ctx : Context) (nesting : Nat) (next : Except Fault α → Hydration) :
    Except Fault α → Run Rows
  | .error .nestedTooDeep => Action.fail .nestedTooDeep
  | result => hydrateVia ctx (queryWithin ctx nesting) (next result)

theorem reply_bind_apply {α : Type} (ctx : Context) (nesting : Nat) (m : Run α)
    (next : Except Fault α → Hydration) (s : Runner × World) :
    (do let result ← reply m
        hydrateVia ctx (queryWithin ctx nesting) (next result) : Run Rows) s =
      goOn ctx nesting next (m s).result (m s).state := by
  simp only [reply, bind_apply, attempt_apply]
  rcases m s with ⟨e | a, s'⟩
  · cases e with
    | nestedTooDeep => rfl
    | _ => rfl
  · rfl

def make (r : Runner) : LocalCacheScope × Option String × Bool :=
  (r.scope, r.environmentId, r.closed)

@[simp] theorem make_clearResults (r : Runner) : r.clearResults.make = r.make := by
  unfold clearResults
  split <;> rfl

@[simp] theorem make_enter (r : Runner) (st : Statement) : (r.enter st).make = r.make := by
  unfold enter
  split
  · exact make_clearResults r
  · rfl

@[simp] theorem make_returned (result : Except Fault Rows) (r : Runner) (w : World) :
    (returned result (r, w)).1.make = r.make := by
  unfold returned
  dsimp only
  split <;> rfl

end Runner

namespace Course

variable {ctx : Context} {c d : Course}

theorem make_of_moves (h : c.Moves d) : d.runner.make = c.runner.make := by
  cases h with
  | worked begun begun' slots => rfl
  | marked stage absent => rfl
  | found stage known => rfl
  | refused stage busy => rfl
  | called begun => exact Runner.make_enter ..
  | filled begun known => rfl
  | deferred begun busy => rfl
  | forgot begun begun' slots forgets => exact Runner.make_clearResults c.runner
  | @settled result stage =>
    cases result with
    | ok rows => rfl
    | error e => rfl
  | @answered result stage =>
    have left := Runner.make_returned result c.runner c.world
    unfold answer
    split
    · exact left
    · exact left

theorem make_of_movesTo (h : c.MovesTo d) : d.runner.make = c.runner.make := by
  induction h with
  | refl => rfl
  | tail _ moves ih => exact (make_of_moves moves).trans ih

theorem make_of_reaches (h : Reaches ctx c d) : d.runner.make = c.runner.make :=
  make_of_movesTo (movesTo_of_reaches h)

theorem make_start (st : Statement) (bounds : RowBounds) (key : CacheKey) (bound : BoundSql)
    (r : Runner) (w : World) : (start st bounds key bound r w).runner.make = r.make := by
  unfold start
  split
  · rfl
  · exact Runner.make_enter r st

/-- The course comes to the given stage with the result and the state of the outcome, while its
callers wait. -/
def Comes {α : Type} (ctx : Context) (c : Course) (stage : Except Fault α → Stage)
    (o : Outcome (Runner × World) α) : Prop :=
  ∃ journal, Reaches ctx c
    { c with
      stage := stage o.result
      runner := o.state.1
      world := o.state.2
      journal := journal }

section Comes

variable {α : Type} {stage : Except Fault α → Stage} {o : Outcome (Runner × World) α}

theorem Comes.here (there : c.stage = stage o.result) (state : (c.runner, c.world) = o.state) :
    c.Comes ctx stage o := by
  refine ⟨c.journal, ?_⟩
  rw [← there, ← state]
  exact .refl

theorem Comes.head (first : Reaches ctx c d) (key : d.key = c.key) (callers : d.callers = c.callers)
    (rest : d.Comes ctx stage o) : c.Comes ctx stage o := by
  obtain ⟨journal, rest⟩ := rest
  refine ⟨journal, first.trans ?_⟩
  rwa [← key, ← callers]

theorem Comes.step (stepped : c.step ctx = some d) (key : d.key = c.key)
    (callers : d.callers = c.callers) (rest : d.Comes ctx stage o) : c.Comes ctx stage o :=
  rest.head (.single stepped) key callers

end Comes

def Answers (ctx : Context) (nesting : Nat) : Prop :=
  ∀ (c : Course) (st : Statement) (bounds : RowBounds) (bound : BoundSql),
    c.runner.closed = false → c.callers.length + nesting = ctx.nesting →
      c.stage = .looking st bounds bound →
        c.Comes ctx .answered (Runner.lookup ctx.database (Runner.hydrateWithin ctx nesting) st
          bounds c.key bound (c.runner, c.world))

variable {nesting : Nat}

theorem Answers.call (answers : Answers ctx nesting) {st : Statement} {bounds : RowBounds}
    {key : CacheKey} {bound : BoundSql} {next : Except Fault Rows → Hydration}
    (isOpen : c.runner.closed = false) (room : c.callers.length + 1 + nesting = ctx.nesting)
    (called : c.step ctx = some (c.call st bounds key bound next)) :
    c.Comes ctx (.replied next)
      (Runner.queryWithin ctx nesting st bounds key bound (c.runner, c.world)) := by
  have openIn : (c.call st bounds key bound next).runner.closed = false :=
    (congrArg (·.2.2) (Runner.make_enter c.runner st)).trans isOpen
  obtain ⟨journal, reached⟩ :=
    answers (c.call st bounds key bound next) st bounds bound openIn room rfl
  refine ⟨journal, .head called (reached.tail ?_)⟩
  rw [Runner.queryWithin_eq, Runner.queryVia_apply, isOpen, if_neg Bool.false_ne_true]
  rfl

theorem replied_map {α β : Type} (f : α → β) (next : Except Fault β → Hydration)
    (result : Except Fault α) :
    Stage.replied (fun result => next (result.map f)) result = .replied next (result.map f) := by
  cases result with
  | error e => cases e <;> rfl
  | ok a => rfl

theorem closed_of_reaches (h : Reaches ctx c d) : d.runner.closed = c.runner.closed :=
  congrArg (·.2.2) (make_of_reaches h)

theorem Answers.load (answers : Answers ctx nesting) {st : Statement} {parameters : List Value}
    {next : Except Fault NestedValue → Hydration} (isOpen : c.runner.closed = false)
    (room : c.callers.length + 1 + nesting = ctx.nesting)
    (called : c.step ctx = some (c.load st parameters next)) :
    c.Comes ctx (.replied next)
      (Runner.loadVia (Runner.queryWithin ctx nesting) st parameters (c.runner, c.world)) := by
  rw [Runner.loadVia_apply _ _ _ _ _ isOpen]
  simp only [Course.load] at called ⊢
  rcases found : c.runner.results.find? (c.runner.keyOf st .default (st.source parameters)) with
    _ | _ | rows
  · simp only [found] at called ⊢
    obtain ⟨journal, reached⟩ := answers.call isOpen room called
    rw [replied_map] at reached
    exact ⟨journal, reached⟩
  · simp only [found] at called ⊢
    exact ⟨_, .single called⟩
  · simp only [found] at called ⊢
    exact ⟨_, .single called⟩

theorem comes_reply {α : Type} {m : Runner.Run α} {next : Except Fault α → Hydration}
    (isOpen : c.runner.closed = false) (room : c.callers.length + 1 + nesting = ctx.nesting)
    (replies : c.Comes ctx (.replied next) (m (c.runner, c.world)))
    (rest : ∀ reply (d : Course), d.runner.closed = false →
      d.callers.length + 1 + nesting = ctx.nesting → d.stage = .mapping (next reply) →
        d.step ctx = some (d.hydrate ctx (next reply)) → d.Comes ctx .selected
          (Runner.hydrateVia ctx (Runner.queryWithin ctx nesting) (next reply)
            (d.runner, d.world))) :
    c.Comes ctx .selected ((do
      let reply ← Runner.reply m
      Runner.hydrateVia ctx (Runner.queryWithin ctx nesting) (next reply) : Runner.Run Rows)
      (c.runner, c.world)) := by
  obtain ⟨journal, reached⟩ := replies
  have stillOpen := (closed_of_reaches reached).trans isOpen
  refine .head reached rfl rfl ?_
  rw [Runner.reply_bind_apply]
  generalize m (c.runner, c.world) = o at stillOpen ⊢
  obtain ⟨result, s⟩ := o
  cases result with
  | error e =>
    cases e with
    | nestedTooDeep => exact .here rfl rfl
    | _ => exact rest _ _ stillOpen room rfl rfl
  | ok a => exact rest _ _ stillOpen room rfl rfl

theorem comes_found {α : Type} {id : String} {m : Statement → Runner.Run α}
    {next : Except Fault α → Hydration}
    (unknown : ∀ e, ctx.find id = .error e →
      c.step ctx = some { c with stage := .replied next (.error e) })
    (known : ∀ st, ctx.find id = .ok st →
      c.Comes ctx (.replied next) (m st (c.runner, c.world))) :
    c.Comes ctx (.replied next) ((do
      let st ← Action.ofExcept (ctx.find id)
      m st : Runner.Run α) (c.runner, c.world)) := by
  rw [bind_apply, ofExcept_apply]
  cases found : ctx.find id with
  | error e => exact ⟨c.journal, .single (unknown e found)⟩
  | ok st => exact known st found

/-- The work of a row mapper, given that the queries which it calls are answered. -/
theorem Answers.hydrate (answers : Answers ctx nesting) (work : Hydration) (c : Course)
    (isOpen : c.runner.closed = false) (room : c.callers.length + 1 + nesting = ctx.nesting)
    (stage : c.stage = .mapping work) :
    c.Comes ctx .selected
      (Runner.hydrateVia ctx (Runner.queryWithin ctx nesting) work (c.runner, c.world)) := by
  have stepped : c.step ctx = some (c.hydrate ctx work) := by rw [Course.step, stage]
  -- every call comes back to this mapper with the same callers, so what is left of its work is the
  -- induction hypothesis
  induction work generalizing c with
  | done rows => exact .step stepped rfl rfl (.here rfl rfl)
  | failed e => exact .step stepped rfl rfl (.here rfl rfl)
  | find id next ih => exact .step stepped rfl rfl (ih _ _ isOpen room rfl rfl)
  | load id parameters next ih =>
    simp only [Course.hydrate] at stepped
    refine comes_reply isOpen room (comes_found (fun e found => ?_) fun st found =>
      answers.load isOpen room ?_) ih
    · rw [stepped, found]
    · rw [stepped, found]
  | query id parameters bounds next ih =>
    simp only [Course.hydrate] at stepped
    refine comes_reply isOpen room (comes_found (fun e found => ?_) fun st found =>
      answers.call isOpen room ?_) ih
    · rw [stepped, found]
    · rw [stepped, found]
  | cached id parameters bounds next ih =>
    simp only [Course.hydrate] at stepped
    refine comes_reply isOpen room (comes_found (fun e found => ?_) fun st found => ?_) ih
    · rw [stepped, found]
    · rw [found] at stepped
      exact ⟨_, .single stepped⟩
  | update id parameters next ih =>
    simp only [Course.hydrate] at stepped
    refine comes_reply isOpen room (comes_found (fun e found => ?_) fun st found => ?_) ih
    · rw [stepped, found]
    · rw [found] at stepped
      exact ⟨_, .single stepped⟩
  | commit required next ih => exact comes_reply isOpen room ⟨_, .single stepped⟩ ih
  | rollback required next ih => exact comes_reply isOpen room ⟨_, .single stepped⟩ ih
  | clear next ih =>
    have closed := closed_of_reaches (.single stepped)
    exact .step stepped rfl rfl (ih _ (closed.trans isOpen) room rfl rfl)
  | keep value next ih => exact .step stepped rfl rfl (ih _ isOpen room rfl rfl)

def Selects (ctx : Context) (nesting : Nat) : Prop :=
  ∀ (c : Course) (st : Statement) (bounds : RowBounds) (bound : BoundSql),
    c.runner.closed = false → c.callers.length + nesting = ctx.nesting →
      c.stage = .asking st bounds bound →
        c.Comes ctx .selected (Runner.select ctx.database (Runner.hydrateWithin ctx nesting) st
          bounds bound (c.runner, c.world))

theorem selects_of_hydrates
    (hydrates : ∀ (c : Course) mapper rows, c.runner.closed = false →
      c.callers.length + nesting = ctx.nesting →
        c.stage = (if c.callers.length < ctx.nesting then .mapping (mapper rows)
          else .selected (.error .nestedTooDeep)) →
          c.Comes ctx .selected
            (Runner.hydrateWithin ctx nesting mapper rows (c.runner, c.world))) :
    Selects ctx nesting := by
  intro c st bounds bound isOpen room stage
  have stepped : c.step ctx = some (c.ask ctx st bounds bound) := by rw [Course.step, stage]
  refine .step stepped rfl rfl ?_
  rw [Runner.select_apply]
  unfold ask
  dsimp only
  rcases ctx.database.runQuery bound c.world with ⟨e | rows, w⟩
  · exact .here rfl rfl
  · dsimp only
    cases st.mapper with
    | none => exact .here rfl rfl
    | some mapper => exact hydrates _ mapper _ isOpen room rfl

theorem Selects.answers (selects : Selects ctx nesting) : Answers ctx nesting := by
  intro c st bounds bound isOpen room stage
  have stepped : c.step ctx = some (c.look st bounds bound) := by rw [Course.step, stage]
  rw [Runner.lookup_apply]
  simp only [look] at stepped ⊢
  rcases found : c.runner.results.find? c.key with _ | _ | rows
  · simp only [found] at stepped ⊢
    obtain ⟨journal, reached⟩ := selects
      { c with
        stage := .asking st bounds bound
        runner := { c.runner with results := c.runner.results.mark c.key } }
      st bounds bound isOpen room rfl
    dsimp only at reached
    generalize Runner.select ctx.database (Runner.hydrateWithin ctx nesting) st bounds bound
      ({ c.runner with results := c.runner.results.mark c.key }, c.world) = o at reached ⊢
    refine .step stepped rfl rfl (.head reached rfl rfl ?_)
    obtain ⟨e | rows, r, w⟩ := o
    · exact .step rfl rfl rfl (.here rfl rfl)
    · exact .step rfl rfl rfl (.here rfl rfl)
  · simp only [found] at stepped ⊢
    exact .step stepped rfl rfl (.here rfl rfl)
  · simp only [found] at stepped ⊢
    exact .step stepped rfl rfl (.here rfl rfl)

/-- Every query is answered, however many queries wait for it. -/
theorem answers_within (nesting : Nat) : Answers ctx nesting := by
  induction nesting with
  | zero =>
    -- no room for another caller: the row mapper is not run
    refine (selects_of_hydrates fun c mapper rows isOpen room stage => ?_).answers
    rw [if_neg (by omega)] at stage
    exact .here stage rfl
  | succ nesting ih =>
    refine (selects_of_hydrates fun c mapper rows isOpen room stage => ?_).answers
    rw [if_pos (by omega)] at stage
    exact ih.hydrate (mapper rows) c isOpen (by omega) stage

theorem reaches_answer (ctx : Context) (st : Statement) (bounds : RowBounds) (key : CacheKey)
    (bound : BoundSql) {r : Runner} (isOpen : r.closed = false) (w : World) :
    let o := Runner.queryWithKey ctx st bounds key bound (r, w)
    ∃ c, Reaches ctx (start st bounds key bound r w) c ∧ c.stage = .answered o.result ∧
      c.callers = [] ∧ Runner.returned o.result (c.runner, c.world) = o.state := by
  have openIn : (r.enter st).closed = false :=
    (congrArg (·.2.2) (Runner.make_enter r st)).trans isOpen
  have room : ([] : List Frame).length + ctx.nesting = ctx.nesting := Nat.zero_add _
  obtain ⟨journal, reached⟩ := answers_within ctx.nesting
    ⟨key, [], .looking st bounds bound, r.enter st, w, []⟩ st bounds bound openIn room rfl
  rw [Runner.queryWithKey, Runner.queryWithin_eq, Runner.queryVia_apply, start, isOpen,
    if_neg Bool.false_ne_true]
  exact ⟨_, reached, rfl, rfl, rfl⟩

theorem start_of_closed (ctx : Context) (st : Statement) (bounds : RowBounds) (key : CacheKey)
    (bound : BoundSql) {r : Runner} (closed : r.closed = true) (w : World) :
    let o := Runner.queryWithKey ctx st bounds key bound (r, w)
    start st bounds key bound r w = ⟨key, [], .ended o.result, o.state.1, o.state.2, []⟩ := by
  rw [Runner.queryWithKey, Runner.queryWithin_eq, Runner.queryVia_apply, start, closed, if_pos rfl,
    if_pos rfl]

/-- A query ends as its course does. -/
theorem reaches_end (ctx : Context) (st : Statement) (bounds : RowBounds) (key : CacheKey)
    (bound : BoundSql) (r : Runner) (w : World) :
    let o := Runner.queryWithKey ctx st bounds key bound (r, w)
    ∃ c, Reaches ctx (start st bounds key bound r w) c ∧ c.stage = .ended o.result ∧
      (c.runner, c.world) = o.state := by
  cases closed : r.closed with
  | true =>
    refine ⟨_, .refl, ?_⟩
    rw [start_of_closed ctx st bounds key bound closed w]
    exact ⟨rfl, rfl⟩
  | false =>
    obtain ⟨c, reached, stage, outer, state⟩ := reaches_answer ctx st bounds key bound closed w
    refine ⟨_, reached.tail (step_outer stage outer), rfl, ?_⟩
    exact state

end Course

theorem Runner.make_queryWithKey (ctx : Context) (st : Statement) (bounds : RowBounds)
    (key : CacheKey) (bound : BoundSql) (r : Runner) (w : World) :
    (queryWithKey ctx st bounds key bound (r, w)).state.1.make = r.make := by
  obtain ⟨c, reached, -, state⟩ := Course.reaches_end ctx st bounds key bound r w
  rw [← state, ← Course.make_start st bounds key bound r w]
  exact Course.make_of_reaches reached

end StatementCache
