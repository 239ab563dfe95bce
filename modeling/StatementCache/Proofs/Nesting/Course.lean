import Mathlib.Computability.StateTransition
import StatementCache.Executor.Runner

/-! A query step by step. Every query that is running has its place on a stack, innermost first,
and a journal says what has happened to keys and slots. What is said of the steps holds while
queries run, and not only when the outermost one has returned. -/
namespace StatementCache

/-- A query whose row mapper waits for a nested one: its key, and how the mapper goes on. -/
structure Frame where
  key : CacheKey
  next : Except Fault Rows → Hydration

inductive Stage where
  | looking (st : Statement) (bounds : RowBounds) (bound : BoundSql)
  /-- The key was unknown and has been marked. -/
  | asking (st : Statement) (bounds : RowBounds) (bound : BoundSql)
  | mapping (work : Hydration)
  /-- Database and row mapper are done. -/
  | selected (result : Except Fault Rows)
  | answered (result : Except Fault Rows)
  /-- The outermost query is over. -/
  | ended (result : Except Fault Rows)

inductive Happening where
  /-- A query got its result. `sent` tells whether the database was asked for it. -/
  | resolved (key : CacheKey) (sent : Bool) (result : Except Fault Rows)
  /-- A nested select got a slot. `waits` tells whether its key was in progress. -/
  | handed (key : CacheKey) (slot : Slot) (waits : Bool)
  | cleared
  | wrote

structure Course where
  /-- The key of the innermost query. -/
  key : CacheKey
  callers : List Frame
  stage : Stage
  runner : Runner
  world : World
  journal : List Happening

/-- The query has marked its key and not yet settled it. -/
def Stage.Begun : Stage → Prop
  | .asking _ _ _ | .mapping _ | .selected _ => True
  | .looking _ _ _ | .answered _ | .ended _ => False

def Happening.Forgets : Happening → Prop
  | .cleared | .wrote => True
  | .resolved _ _ _ | .handed _ _ _ => False

def Happening.Fails : Happening → Prop
  | .resolved _ true (.error _) => True
  | .resolved _ _ _ | .handed _ _ _ | .cleared | .wrote => False

/-- What a row mapper does next. A run that is too deep ends as a whole. -/
def Stage.replied {α : Type} (next : Except Fault α → Hydration) : Except Fault α → Stage
  | .error .nestedTooDeep => .selected (.error .nestedTooDeep)
  | reply => .mapping (next reply)

theorem Stage.begun_replied {α : Type} (next : Except Fault α → Hydration)
    (reply : Except Fault α) : (replied next reply).Begun := by
  unfold replied
  split
  · trivial
  · trivial

namespace Runner

def returned (result : Except Fault Rows) (s : Runner × World) : Runner × World :=
  let left := (s.1.leave, s.2)
  if left.1.depth = 0 then (finish result.isOk left).state else left

theorem update_apply (db : Database) (st : Statement) (parameters : List Value) (r : Runner)
    (w : World) :
    update db st parameters (r, w) =
      if r.closed then ⟨.error .executorClosed, (r, w)⟩
      else
        let o := db.runExecute (st.source parameters) w
        ⟨o.result, (r.clearResults, o.state)⟩ := by
  simp only [update, Action.bind_apply, ensureOpen_apply]
  cases r.closed with
  | true => rfl
  | false => rfl

structure Forgets {α : Type} (m : Run α) : Prop where
  runner : ∀ r w, (m (r, w)).state.1 = r.clearResults
  slots : ∀ r w, (m (r, w)).state.2.slots = w.slots

theorem forgets_update (db : Database) (st : Statement) (parameters : List Value) :
    Forgets (update db st parameters) := by
  constructor <;> intro r w <;> rw [update_apply] <;> split
  · exact (clearResults_of_closed ‹_›).symm
  · rfl
  · rfl
  · rfl

theorem slots_runBoundary (db : Database) (b : Boundary) (w : World) :
    (db.runBoundary b w).state.slots = w.slots := by
  unfold Database.runBoundary
  split
  · rfl
  · rfl

theorem Ends.runner_eq {db : Database} {b : Boundary} {r : Runner} {w : World}
    {o : Outcome (Runner × World) Unit} (h : Ends db b r w o) : o.state.1 = r.clearResults := by
  cases h with
  | asked => rfl
  | unasked reply said => rfl

theorem Ends.slots_eq {db : Database} {b : Boundary} {r : Runner} {w : World}
    {o : Outcome (Runner × World) Unit} (h : Ends db b r w o) : o.state.2.slots = w.slots := by
  cases h with
  | asked => exact slots_runBoundary db b w
  | unasked reply said => rfl

theorem Forgets.of_ends {db : Database} {b : Boundary} {m : Run Unit}
    (ends : ∀ r w, Ends db b r w (m (r, w))) : Forgets m :=
  ⟨fun r w => (ends r w).runner_eq, fun r w => (ends r w).slots_eq⟩

end Runner

namespace Course

def running (c : Course) : List CacheKey :=
  match c.stage with
  | .ended _ => []
  | _ => c.key :: c.callers.map Frame.key

def Ended (c : Course) : Prop := ∃ result, c.stage = .ended result

def start (st : Statement) (bounds : RowBounds) (key : CacheKey) (bound : BoundSql) (r : Runner)
    (w : World) : Course :=
  if r.closed then ⟨key, [], .ended (.error .executorClosed), r, w, []⟩
  else ⟨key, [], .looking st bounds bound, r.enter st, w, []⟩

def resolve (sent : Bool) (result : Except Fault Rows) (c : Course) : Course :=
  { c with stage := .answered result, journal := c.journal ++ [.resolved c.key sent result] }

def look (st : Statement) (bounds : RowBounds) (bound : BoundSql) (c : Course) : Course :=
  match c.runner.results.find? c.key with
  | some (.rows rows) => c.resolve false (.ok rows)
  | some .inProgress => c.resolve false (.error (.queryInProgress c.key.display))
  | none =>
    { c with
      stage := .asking st bounds bound
      runner := { c.runner with results := c.runner.results.mark c.key } }

def ask (ctx : Context) (st : Statement) (bounds : RowBounds) (bound : BoundSql) (c : Course) :
    Course :=
  let o := ctx.database.runQuery bound c.world
  { c with
    stage := match o.result with
      | .error e => .selected (.error e)
      | .ok rows =>
        match st.mapper with
        | none => .selected (.ok (bounds.page rows))
        | some mapper =>
          if c.callers.length < ctx.nesting then .mapping (mapper (bounds.page rows))
          else .selected (.error .nestedTooDeep)
    world := o.state }

def call (st : Statement) (bounds : RowBounds) (key : CacheKey) (bound : BoundSql)
    (next : Except Fault Rows → Hydration) (c : Course) : Course :=
  { c with
    key := key
    callers := ⟨c.key, next⟩ :: c.callers
    stage := .looking st bounds bound
    runner := c.runner.enter st }

def load (st : Statement) (parameters : List Value) (next : Except Fault NestedValue → Hydration)
    (c : Course) : Course :=
  let bound := st.source parameters
  let key := c.runner.keyOf st .default bound
  let slot := c.world.newSlot.1
  match c.runner.results.find? key with
  | none => c.call st .default key bound fun result => next (result.map .loaded)
  | some (.rows rows) =>
    { c with
      stage := .mapping (next (.ok (.deferred slot)))
      world := c.world.newSlot.2.fill slot rows
      journal := c.journal ++ [.handed key slot false] }
  | some .inProgress =>
    { c with
      stage := .mapping (next (.ok (.deferred slot)))
      runner := { c.runner with deferred := c.runner.deferred ++ [(key, slot)] }
      world := c.world.newSlot.2
      journal := c.journal ++ [.handed key slot true] }

def disturb {α : Type} (m : Runner.Run α) (happening : Happening)
    (next : Except Fault α → Hydration) (c : Course) : Course :=
  let o := m (c.runner, c.world)
  { c with
    stage := .replied next o.result
    runner := o.state.1
    world := o.state.2
    journal := c.journal ++ [happening] }

def hydrate (ctx : Context) (c : Course) : Hydration → Course
  | .done rows => { c with stage := .selected (.ok rows) }
  | .failed e => { c with stage := .selected (.error e) }
  | .find id next => { c with stage := .mapping (next ((fun _ => ()) <$> ctx.find id)) }
  | .load id parameters next =>
    match ctx.find id with
    | .error e => { c with stage := .replied next (.error e) }
    | .ok st => c.load st parameters next
  | .query id parameters bounds next =>
    match ctx.find id with
    | .error e => { c with stage := .replied next (.error e) }
    | .ok st =>
      let bound := st.source parameters
      c.call st bounds (c.runner.keyOf st bounds bound) bound next
  | .cached id parameters bounds next =>
    match ctx.find id with
    | .error e => { c with stage := .replied next (.error e) }
    | .ok st =>
      let key := c.runner.keyOf st bounds (st.source parameters)
      { c with stage := .replied next (.ok (c.runner.results.contains key)) }
  | .update id parameters next =>
    match ctx.find id with
    | .error e => { c with stage := .replied next (.error e) }
    | .ok st => c.disturb (Runner.update ctx.database st parameters) .wrote next
  | .commit required next => c.disturb (Runner.commit ctx.database required) .cleared next
  | .rollback required next => c.disturb (Runner.rollback ctx.database required) .cleared next
  | .clear next =>
    { c with
      stage := .mapping next
      runner := c.runner.clearResults
      journal := c.journal ++ [.cleared] }
  | .keep value next =>
    { c with
      stage := .mapping next
      world := { c.world with kept := c.world.kept ++ [value] } }

def settle (c : Course) : Except Fault Rows → Course
  | .ok rows =>
    { c with runner := { c.runner with results := c.runner.results.complete c.key rows } }.resolve
      true (.ok rows)
  | .error e =>
    { c with runner := { c.runner with results := c.runner.results.abort c.key } }.resolve
      true (.error e)

def answer (result : Except Fault Rows) (c : Course) : Course :=
  let s := Runner.returned result (c.runner, c.world)
  match c.callers with
  | [] => { c with stage := .ended result, runner := s.1, world := s.2 }
  | caller :: callers =>
    { c with
      key := caller.key
      callers := callers
      stage := .replied caller.next result
      runner := s.1
      world := s.2 }

theorem answer_outer {c : Course} (outer : c.callers = []) (result : Except Fault Rows) :
    c.answer result =
      let s := Runner.returned result (c.runner, c.world)
      { c with stage := .ended result, runner := s.1, world := s.2 } := by
  simp only [answer, outer]

theorem answer_inner {c : Course} {caller : Frame} {callers : List Frame}
    (inner : c.callers = caller :: callers) (result : Except Fault Rows) :
    c.answer result =
      let s := Runner.returned result (c.runner, c.world)
      { c with
        key := caller.key
        callers := callers
        stage := .replied caller.next result
        runner := s.1
        world := s.2 } := by
  simp only [answer, inner]

def step (ctx : Context) (c : Course) : Option Course :=
  match c.stage with
  | .looking st bounds bound => some (c.look st bounds bound)
  | .asking st bounds bound => some (c.ask ctx st bounds bound)
  | .mapping work => some (c.hydrate ctx work)
  | .selected result => some (c.settle result)
  | .answered result => some (c.answer result)
  | .ended _ => none

theorem step_outer {ctx : Context} {c : Course} {result : Except Fault Rows}
    (answered : c.stage = .answered result) (outer : c.callers = []) :
    c.step ctx =
      let s := Runner.returned result (c.runner, c.world)
      some { c with stage := .ended result, runner := s.1, world := s.2 } := by
  rw [step, answered]
  exact congrArg some (answer_outer outer result)

theorem not_ended_of_step {ctx : Context} {c d : Course} (stepped : d ∈ c.step ctx) : ¬c.Ended := by
  rintro ⟨result, ended⟩
  rw [step, ended] at stepped
  cases stepped

abbrev Reaches (ctx : Context) : Course → Course → Prop := StateTransition.Reaches (step ctx)

/-- What a step can do, seen from the keys and the slots. -/
inductive Moves (c : Course) : Course → Prop
  | worked {stage : Stage} {world : World} (begun : c.stage.Begun) (begun' : stage.Begun)
      (slots : world.slots = c.world.slots) : Moves c { c with stage := stage, world := world }
  | marked {st : Statement} {bounds : RowBounds} {bound : BoundSql}
      (stage : c.stage = .looking st bounds bound) (absent : c.runner.results.find? c.key = none) :
      Moves c { c with
        stage := .asking st bounds bound
        runner := { c.runner with results := c.runner.results.mark c.key } }
  | found {st : Statement} {bounds : RowBounds} {bound : BoundSql} {rows : Rows}
      (stage : c.stage = .looking st bounds bound)
      (known : c.runner.results.find? c.key = some (.rows rows)) :
      Moves c (c.resolve false (.ok rows))
  | refused {st : Statement} {bounds : RowBounds} {bound : BoundSql}
      (stage : c.stage = .looking st bounds bound)
      (busy : c.runner.results.find? c.key = some .inProgress) :
      Moves c (c.resolve false (.error (.queryInProgress c.key.display)))
  | called {st : Statement} {bounds : RowBounds} {key : CacheKey} {bound : BoundSql}
      {next : Except Fault Rows → Hydration} (begun : c.stage.Begun) :
      Moves c (c.call st bounds key bound next)
  | filled {key : CacheKey} {rows : Rows} {work : Hydration} (begun : c.stage.Begun)
      (known : c.runner.results.find? key = some (.rows rows)) :
      Moves c { c with
        stage := .mapping work
        world := c.world.newSlot.2.fill c.world.newSlot.1 rows
        journal := c.journal ++ [.handed key c.world.newSlot.1 false] }
  | deferred {key : CacheKey} {work : Hydration} (begun : c.stage.Begun)
      (busy : c.runner.results.find? key = some .inProgress) :
      Moves c { c with
        stage := .mapping work
        runner := { c.runner with deferred := c.runner.deferred ++ [(key, c.world.newSlot.1)] }
        world := c.world.newSlot.2
        journal := c.journal ++ [.handed key c.world.newSlot.1 true] }
  | forgot {stage : Stage} {world : World} {h : Happening} (begun : c.stage.Begun)
      (begun' : stage.Begun) (slots : world.slots = c.world.slots) (forgets : h.Forgets) :
      Moves c { c with
        stage := stage
        runner := c.runner.clearResults
        world := world
        journal := c.journal ++ [h] }
  | settled {result : Except Fault Rows} (stage : c.stage = .selected result) :
      Moves c (c.settle result)
  | answered {result : Except Fault Rows} (stage : c.stage = .answered result) :
      Moves c (c.answer result)

section Moves

variable {ctx : Context} {c d : Course}

theorem moves_look {st : Statement} {bounds : RowBounds} {bound : BoundSql}
    (stage : c.stage = .looking st bounds bound) : c.Moves (c.look st bounds bound) := by
  unfold look
  split
  · exact .found stage ‹_›
  · exact .refused stage ‹_›
  · exact .marked stage ‹_›

theorem moves_ask {st : Statement} {bounds : RowBounds} {bound : BoundSql} (begun : c.stage.Begun) :
    c.Moves (c.ask ctx st bounds bound) := by
  refine .worked begun ?_ rfl
  split
  · trivial
  · split
    · trivial
    · split
      · trivial
      · trivial

theorem moves_load {st : Statement} {parameters : List Value}
    {next : Except Fault NestedValue → Hydration} (begun : c.stage.Begun) :
    c.Moves (c.load st parameters next) := by
  unfold load
  dsimp only
  split
  · exact .called begun
  · exact .filled begun ‹_›
  · exact .deferred begun ‹_›

theorem moves_disturb {α : Type} {m : Runner.Run α} (forgets : Runner.Forgets m)
    {happening : Happening} (forgotten : happening.Forgets)
    {next : Except Fault α → Hydration} (begun : c.stage.Begun) :
    c.Moves (c.disturb m happening next) := by
  unfold disturb
  dsimp only
  rw [forgets.runner]
  exact .forgot begun (Stage.begun_replied ..) (forgets.slots ..) forgotten

theorem moves_hydrate {work : Hydration} (begun : c.stage.Begun) :
    c.Moves (c.hydrate ctx work) := by
  cases work with
  | done rows => exact .worked begun trivial rfl
  | failed e => exact .worked begun trivial rfl
  | find id next => exact .worked begun trivial rfl
  | load id parameters next =>
    simp only [hydrate]
    split
    · exact .worked begun (Stage.begun_replied ..) rfl
    · exact moves_load begun
  | query id parameters bounds next =>
    simp only [hydrate]
    split
    · exact .worked begun (Stage.begun_replied ..) rfl
    · exact .called begun
  | cached id parameters bounds next =>
    simp only [hydrate]
    split
    · exact .worked begun (Stage.begun_replied ..) rfl
    · exact .worked begun (Stage.begun_replied ..) rfl
  | update id parameters next =>
    simp only [hydrate]
    split
    · exact .worked begun (Stage.begun_replied ..) rfl
    · exact moves_disturb (Runner.forgets_update ..) (by trivial) begun
  | commit required next =>
    exact moves_disturb (.of_ends (Runner.ends_commit _ _)) (by trivial) begun
  | rollback required next =>
    exact moves_disturb (.of_ends (Runner.ends_rollback _ _)) (by trivial) begun
  | clear next => exact .forgot begun trivial rfl trivial
  | keep value next => exact .worked begun trivial rfl

theorem moves_of_step (h : d ∈ c.step ctx) : c.Moves d := by
  unfold step at h
  split at h
  · cases h
    exact moves_look ‹_›
  · rename_i stage
    cases h
    exact moves_ask (by rw [stage]; trivial)
  · rename_i stage
    cases h
    exact moves_hydrate (by rw [stage]; trivial)
  · cases h
    exact .settled ‹_›
  · cases h
    exact .answered ‹_›
  · cases h

theorem journal_of_moves (moves : c.Moves d) : c.journal <+: d.journal := by
  cases moves with
  | worked begun begun' slots => exact List.prefix_refl _
  | marked stage absent => exact List.prefix_refl _
  | found stage known => exact List.prefix_append ..
  | refused stage busy => exact List.prefix_append ..
  | called begun => exact List.prefix_refl _
  | filled begun known => exact List.prefix_append ..
  | deferred begun busy => exact List.prefix_append ..
  | forgot begun begun' slots forgets => exact List.prefix_append ..
  | @settled result stage =>
    cases result with
    | ok rows => exact List.prefix_append ..
    | error e => exact List.prefix_append ..
  | @answered result stage =>
    unfold answer
    split
    · exact List.prefix_refl _
    · exact List.prefix_refl _

theorem not_ended_of_moves (moves : c.Moves d) : ¬c.Ended := by
  rintro ⟨result, ended⟩
  cases moves with
  | worked begun begun' slots => rwa [ended] at begun
  | called begun => rwa [ended] at begun
  | filled begun known => rwa [ended] at begun
  | deferred begun busy => rwa [ended] at begun
  | forgot begun begun' slots forgets => rwa [ended] at begun
  | marked stage absent => cases ended.symm.trans stage
  | found stage known => cases ended.symm.trans stage
  | refused stage busy => cases ended.symm.trans stage
  | settled stage => cases ended.symm.trans stage
  | answered stage => cases ended.symm.trans stage

end Moves

abbrev MovesTo : Course → Course → Prop := Relation.ReflTransGen Moves

theorem movesTo_of_transitions {next : Course → Option Course}
    (moves : ∀ {c d : Course}, d ∈ next c → c.Moves d) {c d : Course}
    (reached : StateTransition.Reaches next c d) : c.MovesTo d := by
  induction reached with
  | refl => exact .refl
  | tail _ stepped ih => exact ih.tail (moves stepped)

theorem movesTo_of_reaches {ctx : Context} {c d : Course} (reached : Reaches ctx c d) :
    c.MovesTo d :=
  movesTo_of_transitions moves_of_step reached

end Course
end StatementCache
