import Mathlib.Data.Set.Card
import StatementCache.Proofs.Nesting.Delivery
import StatementCache.Proofs.Nesting.Drawing

/-! Recursive mappings come to an end, though nothing limits how deep row mappers run inside one
another. A key in progress is not begun again, so no more queries have begun than there are keys. A
row mapper may still call a query whose key is in progress. That query has its place on the stack
until it is refused, and for so long its key stands there twice. -/
namespace StatementCache

namespace Course

/-- The next step when row mappers may run inside one another however deep. -/
def stepFreely (ctx : Context) (c : Course) : Option Course :=
  c.step { ctx with nesting := c.callers.length + 1 }

abbrev ReachesFreely (ctx : Context) : Course → Course → Prop :=
  StateTransition.Reaches (stepFreely ctx)

def Reads (tables : List Rows) (arity : Nat) (c : Course) : Prop :=
  ∀ work, c.stage = .mapping work → work.Reads tables arity

variable {ctx : Context} {c d : Course}

theorem movesTo_of_reachesFreely (reached : ReachesFreely ctx c d) : c.MovesTo d :=
  movesTo_of_transitions moves_of_step reached

/-- All queries that wait or run have one of the keys, and nothing was forgotten. -/
structure Confined (keys : Set CacheKey) (c : Course) : Prop where
  own : c.key ∈ keys
  callers : ∀ caller ∈ c.callers, caller.key ∈ keys
  remembered : ∀ h ∈ c.journal, ¬h.Forgets

def Admits (keys : Set CacheKey) (ctx : Context) (tables : List Rows) (arity : Nat) (r : Runner) :
    Prop :=
  ∀ id st, ctx.find id = .ok st → ∀ bounds parameters, Drawn tables arity parameters →
    r.keyOf st bounds (st.source parameters) ∈ keys

section Confined

variable {keys : Set CacheKey} {tables : List Rows} {arity : Nat}

theorem Confined.keep (h : c.Confined keys) (key : d.key = c.key) (callers : d.callers = c.callers)
    (journal : d.journal = c.journal) : d.Confined keys :=
  ⟨key ▸ h.own, callers ▸ h.callers, journal ▸ h.remembered⟩

theorem Confined.add (h : c.Confined keys) (key : d.key = c.key) (callers : d.callers = c.callers)
    {happening : Happening} (journal : d.journal = c.journal ++ [happening])
    (remembered : ¬happening.Forgets) : d.Confined keys := by
  refine ⟨key ▸ h.own, callers ▸ h.callers, fun other mem => ?_⟩
  rw [journal] at mem
  rcases List.mem_append.mp mem with earlier | now
  · exact h.remembered other earlier
  · exact List.mem_singleton.mp now ▸ remembered

theorem Confined.call (h : c.Confined keys) {st : Statement} {bounds : RowBounds} {key : CacheKey}
    {bound : BoundSql} {next : Except Fault Rows → Hydration} (known : key ∈ keys) :
    (c.call st bounds key bound next).Confined keys :=
  ⟨known, fun caller mem => by
    rcases List.mem_cons.mp mem with rfl | outer
    · exact h.own
    · exact h.callers caller outer, h.remembered⟩

theorem Confined.load (h : c.Confined keys) {st : Statement} {parameters : List Value}
    {next : Except Fault NestedValue → Hydration}
    (known : c.runner.keyOf st .default (st.source parameters) ∈ keys) :
    (c.load st parameters next).Confined keys := by
  unfold Course.load
  dsimp only
  split
  · exact h.call known
  · exact h.add rfl rfl rfl id
  · exact h.add rfl rfl rfl id

theorem Confined.look (h : c.Confined keys) (st : Statement) (bounds : RowBounds)
    (bound : BoundSql) : (c.look st bounds bound).Confined keys := by
  unfold Course.look
  split
  · exact h.add rfl rfl rfl id
  · exact h.add rfl rfl rfl id
  · exact h.keep rfl rfl rfl

theorem Confined.settle (h : c.Confined keys) (result : Except Fault Rows) :
    (c.settle result).Confined keys := by
  cases result with
  | ok rows => exact h.add rfl rfl rfl id
  | error e => exact h.add rfl rfl rfl id

theorem Confined.answer (h : c.Confined keys) (result : Except Fault Rows) :
    (c.answer result).Confined keys := by
  cases callers : c.callers with
  | nil =>
    rw [answer_outer callers]
    exact h.keep rfl rfl rfl
  | cons caller rest =>
    rw [answer_inner callers]
    have waiting := callers ▸ h.callers
    exact ⟨waiting caller List.mem_cons_self,
      fun other mem => waiting other (List.mem_cons_of_mem _ mem), h.remembered⟩

theorem Confined.hydrate (h : c.Confined keys) {work : Hydration}
    (reads : work.Reads tables arity) (admits : Admits keys ctx tables arity c.runner) :
    (c.hydrate ctx work).Confined keys := by
  cases work with
  | done rows => exact h.keep rfl rfl rfl
  | failed e => exact h.keep rfl rfl rfl
  | find id next => exact h.keep rfl rfl rfl
  | keep value next => exact h.keep rfl rfl rfl
  | cached id parameters bounds next =>
    unfold Course.hydrate
    dsimp only
    split
    · exact h.keep rfl rfl rfl
    · exact h.keep rfl rfl rfl
  | update id parameters next => exact reads.elim
  | commit required next => exact reads.elim
  | rollback required next => exact reads.elim
  | clear next => exact reads.elim
  | load id parameters next =>
    unfold Course.hydrate
    dsimp only
    split
    · exact h.keep rfl rfl rfl
    · exact h.load (admits id _ ‹_› .default parameters reads)
  | query id parameters bounds next =>
    unfold Course.hydrate
    dsimp only
    split
    · exact h.keep rfl rfl rfl
    · exact h.call (admits id _ ‹_› bounds parameters reads)

theorem confined_of_step (h : c.Confined keys) (reads : c.Reads tables arity)
    (admits : Admits keys ctx tables arity c.runner) (stepped : d ∈ c.step ctx) :
    d.Confined keys := by
  unfold step at stepped
  split at stepped
  · cases stepped
    exact h.look ..
  · cases stepped
    exact h.keep rfl rfl rfl
  · cases stepped
    exact h.hydrate (reads _ ‹_›) admits
  · cases stepped
    exact h.settle _
  · cases stepped
    exact h.answer _
  · cases stepped

theorem Confined.mem_of_running (h : c.Confined keys) {key : CacheKey} (mem : key ∈ c.running) :
    key ∈ keys := by
  unfold running at mem
  split at mem
  · cases mem
  · rcases List.mem_cons.mp mem with rfl | outer
    · exact h.own
    · obtain ⟨caller, waits, rfl⟩ := List.mem_map.mp outer
      exact h.callers caller waits

/-- Of queries that have different keys there are no more than there are keys. -/
theorem Confined.length_le_ncard (h : c.Confined keys) (finite : keys.Finite)
    {stack : List CacheKey} (once : stack.Nodup) (within : ∀ key ∈ stack, key ∈ c.running) :
    stack.length ≤ keys.ncard := by
  classical
  have known : (stack.toFinset : Set CacheKey) ⊆ keys := fun key mem =>
    h.mem_of_running (within key (List.mem_toFinset.mp mem))
  calc stack.length
      = stack.toFinset.card := (List.toFinset_card_of_nodup once).symm
    _ = (stack.toFinset : Set CacheKey).ncard := (Set.ncard_coe_finset _).symm
    _ ≤ keys.ncard := Set.ncard_le_ncard known finite

theorem confined_start {st : Statement} {bounds : RowBounds} {key : CacheKey} {bound : BoundSql}
    {r : Runner} {w : World} (known : key ∈ keys) :
    (start st bounds key bound r w).Confined keys := by
  unfold start
  split
  · exact ⟨known, fun _ mem => (by cases mem), fun _ mem => by cases mem⟩
  · exact ⟨known, fun _ mem => (by cases mem), fun _ mem => by cases mem⟩

theorem confined_of_reachesFreely (h : c.Confined keys)
    (reads : ∀ d, ReachesFreely ctx c d → d.Reads tables arity)
    (admits : Admits keys ctx tables arity c.runner) (reached : ReachesFreely ctx c d) :
    d.Confined keys := by
  induction reached with
  | refl => exact h
  | @tail d _ reached stepped ih =>
    have make := make_of_movesTo (movesTo_of_reachesFreely reached)
    refine confined_of_step ih (reads d reached) (fun id st found bounds parameters drawn => ?_)
      stepped
    rw [Runner.keyOf_eq (congrArg (·.2.1) make)]
    exact admits id st found bounds parameters drawn

end Confined

section Depth

theorem step_eq_stepFreely {nesting : Nat}
    (room : ∀ st bounds bound, c.stage = .asking st bounds bound → c.callers.length < nesting) :
    c.step { ctx with nesting := nesting } = c.stepFreely ctx := by
  unfold stepFreely step
  cases stage : c.stage with
  | asking st bounds bound =>
    simp only [ask, room st bounds bound stage, Nat.lt_succ_self, if_true]
  | mapping work =>
    cases work with
    | _ => rfl
  | _ => rfl

theorem reachesFreely_of_reaches {nesting : Nat}
    (room : ∀ d, ReachesFreely ctx c d → ∀ st bounds bound, d.stage = .asking st bounds bound →
      d.callers.length < nesting)
    (reached : Reaches { ctx with nesting := nesting } c d) : ReachesFreely ctx c d := by
  induction reached with
  | refl => exact .refl
  | @tail d _ _ stepped ih =>
    rw [step_eq_stepFreely (room d ih)] at stepped
    exact ih.tail stepped

theorem eq_of_ended {first : Course} (reached : ReachesFreely ctx first c)
    (reached' : ReachesFreely ctx first d) (ended : c.Ended) (ended' : d.Ended) : c = d := by
  rcases StateTransition.reaches_total reached reached' with after | before
  · rcases Relation.ReflTransGen.cases_head after with same | ⟨_, stepped, _⟩
    · exact same
    · exact absurd ended (not_ended_of_step stepped)
  · rcases Relation.ReflTransGen.cases_head before with same | ⟨_, stepped, _⟩
    · exact same.symm
    · exact absurd ended' (not_ended_of_step stepped)

/-- Where no more queries begin than a limit, the run ends, as the query does under the limit and
under every greater one. -/
theorem ends_of_length_begun_le {st : Statement} {bounds : RowBounds} {key : CacheKey}
    {bound : BoundSql} {r : Runner} {w : World} {limit : Nat}
    (short : ∀ c, ReachesFreely ctx (start st bounds key bound r w) c → c.begun.length ≤ limit) :
    ∃ done, ReachesFreely ctx (start st bounds key bound r w) done ∧ ∀ nesting, limit ≤ nesting →
      let o := Runner.queryWithKey { ctx with nesting := nesting } st bounds key bound (r, w)
      done.stage = .ended o.result ∧ (done.runner, done.world) = o.state := by
  have ends nesting (room : limit ≤ nesting) :
      ∃ done, ReachesFreely ctx (start st bounds key bound r w) done ∧
        let o := Runner.queryWithKey { ctx with nesting := nesting } st bounds key bound (r, w)
        done.stage = .ended o.result ∧ (done.runner, done.world) = o.state := by
    obtain ⟨done, reached, ended⟩ :=
      reaches_end { ctx with nesting := nesting } st bounds key bound r w
    refine ⟨done, reachesFreely_of_reaches (fun c reached st bounds bound stage => ?_) reached,
      ended⟩
    -- the query has begun itself, so it has fewer callers than the limit
    have within := short c reached
    rw [begun, stage] at within
    simp only [List.length_cons, List.length_map] at within
    omega
  obtain ⟨done, reached, ended⟩ := ends limit (Nat.le_refl _)
  refine ⟨done, reached, fun nesting room => ?_⟩
  obtain ⟨done', reached', ended'⟩ := ends nesting room
  rwa [eq_of_ended reached reached' ⟨_, ended.1⟩ ⟨_, ended'.1⟩]

end Depth

theorem Tracked.not_mem_begun (h : c.Tracked) (unknown : c.runner.results.find? c.key = none) :
    c.key ∉ c.begun := fun mem => by
  cases unknown.symm.trans (h.marked c.key mem)

theorem nodup_begun (tracked : ¬c.Ended → c.Tracked) : c.begun.Nodup := by
  by_cases ended : c.Ended
  · obtain ⟨result, ended⟩ := ended
    rw [begun, ended]
    exact List.nodup_nil
  · exact (tracked ended).once

/-- The key of the innermost query is in progress further out. The query is about to be refused, or
has been. -/
structure Repeats (c : Course) : Prop where
  waits : c.key ∈ c.callers.map Frame.key
  refused : (∃ st bounds bound, c.stage = .looking st bounds bound) ∨
    c.stage = .answered (.error (.queryInProgress c.key.display))

/-- An answer for a key that is still in progress is a refusal. -/
def Refuses (c : Course) : Prop :=
  ∀ result, c.stage = .answered result → c.runner.results.find? c.key = some .inProgress →
    result = .error (.queryInProgress c.key.display)

theorem refuses_of_moves (moves : c.Moves d) : d.Refuses := by
  intro result answered busy
  have going {stage : Stage} (begun : stage.Begun) (answered : stage = .answered result) :
      False := by
    rw [answered] at begun
    exact begun
  cases moves with
  | worked begun begun' slots => exact (going begun' answered).elim
  | forgot begun begun' slots forgets => exact (going begun' answered).elim
  | marked stage absent => cases answered
  | called begun => cases answered
  | filled begun known => cases answered
  | deferred begun busy => cases answered
  | found stage known => cases known.symm.trans busy
  | refused stage busy =>
    cases answered
    rfl
  | @settled settled stage =>
    cases settled with
    | ok rows =>
      have completed := Results.find?_complete c.runner.results c.key c.key rows
      rw [if_pos rfl] at completed
      cases completed.symm.trans busy
    | error e => exact absurd busy (Results.find?_abort_self c.runner.results c.key)
  | @answered told stage =>
    cases callers : c.callers with
    | nil =>
      rw [answer_outer callers] at answered
      cases answered
    | cons caller rest =>
      rw [answer_inner callers] at answered
      exact (going (Stage.begun_replied caller.next told) answered).elim

theorem refuses_of_reachesFreely {st : Statement} {bounds : RowBounds} {key : CacheKey}
    {bound : BoundSql} {r : Runner} {w : World}
    (reached : ReachesFreely ctx (start st bounds key bound r w) c) : c.Refuses := by
  rcases Relation.ReflTransGen.cases_tail reached with same | ⟨_, -, stepped⟩
  · rw [same]
    intro result answered
    unfold start at answered
    split at answered
    · cases answered
    · cases answered
  · exact refuses_of_moves (moves_of_step stepped)

/-- All keys on the stack are different, unless the innermost one repeats. -/
theorem nodup_running (tracked : ¬c.Ended → c.Tracked) (refuses : c.Refuses) :
    c.running.Nodup ∨ c.Repeats := by
  have once := nodup_begun tracked
  unfold running
  unfold begun at once
  cases stage : c.stage with
  | ended result => exact .inl List.nodup_nil
  | asking st bounds bound => exact .inl (by rwa [stage] at once)
  | mapping work => exact .inl (by rwa [stage] at once)
  | selected result => exact .inl (by rwa [stage] at once)
  | looking st bounds bound =>
    rw [stage] at once
    by_cases waits : c.key ∈ c.callers.map Frame.key
    · exact .inr ⟨waits, .inl ⟨st, bounds, bound, stage⟩⟩
    · exact .inl (List.nodup_cons.mpr ⟨waits, once⟩)
  | answered result =>
    rw [stage] at once
    by_cases waits : c.key ∈ c.callers.map Frame.key
    · have going : ¬c.Ended := not_ended_of_answered stage
      have busy := (tracked going).marked c.key (by rwa [begun, stage])
      exact .inr ⟨waits, .inr (stage.trans (congrArg _ (refuses result stage busy)))⟩
    · exact .inl (List.nodup_cons.mpr ⟨waits, once⟩)

/-- A query that repeats a key has not begun, and all others have. -/
theorem Repeats.running_eq (h : c.Repeats) : c.running = c.key :: c.begun := by
  unfold running begun
  rcases h.refused with ⟨st, bounds, bound, stage⟩ | stage
  · rw [stage]
  · rw [stage]

section Draws

variable {tables : List Rows} {arity : Nat}

structure Draws (tables : List Rows) (arity : Nat) (c : Course) : Prop where
  stage : c.stage.Draws tables arity
  callers : ∀ caller ∈ c.callers, ∀ reply, (caller.next reply).Draws tables arity

theorem Draws.reads (h : c.Draws tables arity) : c.Reads tables arity := by
  intro work stage
  have draws := h.stage
  rw [stage] at draws
  exact draws.reads

theorem Draws.call (h : c.Draws tables arity) {st : Statement} (known : st.Draws tables arity)
    {next : Except Fault Rows → Hydration} (draws : ∀ reply, (next reply).Draws tables arity)
    (bounds : RowBounds) (key : CacheKey) (bound : BoundSql) :
    (c.call st bounds key bound next).Draws tables arity := by
  refine ⟨known, fun caller mem => ?_⟩
  rcases List.mem_cons.mp mem with rfl | outer
  · exact draws
  · exact h.callers caller outer

theorem Draws.load (h : c.Draws tables arity) {st : Statement} (known : st.Draws tables arity)
    {parameters : List Value} {next : Except Fault NestedValue → Hydration}
    (draws : ∀ reply, (next reply).Draws tables arity) :
    (c.load st parameters next).Draws tables arity := by
  unfold Course.load
  dsimp only
  split
  · exact h.call known (fun reply => draws _) ..
  · exact ⟨draws _, h.callers⟩
  · exact ⟨draws _, h.callers⟩

theorem Draws.hydrate (h : c.Draws tables arity)
    (statements : ∀ id st, ctx.find id = .ok st → st.Draws tables arity) {work : Hydration}
    (draws : work.Draws tables arity) : (c.hydrate ctx work).Draws tables arity := by
  cases work with
  | done rows => exact ⟨trivial, h.callers⟩
  | failed e => exact ⟨trivial, h.callers⟩
  | find id next => exact ⟨draws _, h.callers⟩
  | keep value next => exact ⟨draws, h.callers⟩
  | cached id parameters bounds next =>
    unfold Course.hydrate
    dsimp only
    split
    · exact ⟨Stage.draws_replied draws, h.callers⟩
    · exact ⟨draws _, h.callers⟩
  | update id parameters next => exact draws.elim
  | commit required next => exact draws.elim
  | rollback required next => exact draws.elim
  | clear next => exact draws.elim
  | load id parameters next =>
    unfold Course.hydrate
    dsimp only
    split
    · exact ⟨Stage.draws_replied draws.2, h.callers⟩
    · exact h.load (statements id _ ‹_›) draws.2
  | query id parameters bounds next =>
    unfold Course.hydrate
    dsimp only
    split
    · exact ⟨Stage.draws_replied draws.2, h.callers⟩
    · exact h.call (statements id _ ‹_›) draws.2 ..

theorem Draws.ask (h : c.Draws tables arity) (serves : ctx.database.Serves tables) {st : Statement}
    (known : st.Draws tables arity) (bounds : RowBounds) (bound : BoundSql) :
    (c.ask ctx st bounds bound).Draws tables arity := by
  refine ⟨?_, h.callers⟩
  unfold Course.ask
  dsimp only
  split
  · trivial
  · rename_i rows answered
    split
    · trivial
    · rename_i mapper mapped
      split
      · refine known mapper mapped _ fun row mem => serves bound c.world rows answered row ?_
        exact List.mem_of_mem_drop (List.mem_of_mem_take mem)
      · trivial

theorem draws_of_step (stepped : d ∈ c.step ctx) (h : c.Draws tables arity)
    (serves : ctx.database.Serves tables)
    (statements : ∀ id st, ctx.find id = .ok st → st.Draws tables arity) :
    d.Draws tables arity := by
  have draws := h.stage
  unfold step at stepped
  split at stepped
  · rename_i stage
    cases stepped
    rw [stage] at draws
    unfold look
    split
    · exact ⟨trivial, h.callers⟩
    · exact ⟨trivial, h.callers⟩
    · exact ⟨draws, h.callers⟩
  · rename_i stage
    cases stepped
    rw [stage] at draws
    exact h.ask serves draws ..
  · rename_i stage
    cases stepped
    rw [stage] at draws
    exact h.hydrate statements draws
  · rename_i result stage
    cases stepped
    cases result with
    | ok rows => exact ⟨trivial, h.callers⟩
    | error e => exact ⟨trivial, h.callers⟩
  · rename_i result stage
    cases stepped
    cases callers : c.callers with
    | nil =>
      rw [answer_outer callers]
      exact ⟨trivial, h.callers⟩
    | cons caller rest =>
      rw [answer_inner callers]
      have waiting := callers ▸ h.callers
      exact ⟨Stage.draws_replied (waiting caller List.mem_cons_self),
        fun other mem => waiting other (List.mem_cons_of_mem _ mem)⟩
  · cases stepped

theorem draws_start {st : Statement} {bounds : RowBounds} {key : CacheKey} {bound : BoundSql}
    {r : Runner} {w : World} (known : st.Draws tables arity) :
    (start st bounds key bound r w).Draws tables arity := by
  unfold start
  split
  · exact ⟨trivial, fun _ mem => by cases mem⟩
  · exact ⟨known, fun _ mem => by cases mem⟩

/-- If no mapper does anything else whatever it is told, then none does in any run. -/
theorem reads_of_draws (h : c.Draws tables arity) (serves : ctx.database.Serves tables)
    (statements : ∀ id st, ctx.find id = .ok st → st.Draws tables arity)
    (reached : ReachesFreely ctx c d) : d.Reads tables arity := by
  have draws : d.Draws tables arity := by
    induction reached with
    | refl => exact h
    | tail _ stepped ih => exact draws_of_step stepped ih serves statements
  exact draws.reads

end Draws

end Course

/-- Row mappers that only select, by what finitely many rows hold, come to an end without any limit
on how deep they run. A query begins only with a key that is not in progress, so the keys that have
begun are different, and there are no more of them than the statements have with such parameters.
The keys on the stack are different too, except while the innermost query is refused for a key in
progress. The run ends as the query does under every limit that lets that many run. -/
theorem Executor.recursive_mappings_end (settings : Settings)
    (past : List (Context × World × Task)) (ctx : Context) (catalog : Catalog) (w : World)
    (st : Statement) (bounds : RowBounds) (key : CacheKey) (bound : BoundSql) (tables : List Rows)
    (arity : Nat) (known : ctx.find = catalog.statement)
    (reads : ∀ c, Course.ReachesFreely ctx
      (Course.start st bounds key bound (after settings past).runner w) c → c.Reads tables arity) :
    let r := (after settings past).runner
    let first := Course.start st bounds key bound r w
    let keys := insert key (r.keysFrom catalog tables arity)
    keys.Finite ∧
      (∀ c, Course.ReachesFreely ctx first c →
        (∀ st bounds bound, c.stage = .looking st bounds bound →
          c.runner.results.find? c.key = none → c.key ∉ c.begun) ∧
        c.begun.Nodup ∧ (∀ key ∈ c.running, key ∈ keys) ∧ c.runner.depth = c.running.length ∧
        (c.running.Nodup ∧ c.runner.depth ≤ keys.ncard ∨
          c.Repeats ∧ c.running = c.key :: c.begun ∧ c.runner.depth ≤ keys.ncard + 1)) ∧
      ∃ done, Course.ReachesFreely ctx first done ∧ ∀ nesting, keys.ncard ≤ nesting →
        let o := Runner.queryWithKey { ctx with nesting := nesting } st bounds key bound (r, w)
        done.stage = .ended o.result ∧ (done.runner, done.world) = o.state := by
  intro r first keys
  have atRest : r.AtRest := atRest_after settings past
  have finite : keys.Finite := (r.finite_keysFrom catalog tables arity).insert key
  have admits : Course.Admits keys ctx tables arity first.runner := by
    intro id st found bounds parameters drawn
    rw [known] at found
    have make : first.runner.make = r.make := Course.make_start ..
    rw [Runner.keyOf_eq (congrArg (·.2.1) make)]
    exact .inr ⟨st, Catalog.mem_values_of_statement found, bounds, parameters, drawn, rfl⟩
  have confined {c} (reached : Course.ReachesFreely ctx first c) : c.Confined keys :=
    Course.confined_of_reachesFreely (Course.confined_start (.inl rfl)) reads admits reached
  have tracked {c} (reached : Course.ReachesFreely ctx first c) (going : ¬c.Ended) : c.Tracked :=
    Course.tracked_of_movesTo (Course.balanced_start atRest) Course.tracked_start
      (Course.movesTo_of_reachesFreely reached) (confined reached).remembered going
  have depth {c} (reached : Course.ReachesFreely ctx first c) : c.runner.depth = c.running.length :=
    (Course.balanced_of_movesTo (Course.balanced_start atRest)
      (Course.movesTo_of_reachesFreely reached)).depth_eq
  have once {c} (reached : Course.ReachesFreely ctx first c) : c.begun.Nodup :=
    Course.nodup_begun (tracked reached)
  have length {c} (reached : Course.ReachesFreely ctx first c) : c.begun.length ≤ keys.ncard :=
    (confined reached).length_le_ncard finite (once reached) fun _ => Course.mem_running
  refine ⟨finite, fun c reached => ⟨fun st bounds bound stage unknown => ?_, once reached,
    fun key => (confined reached).mem_of_running, depth reached, ?_⟩,
    Course.ends_of_length_begun_le fun c => length⟩
  · refine (tracked reached ?_).not_mem_begun unknown
    rintro ⟨result, ended⟩
    cases stage.symm.trans ended
  · rw [depth reached]
    rcases Course.nodup_running (tracked reached) (Course.refuses_of_reachesFreely reached) with
      different | repeats
    · exact .inl ⟨different, (confined reached).length_le_ncard finite different fun _ mem => mem⟩
    · refine .inr ⟨repeats, repeats.running_eq, ?_⟩
      rw [repeats.running_eq]
      exact Nat.succ_le_succ (length reached)

namespace Executor

def people : Rows :=
  [[.integer 1, .integer 2], [.integer 2, .integer 1], [.integer 3, .integer 3]]

def manager : Statement :=
  { Statement.ofSql "manager" .select "person" with mapper := some (RowMapper.nested "rank" 1) }

def rank : Statement :=
  { Statement.ofSql "rank" .select "person" with mapper := some (RowMapper.counting "manager" 1) }

def hierarchy : Catalog :=
  { Catalog.ofSettings .localOnly .builtIn with
    statements := (Table.empty.insert "manager" manager).insert "rank" rank }

def registry : Database where
  query _ _ parameters := .ok (people.filter fun row => Value.equalItems (row.take 1) parameters)
  execute _ _ _ := .ok 0
  boundary _ := none

theorem serves_registry : registry.Serves [people] := by
  intro bound w rows answered row mem
  cases answered
  exact ⟨people, List.mem_singleton_self _, (List.mem_filter.mp mem).1⟩

theorem wide_people {rows : Rows} (served : ∀ row ∈ rows, ∃ table ∈ [people], row ∈ table) :
    ∀ row ∈ rows, 1 < row.length := by
  intro row mem
  obtain ⟨table, there, within⟩ := served row mem
  rw [List.mem_singleton.mp there] at within
  simp only [people, List.mem_cons, List.not_mem_nil, or_false] at within
  rcases within with rfl | rfl | rfl <;> decide

theorem draws_hierarchy {st : Statement} (known : st ∈ hierarchy.statements.values) :
    st.Draws [people] 1 := by
  intro mapper mapped rows served
  have statements : st = manager ∨ st = rank := by
    simpa [hierarchy, Table.values, Table.insert, Table.put, Table.empty] using known
  rcases statements with rfl | rfl
  · cases mapped
    exact RowMapper.draws_nested Nat.one_pos served (wide_people served)
  · cases mapped
    exact RowMapper.draws_counting Nat.one_pos served (wide_people served)

/-- Who looks for the manager of the first person comes back to that person, and to an end. -/
theorem recursive_mappings_end_of_cycle :
    let ctx : Context := ⟨.calm, registry, hierarchy.statement, 2⟩
    let r := (after .localOnly []).runner
    let bound := manager.source [.integer 1]
    let key := r.keyOf manager .default bound
    let first := Course.start manager .default key bound r World.empty
    (∀ c, Course.ReachesFreely ctx first c → c.Reads [people] 1) ∧
      (Runner.queryWithKey ctx manager .default key bound (r, World.empty)).result.isOk = true ∧
      (insert key (r.keysFrom hierarchy [people] 1)).Finite ∧
      ∃ done, Course.ReachesFreely ctx first done ∧ done.Ended := by
  intro ctx r bound key first
  have draws id st (found : hierarchy.statement id = .ok st) : st.Draws [people] 1 :=
    draws_hierarchy (Catalog.mem_values_of_statement found)
  have reads c (reached : Course.ReachesFreely ctx first c) : c.Reads [people] 1 :=
    Course.reads_of_draws (Course.draws_start (draws "manager" manager rfl)) serves_registry draws
      reached
  obtain ⟨finite, -, done, reached, ended⟩ := recursive_mappings_end .localOnly [] ctx hierarchy
    World.empty manager .default key bound [people] 1 rfl reads
  exact ⟨reads, by decide +kernel, finite, done, reached, _, (ended _ (Nat.le_refl _)).1⟩

/-- Everyone's manager is looked up with a query of its own. -/
def superior : Statement :=
  { Statement.ofSql "superior" .select "person" with
    mapper := some (RowMapper.appending "superior" 1) }

def superiors : Catalog :=
  { Catalog.ofSettings .localOnly .builtIn with
    statements := Table.empty.insert "superior" superior }

/-- Who manages himself is looked up while the same query is running. One key stands on the stack
twice. -/
theorem key_twice_on_stack :
    let ctx : Context := ⟨.calm, registry, superiors.statement, 1⟩
    let r := (after .localOnly []).runner
    let bound := superior.source [.integer 3]
    let key := r.keyOf superior .default bound
    let first := Course.start superior .default key bound r World.empty
    (∀ c, Course.ReachesFreely ctx first c → c.Reads [people] 1) ∧
      ∃ c, Course.ReachesFreely ctx first c ∧ c.running = [key, key] ∧ ¬c.running.Nodup ∧
        c.running.dedup.length < c.runner.depth := by
  intro ctx r bound key first
  have draws {st : Statement} (known : st = superior) : st.Draws [people] 1 := by
    subst known
    intro mapper mapped rows served
    cases mapped
    exact RowMapper.draws_appending Nat.one_pos served (wide_people served)
  refine ⟨fun c reached => ?_, ?_⟩
  · refine Course.reads_of_draws (Course.draws_start (draws rfl)) serves_registry
      (fun id st found => draws ?_) reached
    simpa [superiors, Table.values, Table.insert, Table.put, Table.empty] using
      Catalog.mem_values_of_statement found
  · -- the key is marked, the row is found, the mapper finds the statement, and calls it
    have twice : ∃ c, Course.ReachesFreely ctx first c ∧ c.running = [key, key] ∧
        c.runner.depth = 2 := ⟨_, .tail (.tail (.tail (.single rfl) rfl) rfl) rfl, rfl, rfl⟩
    obtain ⟨c, reached, stack, depth⟩ := twice
    exact ⟨c, reached, stack, by simp [stack], by simp [stack, depth]⟩

end Executor
end StatementCache
