import StatementCache.Proofs.Nesting.Tasks
import StatementCache.Proofs.Sessions.Plain

/-! Queries leave the executor as they need it. While queries run, the marks in the executor's
results are theirs and the depth counts them; when none runs, only results are left of them. -/
namespace StatementCache

open StatementCache.Action

structure Runner.AtRest (r : Runner) : Prop where
  depth_eq : r.depth = 0
  unmarked : ∀ key, r.results.find? key ≠ some .inProgress
  deferred_eq : r.deferred = []
  forgetful : r.scope = .statement → r.results = .empty

theorem Results.find?_abort_self (c : Results) (key : CacheKey) :
    (c.abort key).find? key ≠ some .inProgress := by
  unfold abort
  split
  · simp only [find?, Table.get?_erase, if_true]
    exact Option.some_ne_none _ ∘ Eq.symm
  · assumption

namespace Runner

theorem depth_clearResults (r : Runner) : r.clearResults.depth = r.depth := by
  unfold clearResults
  split <;> rfl

theorem find?_of_clearResults {r : Runner} {key : CacheKey} {entry : ResultEntry}
    (there : r.clearResults.results.find? key = some entry) : r.results.find? key = some entry := by
  unfold clearResults at there
  split at there
  · exact there
  · cases there

theorem depth_enter (r : Runner) (st : Statement) : (r.enter st).depth = r.depth + 1 := by
  unfold enter
  split
  · exact congrArg (· + 1) (depth_clearResults r)
  · rfl

theorem find?_of_enter {r : Runner} {st : Statement} {key : CacheKey} {entry : ResultEntry}
    (there : (r.enter st).results.find? key = some entry) : r.results.find? key = some entry := by
  unfold enter at there
  split at there
  · exact find?_of_clearResults there
  · exact there

theorem enter_inner {r : Runner} (inner : r.depth ≠ 0) (st : Statement) :
    r.enter st = { r with depth := r.depth + 1 } := by
  simp only [enter, inner, false_and, if_false]

theorem returned_inner {r : Runner} (inner : 1 < r.depth) (result : Except Fault Rows) (w : World) :
    returned result (r, w) = (r.leave, w) := by
  have within : r.leave.depth ≠ 0 := by simp only [leave]; omega
  simp only [returned, within, if_false]

theorem returned_outer {r : Runner} (outer : r.depth = 1) (result : Except Fault Rows) (w : World) :
    returned result (r, w) = (finish result.isOk (r.leave, w)).state := by
  simp only [returned, leave, outer, Nat.sub_self, if_true]

theorem atRest_finish {r : Runner} (depth : r.depth = 0)
    (unmarked : ∀ key, r.results.find? key ≠ some .inProgress) (succeeded : Bool) (w : World) :
    (finish succeeded (r, w)).state.1.AtRest := by
  refine ⟨depth, fun key => ?_, rfl, fun statement => ?_⟩
  · simp only [finish, modify_apply]
    split
    · exact Option.some_ne_none _ ∘ Eq.symm
    · exact unmarked key
  · simp only [finish, modify_apply] at statement ⊢
    rw [if_pos statement]

end Runner

namespace Course

def begun (c : Course) : List CacheKey :=
  match c.stage with
  | .asking _ _ _ | .mapping _ | .selected _ => c.key :: c.callers.map Frame.key
  | .looking _ _ _ | .answered _ => c.callers.map Frame.key
  | .ended _ => []

/-- What holds of an executor whatever its queries are doing. -/
structure Clean (c : Course) : Prop where
  depth_eq : c.runner.depth = c.running.length
  marked : ∀ key, c.runner.results.find? key = some .inProgress → key ∈ c.running
  atRest : c.running = [] → c.runner.AtRest

/-- The same, with a place on the stack for a query only from the moment it marks its key. -/
structure Balanced (c : Course) : Prop where
  depth_eq : c.runner.depth = c.running.length
  marked : ∀ key, c.runner.results.find? key = some .inProgress → key ∈ c.begun
  atRest : c.Ended → c.runner.AtRest

variable {ctx : Context} {c d : Course}

theorem running_of_begun (h : c.stage.Begun) : c.running = c.key :: c.callers.map Frame.key := by
  unfold running
  cases stage : c.stage with
  | ended result => simp [stage, Stage.Begun] at h
  | _ => rfl

theorem begun_of_begun (h : c.stage.Begun) : c.begun = c.key :: c.callers.map Frame.key := by
  unfold begun
  cases stage : c.stage with
  | asking st bounds bound => rfl
  | mapping work => rfl
  | selected result => rfl
  | _ => simp [stage, Stage.Begun] at h

theorem mem_running {key : CacheKey} (h : key ∈ c.begun) : key ∈ c.running := by
  unfold begun at h
  unfold running
  cases stage : c.stage with
  | ended result => rwa [stage] at h
  | asking st bounds bound => rwa [stage] at h
  | mapping work => rwa [stage] at h
  | selected result => rwa [stage] at h
  | looking st bounds bound =>
    rw [stage] at h
    exact List.mem_cons_of_mem _ h
  | answered result =>
    rw [stage] at h
    exact List.mem_cons_of_mem _ h

theorem Balanced.clean (h : c.Balanced) : c.Clean := by
  refine ⟨h.depth_eq, fun key marked => mem_running (h.marked key marked), fun idle => ?_⟩
  unfold running at idle
  split at idle
  · exact h.atRest ⟨_, ‹_›⟩
  · cases idle

theorem not_ended_of_begun (h : c.stage.Begun) : ¬c.Ended := by
  rintro ⟨result, ended⟩
  rw [ended] at h
  exact h

theorem Balanced.goOn (h : c.Balanced) (begun : c.stage.Begun) (begun' : d.stage.Begun)
    (key : d.key = c.key) (callers : d.callers = c.callers)
    (depth : d.runner.depth = c.runner.depth)
    (marked : ∀ key, d.runner.results.find? key = some .inProgress →
      c.runner.results.find? key = some .inProgress) : d.Balanced := by
  refine ⟨?_, fun key' there => ?_, (absurd · (not_ended_of_begun begun'))⟩
  · rw [depth, h.depth_eq, running_of_begun begun, running_of_begun begun', key, callers]
  · have mem := h.marked key' (marked key' there)
    rwa [begun_of_begun begun, ← key, ← callers, ← begun_of_begun begun'] at mem

theorem balanced_resolve {sent : Bool} {result : Except Fault Rows}
    (depth : c.runner.depth = c.callers.length + 1)
    (marked : ∀ key, c.runner.results.find? key = some .inProgress →
      key ∈ c.callers.map Frame.key) : (c.resolve sent result).Balanced := by
  refine ⟨?_, marked, fun ended => by cases ended.choose_spec⟩
  simpa [running, resolve] using depth

theorem Balanced.enter_eq (h : c.Balanced) (begun : c.stage.Begun) (st : Statement) :
    c.runner.enter st = { c.runner with depth := c.runner.depth + 1 } := by
  have depth := h.depth_eq
  rw [running_of_begun begun] at depth
  exact Runner.enter_inner (by simp [depth]) st

theorem Balanced.call (h : c.Balanced) (begun : c.stage.Begun) (st : Statement) (bounds : RowBounds)
    (key : CacheKey) (bound : BoundSql) (next : Except Fault Rows → Hydration) :
    (c.call st bounds key bound next).Balanced := by
  have depth := h.depth_eq
  rw [running_of_begun begun, List.length_cons] at depth
  have entered := h.enter_eq begun st
  refine ⟨?_, fun key' there => ?_, fun ended => by cases ended.choose_spec⟩
  · simp only [Course.call, running, entered, List.map_cons, List.length_cons, depth]
  · simp only [Course.call, entered] at there
    exact (begun_of_begun begun).subst (motive := (key' ∈ ·)) (h.marked key' there)

theorem Balanced.settle (h : c.Balanced) {result : Except Fault Rows}
    (stage : c.stage = .selected result) : (c.settle result).Balanced := by
  have running : c.running = c.key :: c.callers.map Frame.key := by rw [Course.running, stage]
  have begun : c.begun = c.key :: c.callers.map Frame.key := by rw [Course.begun, stage]
  have depth : c.runner.depth = c.callers.length + 1 := by simpa [running] using h.depth_eq
  have others {key : CacheKey} (other : c.key ≠ key)
      (there : c.runner.results.find? key = some .inProgress) : key ∈ c.callers.map Frame.key := by
    have mem := h.marked key there
    rw [begun] at mem
    exact List.mem_of_ne_of_mem other.symm mem
  cases result with
  | ok rows =>
    refine balanced_resolve depth fun key there => ?_
    rw [Results.find?_complete] at there
    split at there
    · cases there
    · exact others ‹_› there
  | error e =>
    refine balanced_resolve depth fun key there => ?_
    by_cases same : c.key = key
    · exact absurd (same ▸ there) (Results.find?_abort_self _ _)
    · exact others same ((Results.find?_abort_of_ne _ same).symm.trans there)

theorem Balanced.answer_eq (h : c.Balanced) {result : Except Fault Rows}
    (stage : c.stage = .answered result) {caller : Frame} {callers : List Frame}
    (inner : c.callers = caller :: callers) :
    c.answer result =
      { c with
        key := caller.key
        callers := callers
        stage := .replied caller.next result
        runner := c.runner.leave } := by
  have depth := h.depth_eq
  rw [running, stage] at depth
  rw [answer_inner inner, Runner.returned_inner (by simp [depth, inner])]

theorem callers_of_going {result : Except Fault Rows} (going : ¬(c.answer result).Ended) :
    ∃ caller callers, c.callers = caller :: callers := by
  cases outer : c.callers with
  | nil =>
    rw [answer_outer outer] at going
    exact absurd ⟨result, rfl⟩ going
  | cons caller callers => exact ⟨caller, callers, rfl⟩

theorem begun_resolve {st : Statement} {bounds : RowBounds} {bound : BoundSql}
    (stage : c.stage = .looking st bounds bound) (sent : Bool) (result : Except Fault Rows) :
    (c.resolve sent result).begun = c.begun := by
  have begun : c.begun = c.callers.map Frame.key := by rw [Course.begun, stage]
  exact begun.symm

theorem begun_answer {result : Except Fault Rows} (stage : c.stage = .answered result)
    (going : ¬(c.answer result).Ended) : (c.answer result).begun = c.begun := by
  obtain ⟨caller, callers, inner⟩ := callers_of_going going
  have resumed := Stage.begun_replied caller.next result
  rw [answer_inner inner, begun_of_begun resumed, begun, stage, inner]
  rfl

theorem Balanced.answer (h : c.Balanced) {result : Except Fault Rows}
    (stage : c.stage = .answered result) : (c.answer result).Balanced := by
  have running : c.running = c.key :: c.callers.map Frame.key := by rw [Course.running, stage]
  have begun : c.begun = c.callers.map Frame.key := by rw [Course.begun, stage]
  have depth : c.runner.depth = c.callers.length + 1 := by simpa [running] using h.depth_eq
  cases callers : c.callers with
  | nil =>
    rw [callers] at depth begun
    have atRest : (Runner.returned result (c.runner, c.world)).1.AtRest := by
      rw [Runner.returned_outer depth]
      refine Runner.atRest_finish (by simp [Runner.leave, depth]) (fun key there => ?_) _ _
      exact List.not_mem_nil (begun ▸ h.marked key there)
    rw [answer_outer callers]
    exact ⟨atRest.depth_eq, fun key there => absurd there (atRest.unmarked key), fun _ => atRest⟩
  | cons caller callers' =>
    have resumed := Stage.begun_replied caller.next result
    have going : ¬(c.answer result).Ended := by
      rw [answer_inner callers]
      exact not_ended_of_begun resumed
    have same := begun_answer stage going
    rw [h.answer_eq stage callers] at going same ⊢
    refine ⟨?_, fun key there => ?_, (absurd · going)⟩
    · rw [running_of_begun resumed]
      simp [Runner.leave, depth, callers]
    · exact same.symm.subst (motive := (key ∈ ·)) (h.marked key there)

theorem balanced_of_moves (h : c.Balanced) (moves : c.Moves d) : d.Balanced := by
  have looking {st : Statement} {bounds : RowBounds} {bound : BoundSql}
      (stage : c.stage = .looking st bounds bound) :
      c.runner.depth = c.callers.length + 1 ∧
        ∀ key, c.runner.results.find? key = some .inProgress → key ∈ c.callers.map Frame.key := by
    have running : c.running = c.key :: c.callers.map Frame.key := by rw [Course.running, stage]
    have begun : c.begun = c.callers.map Frame.key := by rw [Course.begun, stage]
    exact ⟨by simpa [running] using h.depth_eq, begun ▸ h.marked⟩
  cases moves with
  | worked begun begun' slots => exact h.goOn begun begun' rfl rfl rfl fun _ there => there
  | marked stage absent =>
    obtain ⟨depth, marked⟩ := looking stage
    refine ⟨by simpa [running] using depth, fun key there => ?_,
      fun ended => by cases ended.choose_spec⟩
    rw [Results.find?_mark] at there
    split at there
    · rename_i same
      exact same ▸ List.mem_cons_self
    · exact List.mem_cons_of_mem _ (marked key there)
  | found stage known => exact balanced_resolve (looking stage).1 (looking stage).2
  | refused stage busy => exact balanced_resolve (looking stage).1 (looking stage).2
  | called begun => exact h.call begun _ _ _ _ _
  | filled begun known => exact h.goOn begun trivial rfl rfl rfl fun _ there => there
  | deferred begun busy => exact h.goOn begun trivial rfl rfl rfl fun _ there => there
  | forgot begun begun' slots forgets =>
    refine h.goOn begun begun' rfl rfl ?_ fun key there => ?_
    · exact Runner.depth_clearResults c.runner
    · exact Runner.find?_of_clearResults there
  | settled stage => exact h.settle stage
  | answered stage => exact h.answer stage

theorem balanced_of_movesTo (h : c.Balanced) (moved : c.MovesTo d) : d.Balanced := by
  induction moved with
  | refl => exact h
  | tail _ moves ih => exact balanced_of_moves ih moves

variable {st : Statement} {bounds : RowBounds} {key : CacheKey} {bound : BoundSql} {r : Runner}
  {w : World}

theorem balanced_start (h : r.AtRest) : (start st bounds key bound r w).Balanced := by
  unfold start
  split
  · exact ⟨h.depth_eq, fun key there => absurd there (h.unmarked key), fun _ => h⟩
  · refine ⟨?_, fun key there => ?_, fun ended => by cases ended.choose_spec⟩
    · exact (Runner.depth_enter r st).trans (congrArg (· + 1) h.depth_eq)
    · exact absurd (Runner.find?_of_enter there) (h.unmarked key)

theorem balanced_of_reaches (h : r.AtRest)
    (reached : Reaches ctx (start st bounds key bound r w) c) : c.Balanced :=
  balanced_of_movesTo (balanced_start h) (movesTo_of_reaches reached)

end Course

namespace Runner

theorem AtRest.query {r : Runner} (h : r.AtRest) (ctx : Context) (st : Statement)
    (bounds : RowBounds) (key : CacheKey) (bound : BoundSql) (w : World) :
    (queryWithKey ctx st bounds key bound (r, w)).state.1.AtRest := by
  obtain ⟨c, reached, ended, state⟩ := Course.reaches_end ctx st bounds key bound r w
  rw [← state]
  exact (Course.balanced_of_reaches h reached).atRest ⟨_, ended⟩

theorem AtRest.defer {r : Runner} (h : r.AtRest) {key : CacheKey} (slot : Slot) (w : World)
    (known : r.results.contains key = true) : (defer key slot (r, w)).state.1.AtRest := by
  cases closed : r.closed with
  | true =>
    have refused : ensureOpen (r, w) = ⟨.error .executorClosed, (r, w)⟩ := by
      rw [ensureOpen_apply, if_pos closed]
    simp only [Runner.defer, bind_apply, refused]
    exact h
  | false =>
    obtain ⟨entry, found⟩ := Option.isSome_iff_exists.mp known
    rw [defer_apply _ _ _ _ closed]
    cases entry with
    | inProgress => exact absurd found (h.unmarked key)
    | rows rows =>
      have completed : r.results.rows? key = some rows := by
        simp only [Results.rows?, Results.find?, found]
      rw [completed]
      exact h

theorem AtRest.emptied {r : Runner} (h : r.AtRest) : { r with results := .empty }.AtRest :=
  ⟨h.depth_eq, fun _ there => (by cases there), h.deferred_eq, fun _ => rfl⟩

theorem AtRest.shut {r : Runner} (h : r.AtRest) :
    { r with closed := true, results := .empty, deferred := [] }.AtRest :=
  ⟨h.depth_eq, fun _ there => (by cases there), rfl, fun _ => rfl⟩

theorem AtRest.clearResults {r : Runner} (h : r.AtRest) : r.clearResults.AtRest := by
  unfold Runner.clearResults
  split
  · exact h
  · exact h.emptied

theorem AtRest.perform (ctx : Context) (task : Task) :
    Keeps (fun s => s.1.runner.AtRest) (Executor.perform ctx task) := by
  apply Executor.keeps_perform (I := AtRest)
  · exact fun st bounds key bound s h => h.query ctx st bounds key bound s.2
  · exact fun key slot s h known => h.defer slot s.2 known
  · exact fun _ h => h.clearResults
  · exact fun _ h => h.shut

end Runner

/-- No query is running in an executor between two operations. -/
theorem Executor.atRest_after (settings : Settings) (past : List (Context × World × Task)) :
    (after settings past).runner.AtRest := by
  refine of_after settings ?_ Runner.AtRest.perform past
  exact ⟨rfl, fun _ there => (by cases there), rfl, fun _ => rfl⟩

/-- Whatever an executor was asked for before, it is at rest between two operations, and clean at
every step of a query; and the steps lead to what the query answers and leaves behind. -/
theorem Executor.clean_at_every_step (settings : Settings) (past : List (Context × World × Task)) :
    let r := (after settings past).runner
    r.AtRest ∧ ∀ (ctx : Context) (w : World) (st : Statement) (bounds : RowBounds) (key : CacheKey)
      (bound : BoundSql),
      (∀ c, Course.Reaches ctx (Course.start st bounds key bound r w) c → c.Clean) ∧
      ∃ c, Course.Reaches ctx (Course.start st bounds key bound r w) c ∧
        let o := Runner.queryWithKey ctx st bounds key bound (r, w)
        c.stage = .ended o.result ∧ (c.runner, c.world) = o.state := by
  have atRest := atRest_after settings past
  refine ⟨atRest, fun ctx w st bounds key bound => ⟨fun c reached => ?_, ?_⟩⟩
  · exact (Course.balanced_of_reaches atRest reached).clean
  · exact Course.reaches_end ctx st bounds key bound _ w

end StatementCache
