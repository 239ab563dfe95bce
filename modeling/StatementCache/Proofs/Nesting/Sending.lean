import StatementCache.Proofs.Nesting.Rest

/-! What the journal of a query tells of the outside. It has the answer that the caller gets, and it
counts how often the database was asked. -/
namespace StatementCache

def Event.isQuery : Event → Bool
  | .query _ _ => true
  | .put _ | .get | .remove | .clear | .tag _ | .execute _ _ | .commit | .rollback | .close => false

def Happening.isSent : Happening → Bool
  | .resolved _ sent _ => sent
  | .handed _ _ _ | .cleared | .wrote => false

def Stage.untold : Stage → Nat
  | .mapping _ | .selected _ => 1
  | .looking _ _ _ | .asking _ _ _ | .answered _ | .ended _ => 0

theorem Stage.untold_replied {α : Type} (next : Except Fault α → Hydration)
    (reply : Except Fault α) : (replied next reply).untold = 1 := by
  unfold replied
  split
  · rfl
  · rfl

namespace Runner

theorem log_returned (result : Except Fault Rows) (r : Runner) (w : World) :
    (returned result (r, w)).2.log = w.log := by
  unfold returned
  dsimp only
  split
  · exact Application.log_finish ..
  · rfl

def AsksNothing {α : Type} (m : Run α) : Prop :=
  ∀ r w, (m (r, w)).state.2.log.countP Event.isQuery = w.log.countP Event.isQuery

theorem asksNothing_update (db : Database) (st : Statement) (parameters : List Value) :
    AsksNothing (update db st parameters) := by
  intro r w
  rw [update_apply]
  split
  · rfl
  · simp [Database.runExecute, World.report, Event.isQuery]

theorem asksNothing_runBoundary (db : Database) (b : Boundary) (w : World) :
    (db.runBoundary b w).state.log.countP Event.isQuery = w.log.countP Event.isQuery := by
  unfold Database.runBoundary
  split
  · rfl
  · cases b <;> simp [Boundary.event, World.report, Event.isQuery]

theorem Ends.asksNothing {db : Database} {b : Boundary} {r : Runner} {w : World}
    {o : Outcome (Runner × World) Unit} (h : Ends db b r w o) :
    o.state.2.log.countP Event.isQuery = w.log.countP Event.isQuery := by
  cases h with
  | asked => exact asksNothing_runBoundary db b w
  | unasked reply said => rfl

end Runner

namespace Course

variable {ctx : Context} {c d : Course} {base : Nat}

/-- Every query in the report is in the journal, or one that is still waiting has sent it. -/
def Sends (base : Nat) (c : Course) : Prop :=
  c.world.log.countP Event.isQuery =
    base + c.journal.countP Happening.isSent + c.callers.length + c.stage.untold

section Sends

theorem Sends.goOn (h : c.Sends base) (log : d.world.log = c.world.log)
    (journal : d.journal = c.journal)
    (untold : d.callers.length + d.stage.untold = c.callers.length + c.stage.untold) :
    d.Sends base := by
  unfold Sends at h ⊢
  rw [log, journal, h]
  omega

theorem Sends.add (h : c.Sends base) {happening : Happening} (unsent : happening.isSent = false)
    (log : d.world.log.countP Event.isQuery = c.world.log.countP Event.isQuery)
    (journal : d.journal = c.journal ++ [happening])
    (untold : d.callers.length + d.stage.untold = c.callers.length + c.stage.untold) :
    d.Sends base := by
  have counted : d.journal.countP Happening.isSent = c.journal.countP Happening.isSent := by
    simp [journal, unsent]
  unfold Sends at h ⊢
  rw [log, counted, h]
  omega

theorem Sends.look (h : c.Sends base) {st : Statement} {bounds : RowBounds} {bound : BoundSql}
    (stage : c.stage = .looking st bounds bound) : (c.look st bounds bound).Sends base := by
  unfold Course.look
  split
  · exact h.add rfl rfl rfl (by rw [stage]; rfl)
  · exact h.add rfl rfl rfl (by rw [stage]; rfl)
  · exact h.goOn rfl rfl (by rw [stage]; rfl)

theorem untold_ask {st : Statement} {bounds : RowBounds} {bound : BoundSql} :
    (c.ask ctx st bounds bound).stage.untold = 1 := by
  unfold ask
  dsimp only
  split
  · rfl
  · split
    · rfl
    · split
      · rfl
      · rfl

theorem Sends.ask (h : c.Sends base) {st : Statement} {bounds : RowBounds} {bound : BoundSql}
    (stage : c.stage = .asking st bounds bound) : (c.ask ctx st bounds bound).Sends base := by
  have reported : (c.ask ctx st bounds bound).world.log.countP Event.isQuery =
      c.world.log.countP Event.isQuery + 1 := by
    simp [Course.ask, Database.runQuery, World.report, Event.isQuery]
  unfold Sends at h ⊢
  rw [reported, h, stage, untold_ask]
  rfl

theorem Sends.load (h : c.Sends base) {work : Hydration} (stage : c.stage = .mapping work)
    {st : Statement} {parameters : List Value} {next : Except Fault NestedValue → Hydration} :
    (c.load st parameters next).Sends base := by
  unfold Course.load
  dsimp only
  split
  · exact h.goOn rfl rfl (by rw [stage]; rfl)
  · exact h.add rfl rfl rfl (by rw [stage]; rfl)
  · exact h.add rfl rfl rfl (by rw [stage]; rfl)

theorem Sends.disturb (h : c.Sends base) {work : Hydration} (stage : c.stage = .mapping work)
    {α : Type} {m : Runner.Run α} (silent : Runner.AsksNothing m) {happening : Happening}
    (unsent : happening.isSent = false) {next : Except Fault α → Hydration} :
    (c.disturb m happening next).Sends base := by
  refine h.add unsent (silent ..) rfl ?_
  rw [stage]
  exact congrArg (c.callers.length + ·) (Stage.untold_replied ..)

theorem Sends.hydrate (h : c.Sends base) {work : Hydration} (stage : c.stage = .mapping work) :
    (c.hydrate ctx work).Sends base := by
  have told {α : Type} {next : Except Fault α → Hydration} {reply : Except Fault α} :
      Sends base { c with stage := .replied next reply } := by
    refine h.goOn rfl rfl ?_
    rw [stage]
    exact congrArg (c.callers.length + ·) (Stage.untold_replied ..)
  cases work with
  | done rows => exact h.goOn rfl rfl (by rw [stage]; rfl)
  | failed e => exact h.goOn rfl rfl (by rw [stage]; rfl)
  | find id next => exact h.goOn rfl rfl (by rw [stage]; rfl)
  | keep value next => exact h.goOn rfl rfl (by rw [stage]; rfl)
  | clear next => exact h.add rfl rfl rfl (by rw [stage]; rfl)
  | load id parameters next =>
    unfold Course.hydrate
    dsimp only
    split
    · exact told
    · exact h.load stage
  | query id parameters bounds next =>
    unfold Course.hydrate
    dsimp only
    split
    · exact told
    · exact h.goOn rfl rfl (by rw [stage]; rfl)
  | update id parameters next =>
    unfold Course.hydrate
    dsimp only
    split
    · exact told
    · exact h.disturb stage (Runner.asksNothing_update _ _ _) rfl
  | cached id parameters bounds next =>
    unfold Course.hydrate
    dsimp only
    split
    · exact told
    · exact told
  | commit required next =>
    exact h.disturb stage (fun r w => (Runner.ends_commit _ _ r w).asksNothing) rfl
  | rollback required next =>
    exact h.disturb stage (fun r w => (Runner.ends_rollback _ _ r w).asksNothing) rfl

theorem Sends.settle (h : c.Sends base) {result : Except Fault Rows}
    (stage : c.stage = .selected result) : (c.settle result).Sends base := by
  unfold Sends at h ⊢
  rw [stage] at h
  cases result with
  | ok rows =>
    simp only [Course.settle, resolve, List.countP_append, h]
    simp [Happening.isSent, Stage.untold]
    omega
  | error e =>
    simp only [Course.settle, resolve, List.countP_append, h]
    simp [Happening.isSent, Stage.untold]
    omega

theorem Sends.answer (h : c.Sends base) {result : Except Fault Rows}
    (stage : c.stage = .answered result) : (c.answer result).Sends base := by
  have log := Runner.log_returned result c.runner c.world
  cases callers : c.callers with
  | nil =>
    rw [answer_outer callers]
    exact h.goOn log rfl (by rw [stage]; rfl)
  | cons caller rest =>
    rw [answer_inner callers]
    refine h.goOn log rfl ?_
    rw [stage, callers]
    exact congrArg (rest.length + ·) (Stage.untold_replied ..)

theorem sends_of_step (h : c.Sends base) (stepped : d ∈ c.step ctx) : d.Sends base := by
  unfold step at stepped
  split at stepped
  · cases stepped
    exact h.look ‹_›
  · cases stepped
    exact h.ask ‹_›
  · cases stepped
    exact h.hydrate ‹_›
  · cases stepped
    exact h.settle ‹_›
  · cases stepped
    exact h.answer ‹_›
  · cases stepped

end Sends

section Told

def outermost (c : Course) : CacheKey := (c.callers.map Frame.key).getLastD c.key

theorem outermost_of_movesTo (moved : c.MovesTo d) : d.outermost = c.outermost := by
  induction moved with
  | refl => rfl
  | @tail d _ _ moves ih =>
    refine Eq.trans ?_ ih
    cases moves with
    | called begun => simp only [outermost, call, List.map_cons, List.getLastD_cons]
    | @settled result stage =>
      cases result with
      | ok rows => rfl
      | error e => rfl
    | @answered result stage =>
      cases callers : d.callers with
      | nil => simp only [outermost, answer_outer callers]
      | cons caller rest =>
        simp only [outermost, answer_inner callers, callers, List.map_cons, List.getLastD_cons]
    | _ => rfl

theorem told_of_moves (moves : c.Moves d) {result : Except Fault Rows}
    (answered : d.stage = .answered result) : ∃ sent, .resolved d.key sent result ∈ d.journal := by
  have told {c : Course} {asked : Bool} {other : Except Fault Rows}
      (answered : (c.resolve asked other).stage = .answered result) :
      ∃ sent, .resolved c.key sent result ∈ (c.resolve asked other).journal := by
    cases answered
    exact ⟨asked, List.mem_append_right _ (List.mem_singleton_self _)⟩
  cases moves with
  | worked begun begun' slots =>
    dsimp only at answered
    rw [answered] at begun'
    exact begun'.elim
  | forgot begun begun' slots forgets =>
    dsimp only at answered
    rw [answered] at begun'
    exact begun'.elim
  | marked stage absent => cases answered
  | called begun => cases answered
  | filled begun known => cases answered
  | deferred begun busy => cases answered
  | found stage known => exact told answered
  | refused stage busy => exact told answered
  | @settled other stage =>
    cases other with
    | ok rows => exact told answered
    | error e => exact told answered
  | @answered other stage =>
    cases callers : c.callers with
    | nil =>
      rw [answer_outer callers] at answered
      cases answered
    | cons caller rest =>
      rw [answer_inner callers] at answered
      have resumed := Stage.begun_replied caller.next other
      dsimp only at answered
      rw [answered] at resumed
      exact resumed.elim

end Told

theorem sends_start (st : Statement) (bounds : RowBounds) (key : CacheKey) (bound : BoundSql)
    (r : Runner) (w : World) :
    (start st bounds key bound r w).Sends (w.log.countP Event.isQuery) := by
  unfold start
  split
  · rfl
  · rfl

theorem sends_of_reaches (h : c.Sends base) (reached : Reaches ctx c d) : d.Sends base := by
  induction reached with
  | refl => exact h
  | tail _ stepped ih => exact sends_of_step ih stepped

/-- A query ends as its course does. The journal has its answer, unless the executor is closed, and
tells of as many queries to the database as the report. -/
theorem reaches_told (ctx : Context) (st : Statement) (bounds : RowBounds) (key : CacheKey)
    (bound : BoundSql) (r : Runner) (w : World) :
    let o := Runner.queryWithKey ctx st bounds key bound (r, w)
    ∃ done, Reaches ctx (start st bounds key bound r w) done ∧ done.stage = .ended o.result ∧
      (done.runner, done.world) = o.state ∧
      (r.closed = false → ∃ sent, .resolved key sent o.result ∈ done.journal) ∧
      done.world.log.countP Event.isQuery =
        w.log.countP Event.isQuery + done.journal.countP Happening.isSent := by
  intro o
  cases closed : r.closed with
  | true =>
    have sends := sends_start st bounds key bound r w
    refine ⟨_, .refl, ?_⟩
    rw [start_of_closed ctx st bounds key bound closed w] at sends ⊢
    exact ⟨rfl, rfl, fun isOpen => (by cases isOpen), sends⟩
  | false =>
    obtain ⟨last, reached, answered, outer, state⟩ :=
      reaches_answer ctx st bounds key bound closed w
    have first : start st bounds key bound r w =
        ⟨key, [], .looking st bounds bound, r.enter st, w, []⟩ := by
      rw [start, closed, if_neg Bool.false_ne_true]
    have own : last.key = key := by
      have same := outermost_of_movesTo (movesTo_of_reaches reached)
      rw [first] at same
      simpa only [outermost, outer, List.map_nil, List.getLastD_nil] using same
    obtain ⟨sent, told⟩ : ∃ sent, .resolved last.key sent o.result ∈ last.journal := by
      rcases Relation.ReflTransGen.cases_tail reached with same | ⟨before, _, stepped⟩
      · rw [same, first] at answered
        cases answered
      · exact told_of_moves (moves_of_step stepped) answered
    have stepped := @step_outer ctx last o.result answered outer
    have sends := sends_of_reaches (sends_start ..) (reached.tail stepped)
    refine ⟨_, reached.tail stepped, rfl, state, fun _ => ⟨sent, own ▸ told⟩, ?_⟩
    unfold Sends at sends
    rw [outer] at sends
    exact sends

end Course
end StatementCache
