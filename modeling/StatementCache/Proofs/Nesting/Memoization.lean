import StatementCache.Proofs.Nesting.Delivery
import StatementCache.Proofs.Nesting.Sending

/-! One query after another in an executor that keeps its results. Until they are cleared, the
database is asked for a key no more than once with success, and every query of the key that succeeds
has that result. -/
namespace StatementCache

def Happening.fetched? : Happening → Option CacheKey
  | .resolved key true (.ok _) => some key
  | .resolved _ _ _ | .handed _ _ _ | .cleared | .wrote => none

theorem Happening.eq_of_fetched? {h : Happening} {key : CacheKey}
    (fetched : h.fetched? = some key) : ∃ rows, h = .resolved key true (.ok rows) := by
  unfold fetched? at fetched
  split at fetched
  · cases fetched
    exact ⟨_, rfl⟩
  · cases fetched
  · cases fetched
  · cases fetched
  · cases fetched

/-- The queries of an executor between two clearings, step by step; what is told is what has
happened in those that are over. Nothing else stays the same: every query starts in a world of its
own, and every step has surroundings of its own. -/
inductive Serving (r : Runner) : List Happening → Course → Prop
  | first (st : Statement) (bounds : RowBounds) (key : CacheKey) (bound : BoundSql) (w : World) :
      Serving r [] (.start st bounds key bound r w)
  | step {told : List Happening} {c d : Course} (serving : Serving r told c) (ctx : Context)
      (stepped : d ∈ c.step ctx) : Serving r told d
  | again {told : List Happening} {c : Course} (serving : Serving r told c) (ended : c.Ended)
      (st : Statement) (keeps : st.flushCacheRequired = false) (bounds : RowBounds)
      (key : CacheKey) (bound : BoundSql) (w : World) :
      Serving r (told ++ c.journal) (.start st bounds key bound c.runner w)

theorem Runner.results_returned {r : Runner} (session : r.scope = .session)
    (result : Except Fault Rows) (w : World) : (returned result (r, w)).1.results = r.results := by
  have kept : r.scope ≠ .statement := by
    rw [session]
    decide
  unfold returned
  dsimp only
  split
  · simp only [finish, Action.modify_apply, leave, if_neg kept]
  · rfl

namespace Course

variable {c d : Course}

theorem ended_of_running (none : c.running = []) : c.Ended := by
  unfold running at none
  split at none
  · exact ⟨_, ‹_›⟩
  · cases none

theorem results_start {st : Statement} (keeps : st.flushCacheRequired = false) (bounds : RowBounds)
    (key : CacheKey) (bound : BoundSql) (r : Runner) (w : World) :
    (start st bounds key bound r w).runner.results = r.results := by
  unfold start
  split
  · rfl
  · simp [Runner.enter, keeps]

theorem journal_start (st : Statement) (bounds : RowBounds) (key : CacheKey) (bound : BoundSql)
    (r : Runner) (w : World) : (start st bounds key bound r w).journal = [] := by
  unfold start
  split
  · rfl
  · rfl

theorem kept_of_moves (tracked : c.Tracked) (balanced : c.Balanced)
    (session : c.runner.scope = .session) (moves : c.Moves d)
    (remembered : ∀ h ∈ d.journal, ¬h.Forgets) {key : CacheKey} {rows : Rows}
    (known : c.runner.results.find? key = some (.rows rows)) :
    d.runner.results.find? key = some (.rows rows) := by
  cases moves with
  | worked begun begun' slots => exact known
  | marked stage absent =>
    dsimp only
    rw [Results.find?_mark, if_neg, known]
    intro same
    cases (same ▸ absent).symm.trans known
  | found stage _ => exact known
  | refused stage busy => exact known
  | called begun =>
    simp only [call, balanced.enter_eq begun, known]
  | filled begun _ => exact known
  | deferred begun busy => exact known
  | forgot begun begun' slots forgets =>
    exact absurd forgets (remembered _ (List.mem_append_right _ List.mem_cons_self))
  | @settled result stage =>
    have other : c.key ≠ key := by
      intro same
      have begun : c.begun = c.key :: c.callers.map Frame.key := by rw [Course.begun, stage]
      cases (tracked.marked c.key (begun ▸ List.mem_cons_self)).symm.trans (same ▸ known)
    cases result with
    | ok rows => exact (Results.find?_complete ..).trans ((if_neg other).trans known)
    | error e => exact (Results.find?_abort_of_ne _ other).trans known
  | @answered result stage =>
    have results := Runner.results_returned session result c.world
    unfold answer
    split
    · exact (congrArg (Results.find? · key) results).trans known
    · exact (congrArg (Results.find? · key) results).trans known

/-- What all queries so far have told of the results that are kept. -/
structure Memoized (told : List Happening) (c : Course) : Prop where
  kept : ∀ key sent rows, .resolved key sent (.ok rows) ∈ told ++ c.journal →
    c.runner.results.find? key = some (.rows rows)
  once : ((told ++ c.journal).filterMap Happening.fetched?).Nodup

section Memoized

variable {told : List Happening}

theorem Memoized.goOn (h : c.Memoized told)
    (same : ∀ key rows, c.runner.results.find? key = some (.rows rows) →
      d.runner.results.find? key = some (.rows rows))
    (journal : d.journal = c.journal) : d.Memoized told :=
  ⟨fun key sent rows mem => same key rows (h.kept key sent rows (journal ▸ mem)), journal ▸ h.once⟩

theorem Memoized.add (h : c.Memoized told)
    (same : ∀ key rows, c.runner.results.find? key = some (.rows rows) →
      d.runner.results.find? key = some (.rows rows))
    {happening : Happening} (journal : d.journal = c.journal ++ [happening])
    (known : ∀ key sent rows, happening = .resolved key sent (.ok rows) →
      d.runner.results.find? key = some (.rows rows))
    (fresh : ∀ key, happening.fetched? = some key →
      c.runner.results.find? key = some .inProgress) : d.Memoized told := by
  refine ⟨fun key sent rows mem => ?_, ?_⟩
  · rw [journal, ← List.append_assoc] at mem
    rcases List.mem_append.mp mem with earlier | now
    · exact same key rows (h.kept key sent rows earlier)
    · exact known key sent rows (List.mem_singleton.mp now).symm
  · rw [journal, ← List.append_assoc, List.filterMap_append]
    cases fetched : happening.fetched? with
    | none => simpa [fetched] using h.once
    | some key =>
      have absent : key ∉ (told ++ c.journal).filterMap Happening.fetched? := fun mem => by
        obtain ⟨earlier, there, eq⟩ := List.mem_filterMap.mp mem
        obtain ⟨rows, rfl⟩ := Happening.eq_of_fetched? eq
        cases (fresh key fetched).symm.trans (h.kept key true rows there)
      have now : [happening].filterMap Happening.fetched? = [key] := by simp [fetched]
      rw [now]
      exact List.nodup_append_comm.mpr (List.nodup_cons.mpr ⟨absent, h.once⟩)

theorem memoized_of_moves (h : c.Memoized told) (tracked : c.Tracked) (balanced : c.Balanced)
    (session : c.runner.scope = .session) (moves : c.Moves d)
    (remembered : ∀ h ∈ d.journal, ¬h.Forgets) : d.Memoized told := by
  have same key rows (known : c.runner.results.find? key = some (.rows rows)) :=
    kept_of_moves tracked balanced session moves remembered known
  cases moves with
  | worked begun begun' slots => exact h.goOn same rfl
  | marked stage absent => exact h.goOn same rfl
  | called begun => exact h.goOn same rfl
  | found stage known =>
    refine h.add same rfl (fun key sent rows eq => ?_) fun key eq => by cases eq
    cases eq
    exact known
  | refused stage busy =>
    exact h.add same rfl (fun key sent rows eq => by cases eq) fun key eq => by cases eq
  | filled begun known =>
    exact h.add same rfl (fun key sent rows eq => by cases eq) fun key eq => by cases eq
  | deferred begun busy =>
    exact h.add same rfl (fun key sent rows eq => by cases eq) fun key eq => by cases eq
  | forgot begun begun' slots forgets =>
    exact absurd forgets (remembered _ (List.mem_append_right _ List.mem_cons_self))
  | @settled result stage =>
    cases result with
    | ok rows =>
      refine h.add same rfl (fun key sent rows' eq => ?_) fun key eq => ?_
      · cases eq
        exact (Results.find?_complete ..).trans (if_pos rfl)
      · cases eq
        refine tracked.marked c.key ?_
        rw [begun, stage]
        exact List.mem_cons_self
    | error e =>
      exact h.add same rfl (fun key sent rows eq => by cases eq) fun key eq => by cases eq
  | answered stage =>
    refine h.goOn same ?_
    unfold answer
    split
    · rfl
    · rfl

end Memoized

end Course

namespace Serving

variable {r : Runner} {told : List Happening} {c : Course}

theorem balanced (serving : Serving r told c) (atRest : r.AtRest) : c.Balanced := by
  induction serving with
  | first st bounds key bound w => exact Course.balanced_start atRest
  | step _ ctx stepped ih => exact Course.balanced_of_moves ih (Course.moves_of_step stepped)
  | again _ ended st keeps bounds key bound w ih => exact Course.balanced_start (ih.atRest ended)

theorem make_eq (serving : Serving r told c) : c.runner.make = r.make := by
  induction serving with
  | first st bounds key bound w => exact Course.make_start ..
  | step _ ctx stepped ih => exact (Course.make_of_moves (Course.moves_of_step stepped)).trans ih
  | again _ ended st keeps bounds key bound w ih => exact (Course.make_start ..).trans ih

theorem tracked (serving : Serving r told c) (atRest : r.AtRest)
    (remembered : ∀ h ∈ c.journal, ¬h.Forgets) (going : ¬c.Ended) : c.Tracked := by
  induction serving with
  | first st bounds key bound w => exact Course.tracked_start going
  | step serving ctx stepped ih =>
    have moves := Course.moves_of_step stepped
    have before := ih (fun h mem => remembered h ((Course.journal_of_moves moves).subset mem))
      (Course.not_ended_of_moves moves)
    exact Course.tracked_of_moves before (serving.balanced atRest) moves remembered going
  | again _ ended st keeps bounds key bound w ih => exact Course.tracked_start going

theorem memoized (serving : Serving r told c) (atRest : r.AtRest) (session : r.scope = .session)
    (remembered : ∀ h ∈ told ++ c.journal, ¬h.Forgets) : c.Memoized told := by
  induction serving with
  | first st bounds key bound w =>
    have nothing := Course.journal_start st bounds key bound r w
    refine ⟨fun key sent rows mem => ?_, ?_⟩
    · rw [nothing] at mem
      cases mem
    · rw [nothing]
      exact List.nodup_nil
  | @step told c d serving ctx stepped ih =>
    have moves := Course.moves_of_step stepped
    have longer : told ++ c.journal <+: told ++ d.journal :=
      (List.prefix_append_right_inj told).mpr (Course.journal_of_moves moves)
    have earlier h (mem : h ∈ told ++ c.journal) : ¬h.Forgets := remembered h (longer.subset mem)
    have tracked := serving.tracked atRest
      (fun h mem => earlier h (List.mem_append_right _ mem)) (Course.not_ended_of_moves moves)
    exact Course.memoized_of_moves (ih earlier) tracked (serving.balanced atRest)
      ((congrArg (·.1) serving.make_eq).trans session) moves
      fun h mem => remembered h (List.mem_append_right _ mem)
  | @again told c serving ended st keeps bounds key bound w ih =>
    have nothing := Course.journal_start st bounds key bound c.runner w
    have same := Course.results_start keeps bounds key bound c.runner w
    rw [nothing, List.append_nil] at remembered
    have before := ih remembered
    refine ⟨fun key' sent rows mem => ?_, ?_⟩
    · rw [nothing, List.append_nil] at mem
      rw [same]
      exact before.kept key' sent rows mem
    · rw [nothing, List.append_nil]
      exact before.once

theorem of_reaches {ctx : Context} {c d : Course} (serving : Serving r told c)
    (reached : Course.Reaches ctx c d) : Serving r told d := by
  induction reached with
  | refl => exact serving
  | tail _ stepped ih => exact ih.step ctx stepped

end Serving

/-- Between two clearings, for each key the database is asked with success once at most, all queries
of the key that succeed have the same rows, and a query of a key in progress is refused at once.
Every query that starts goes on in this way to the answer that it has when it is run in one go, the
journal has that answer, and it tells of as many queries to the database as the report. -/
theorem Executor.answers_memoized (settings : Settings) (past : List (Context × World × Task))
    (session : (after settings past).runner.scope = .session) {told : List Happening} {c : Course}
    (serving : Serving (after settings past).runner told c)
    (remembered : ∀ h ∈ told ++ c.journal, ¬h.Forgets) :
    let r := (after settings past).runner
    ((told ++ c.journal).filterMap Happening.fetched?).Nodup ∧
      (∀ key sent rows sent' rows', .resolved key sent (.ok rows) ∈ told ++ c.journal →
        .resolved key sent' (.ok rows') ∈ told ++ c.journal → rows = rows') ∧
      (∀ st bounds bound, c.stage = .looking st bounds bound → c.key ∈ c.begun → ∀ ctx,
        c.step ctx = some (c.resolve false (.error (.queryInProgress c.key.display)))) ∧
      ∀ ctx st bounds key bound r' w, c = Course.start st bounds key bound r' w →
        let o := Runner.queryWithKey ctx st bounds key bound (r', w)
        ∃ done, Serving r told done ∧ Course.Reaches ctx c done ∧ done.stage = .ended o.result ∧
          (done.runner, done.world) = o.state ∧
          (r'.closed = false → ∃ sent, .resolved key sent o.result ∈ done.journal) ∧
          done.world.log.countP Event.isQuery =
            w.log.countP Event.isQuery + done.journal.countP Happening.isSent := by
  intro r
  have atRest : r.AtRest := atRest_after settings past
  have memoized := serving.memoized atRest session remembered
  refine ⟨memoized.once, fun key sent rows sent' rows' mem mem' => ?_,
    fun st bounds bound stage begun ctx => ?_, fun ctx st bounds key bound r' w started => ?_⟩
  · cases (memoized.kept key sent rows mem).symm.trans (memoized.kept key sent' rows' mem')
    rfl
  · have going : ¬c.Ended := by
      rintro ⟨result, ended⟩
      cases stage.symm.trans ended
    have tracked := serving.tracked atRest
      (fun h mem => remembered h (List.mem_append_right _ mem)) going
    rw [Course.step, stage]
    simp only [Course.look, tracked.marked c.key begun]
  · obtain ⟨done, reached, ended, state, answered, sent⟩ :=
      Course.reaches_told ctx st bounds key bound r' w
    rw [← started] at reached
    exact ⟨done, serving.of_reaches reached, reached, ended, state, answered, sent⟩

instance : DecidablePred Happening.Forgets
  | .cleared | .wrote => .isTrue trivial
  | .resolved _ _ _ | .handed _ _ _ => .isFalse id

def Course.run (ctx : Context) (c : Course) : Nat → Course
  | 0 => c
  | steps + 1 =>
    match c.step ctx with
    | none => c
    | some d => d.run ctx steps

theorem Serving.run {r : Runner} {told : List Happening} {c : Course} (serving : Serving r told c)
    (ctx : Context) (steps : Nat) : Serving r told (c.run ctx steps) := by
  induction steps generalizing c with
  | zero => exact serving
  | succ steps ih =>
    unfold Course.run
    split
    · exact serving
    · exact ih (serving.step ctx ‹_›)

namespace Executor

def tally : Statement :=
  { Statement.ofSql "self" .select "self" with mapper := some (RowMapper.counting "self" 0) }

def tallying : Context := { echoing with find := fun _ => .ok tally }

/-- The nested query is refused, and the second query has the result of the first one. -/
theorem answers_memoized_of_cycle :
    let r := (after .localOnly []).runner
    let bound := tally.source [.integer 7]
    let key := r.keyOf tally .default bound
    let first := (Course.start tally .default key bound r World.empty).run tallying 10
    let again := (Course.start tally .default key bound first.runner World.empty).run tallying 10
    let journal := first.journal ++ again.journal
    Serving r first.journal again ∧ again.running = [] ∧
      journal.map Happening.isSent = [false, true, false] ∧
      journal.filterMap Happening.fetched? = [key] ∧
      ∀ sent rows sent' rows', .resolved key sent (.ok rows) ∈ journal →
        .resolved key sent' (.ok rows') ∈ journal → rows = rows' := by
  intro r bound key first again journal
  have begun : Serving r [] first := (Serving.first ..).run tallying 10
  have ended : first.Ended := Course.ended_of_running (by decide +kernel)
  have serving : Serving r ([] ++ first.journal) again :=
    (begun.again ended tally rfl .default key bound World.empty).run tallying 10
  rw [List.nil_append] at serving
  obtain ⟨-, same, -⟩ := answers_memoized .localOnly [] rfl serving (by decide +kernel)
  exact ⟨serving, by decide +kernel, by decide +kernel, by decide +kernel, same key⟩

end Executor
end StatementCache
