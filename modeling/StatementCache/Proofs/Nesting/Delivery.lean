import StatementCache.Mapper
import StatementCache.Proofs.Nesting.Deferral

/-! What a deferred value is in the end. A slot that waited gets what its key has completed with by
then; and where nothing was forgotten and nothing failed, that is what the query of its key
answered. -/
namespace StatementCache

namespace Course

/-- What the journal says of the results while none are forgotten. -/
structure Tracked (c : Course) : Prop where
  kept : ∀ key sent rows, .resolved key sent (.ok rows) ∈ c.journal →
    c.runner.results.find? key = some (.rows rows)
  filled : ∀ key slot, .handed key slot false ∈ c.journal →
    ∃ rows, c.runner.results.find? key = some (.rows rows) ∧ c.world.slotRows slot = some rows
  marked : ∀ key ∈ c.begun, c.runner.results.find? key = some .inProgress
  once : c.begun.Nodup

variable {ctx : Context} {c d : Course} {base : Nat}

theorem Tracked.goOn (h : c.Tracked) (begun : d.begun = c.begun)
    (results : d.runner.results = c.runner.results)
    (slots : ∀ slot rows, c.world.slotRows slot = some rows → d.world.slotRows slot = some rows)
    (resolved : ∀ key sent rows, .resolved key sent (.ok rows) ∈ d.journal →
      .resolved key sent (.ok rows) ∈ c.journal ∨ c.runner.results.find? key = some (.rows rows))
    (handed : ∀ key slot, .handed key slot false ∈ d.journal →
      .handed key slot false ∈ c.journal ∨
        ∃ rows, c.runner.results.find? key = some (.rows rows) ∧
          d.world.slotRows slot = some rows) : d.Tracked := by
  refine ⟨fun key sent rows mem => ?_, fun key slot mem => ?_, fun key mem => ?_, begun ▸ h.once⟩
  · rw [results]
    rcases resolved key sent rows mem with earlier | known
    · exact h.kept key sent rows earlier
    · exact known
  · rw [results]
    rcases handed key slot mem with earlier | known
    · obtain ⟨rows, known, there⟩ := h.filled key slot earlier
      exact ⟨rows, known, slots slot rows there⟩
    · exact known
  · rw [results]
    exact h.marked key (begun ▸ mem)

theorem Tracked.mark (h : c.Tracked) {st : Statement} {bounds : RowBounds} {bound : BoundSql}
    (stage : c.stage = .looking st bounds bound) (absent : c.runner.results.find? c.key = none) :
    Tracked { c with
      stage := .asking st bounds bound
      runner := { c.runner with results := c.runner.results.mark c.key } } := by
  have begun : c.begun = c.callers.map Frame.key := by rw [Course.begun, stage]
  -- the key was unknown, so nothing that is known is about it
  have others {key : CacheKey} {entry : ResultEntry}
      (known : c.runner.results.find? key = some entry) :
      (c.runner.results.mark c.key).find? key = some entry := by
    rw [Results.find?_mark]
    split
    · rename_i same
      rw [← same, absent] at known
      cases known
    · exact known
  refine ⟨fun key sent rows mem => others (h.kept key sent rows mem), fun key slot mem => ?_,
    fun key mem => ?_, ?_⟩
  · obtain ⟨rows, known, there⟩ := h.filled key slot mem
    exact ⟨rows, others known, there⟩
  · rcases List.mem_cons.mp mem with rfl | outer
    · exact (Results.find?_mark ..).trans (if_pos rfl)
    · exact others (h.marked key (begun ▸ outer))
  · refine List.nodup_cons.mpr ⟨fun mem => ?_, begun ▸ h.once⟩
    have marked := h.marked c.key (begun ▸ mem)
    rw [absent] at marked
    cases marked

theorem Tracked.settle (h : c.Tracked) {result : Except Fault Rows}
    (stage : c.stage = .selected result) {results : Results}
    (others : ∀ key, c.key ≠ key → results.find? key = c.runner.results.find? key)
    (own : ∀ rows, result = .ok rows → results.find? c.key = some (.rows rows)) :
    Tracked ({ c with runner := { c.runner with results := results } }.resolve true result) := by
  have begun : c.begun = c.key :: c.callers.map Frame.key := by rw [Course.begun, stage]
  have marked := h.marked c.key (begun ▸ List.mem_cons_self)
  have once := begun ▸ h.once
  -- the key itself was in progress, so what is known of completed keys is about others
  have same {key : CacheKey} {rows : Rows}
      (known : c.runner.results.find? key = some (.rows rows)) :
      results.find? key = some (.rows rows) := by
    rw [others key fun same => ?_, known]
    rw [← same, marked] at known
    cases known
  refine ⟨fun key sent rows mem => ?_, fun key slot mem => ?_, fun key mem => ?_,
    (List.nodup_cons.mp once).2⟩
  · rcases List.mem_append.mp mem with earlier | now
    · exact same (h.kept key sent rows earlier)
    · cases List.mem_singleton.mp now
      exact own rows rfl
  · obtain ⟨rows, known, there⟩ := h.filled key slot (by simpa [resolve] using mem)
    exact ⟨rows, same known, there⟩
  · have other : c.key ≠ key := fun same => (List.nodup_cons.mp once).1 (same ▸ mem)
    exact (others key other).trans (h.marked key (begun ▸ List.mem_cons_of_mem _ mem))

theorem Tracked.resolve (h : c.Tracked) {st : Statement} {bounds : RowBounds} {bound : BoundSql}
    (stage : c.stage = .looking st bounds bound) {result : Except Fault Rows}
    (known : ∀ rows, result = .ok rows → c.runner.results.find? c.key = some (.rows rows)) :
    (c.resolve false result).Tracked := by
  refine h.goOn (begun_resolve stage false result) rfl (fun _ _ there => there)
    (fun key sent rows mem => ?_) fun key slot mem => ?_
  · rcases List.mem_append.mp mem with earlier | now
    · exact .inl earlier
    · cases List.mem_singleton.mp now
      exact .inr (known rows rfl)
  · exact .inl (by simpa [Course.resolve] using mem)

theorem Tracked.fill (h : c.Tracked) (begun : c.stage.Begun) {key : CacheKey} {rows : Rows}
    (known : c.runner.results.find? key = some (.rows rows)) (work : Hydration) :
    Tracked { c with
      stage := .mapping work
      world := c.world.newSlot.2.fill c.world.newSlot.1 rows
      journal := c.journal ++ [.handed key c.world.newSlot.1 false] } := by
  refine h.goOn (begun_of_begun begun).symm rfl (fun slot rows there => ?_)
    (fun key sent rows mem => .inl (by simpa using mem)) fun key' slot mem => ?_
  · have other : slot ≠ c.world.newSlot.1 := (World.lt_of_slotRows there).ne
    refine (World.slotRows_fill_of_ne other _).trans ?_
    exact (World.slotRows_newSlot c.world slot).trans there
  · rcases List.mem_append.mp mem with earlier | now
    · exact .inl earlier
    · cases List.mem_singleton.mp now
      exact .inr ⟨rows, known, World.slotRows_fill (by simp [World.newSlot]) rows⟩

theorem tracked_of_moves (h : c.Tracked) (balanced : c.Balanced) (moves : c.Moves d)
    (remembered : ∀ h ∈ d.journal, ¬h.Forgets) (going : ¬d.Ended) : d.Tracked := by
  cases moves with
  | worked begun begun' slots =>
    refine h.goOn ?_ rfl (fun slot rows there => ?_) (fun _ _ _ mem => .inl mem)
      fun _ _ mem => .inl mem
    · rw [begun_of_begun begun, begun_of_begun begun']
    · simpa only [World.slotRows, slots] using there
  | marked stage absent => exact h.mark stage absent
  | found stage known =>
    refine h.resolve stage fun rows ok => ?_
    cases ok
    exact known
  | refused stage busy => exact h.resolve stage fun rows ok => by cases ok
  | @called st bounds key bound next begun =>
    refine h.goOn (begun_of_begun begun).symm ?_ (fun _ _ there => there)
      (fun _ _ _ mem => .inl mem) fun _ _ mem => .inl mem
    simp only [Course.call, balanced.enter_eq begun st]
  | filled begun known => exact h.fill begun known _
  | deferred begun busy =>
    refine h.goOn (begun_of_begun begun).symm rfl (fun slot rows there => ?_)
      (fun _ _ _ mem => .inl (by simpa using mem)) fun _ _ mem => .inl (by simpa using mem)
    exact (World.slotRows_newSlot c.world slot).trans there
  | forgot begun begun' slots forgets =>
    exact absurd forgets (remembered _ (List.mem_append_right _ List.mem_cons_self))
  | @settled result stage =>
    cases result with
    | ok rows =>
      refine h.settle stage (fun key other => ?_) fun rows' ok => ?_
      · rw [Results.find?_complete, if_neg other]
      · cases ok
        rw [Results.find?_complete, if_pos rfl]
    | error e =>
      refine h.settle stage (fun key other => ?_) fun rows' ok => by cases ok
      exact Results.find?_abort_of_ne _ other
  | answered stage =>
    have begun := begun_answer stage going
    obtain ⟨caller, callers, inner⟩ := callers_of_going going
    rw [balanced.answer_eq stage inner] at begun ⊢
    exact h.goOn begun rfl (fun _ _ there => there) (fun _ _ _ mem => .inl mem)
      fun _ _ mem => .inl mem

/-- Every key that somebody waits for is still in progress, or its query has been answered. -/
def Awaited (c : Course) : Prop :=
  ∀ key slot, .handed key slot true ∈ c.journal →
    key ∈ c.begun ∨ ∃ rows, .resolved key true (.ok rows) ∈ c.journal

theorem Awaited.goOn (h : c.Awaited) (journal : c.journal <+: d.journal)
    (begun : ∀ key ∈ c.begun, key ∈ d.begun ∨ ∃ rows, .resolved key true (.ok rows) ∈ d.journal)
    (handed : ∀ key slot, .handed key slot true ∈ d.journal →
      .handed key slot true ∈ c.journal ∨ key ∈ d.begun) : d.Awaited := by
  intro key slot mem
  rcases handed key slot mem with earlier | there
  · rcases h key slot earlier with there | ⟨rows, answered⟩
    · exact begun key there
    · exact .inr ⟨rows, journal.subset answered⟩
  · exact .inl there

theorem awaited_of_moves (h : c.Awaited) (balanced : c.Balanced) (moves : c.Moves d)
    (unfailing : ∀ h ∈ d.journal, ¬h.Fails) (going : ¬d.Ended) : d.Awaited := by
  have same {key : CacheKey} {d : Course} (begun : d.begun = c.begun) (mem : key ∈ c.begun) :
      key ∈ d.begun ∨ ∃ rows, .resolved key true (.ok rows) ∈ d.journal := .inl (begun ▸ mem)
  cases moves with
  | worked begun begun' slots =>
    refine h.goOn (List.prefix_refl _) (fun key mem => same ?_ mem) fun _ _ mem => .inl mem
    rw [begun_of_begun begun, begun_of_begun begun']
  | marked stage absent =>
    refine h.goOn (List.prefix_refl _) (fun key mem => ?_) fun _ _ mem => .inl mem
    rw [begun, stage] at mem
    exact .inl (List.mem_cons_of_mem _ mem)
  | found stage known =>
    exact h.goOn (List.prefix_append ..) (fun key mem => same (begun_resolve stage ..) mem)
      fun _ _ mem => .inl (by simpa [Course.resolve] using mem)
  | refused stage busy =>
    exact h.goOn (List.prefix_append ..) (fun key mem => same (begun_resolve stage ..) mem)
      fun _ _ mem => .inl (by simpa [Course.resolve] using mem)
  | called begun =>
    exact h.goOn (List.prefix_refl _) (fun key mem => same (begun_of_begun begun).symm mem)
      fun _ _ mem => .inl mem
  | filled begun known =>
    exact h.goOn (List.prefix_append ..) (fun key mem => same (begun_of_begun begun).symm mem)
      fun _ _ mem => .inl (by simpa using mem)
  | deferred begun busy =>
    refine h.goOn (List.prefix_append ..) (fun key mem => same (begun_of_begun begun).symm mem)
      fun key slot mem => ?_
    rcases List.mem_append.mp mem with earlier | now
    · exact .inl earlier
    · cases List.mem_singleton.mp now
      exact .inr ((begun_of_begun begun).subst (motive := (_ ∈ ·)) (balanced.marked _ busy))
  | forgot begun begun' slots forgets =>
    refine h.goOn (List.prefix_append ..) (fun key mem => same ?_ mem) fun key slot mem => ?_
    · rw [begun_of_begun begun, begun_of_begun begun']
    · rcases List.mem_append.mp mem with earlier | now
      · exact .inl earlier
      · cases List.mem_singleton.mp now
        exact forgets.elim
  | @settled result stage =>
    cases result with
    | ok rows =>
      refine h.goOn (List.prefix_append ..) (fun key mem => ?_)
        fun _ _ mem => .inl (by simpa [settle, Course.resolve] using mem)
      rw [begun, stage] at mem
      rcases List.mem_cons.mp mem with rfl | outer
      · exact .inr ⟨rows, List.mem_append_right _ List.mem_cons_self⟩
      · exact .inl outer
    | error e => exact absurd trivial (unfailing _ (List.mem_append_right _ List.mem_cons_self))
  | answered stage =>
    have begun := begun_answer stage going
    obtain ⟨caller, callers, inner⟩ := callers_of_going going
    rw [balanced.answer_eq stage inner] at begun ⊢
    exact h.goOn (List.prefix_refl _) (fun key mem => same begun mem) fun _ _ mem => .inl mem

section Reaches

variable {st : Statement} {bounds : RowBounds} {key : CacheKey} {bound : BoundSql} {r : Runner}
  {w : World}

theorem of_movesTo {P : Course → Prop} (balanced : c.Balanced) (first : ¬c.Ended → P c)
    (next : ∀ c d, P c → c.Balanced → c.Moves d → ¬d.Ended → P d) (moved : c.MovesTo d)
    (going : ¬d.Ended) : P d := by
  induction moved with
  | refl => exact first going
  | tail moved moves ih =>
    exact next _ _ (ih (not_ended_of_moves moves)) (balanced_of_movesTo balanced moved) moves going

theorem of_reaches {P : Course → Prop} (atRest : r.AtRest)
    (first : ¬(start st bounds key bound r w).Ended → P (start st bounds key bound r w))
    (next : ∀ c d, P c → c.Balanced → c.Moves d → ¬d.Ended → P d)
    (reached : Reaches ctx (start st bounds key bound r w) c) (going : ¬c.Ended) : P c :=
  of_movesTo (balanced_start atRest) first next (movesTo_of_reaches reached) going

theorem begun_start (going : ¬(start st bounds key bound r w).Ended) :
    start st bounds key bound r w = ⟨key, [], .looking st bounds bound, r.enter st, w, []⟩ := by
  unfold start at going ⊢
  split
  · rw [if_pos ‹_›] at going
    exact absurd ⟨_, rfl⟩ going
  · rfl

theorem waiting_of_reaches (atRest : r.AtRest)
    (reached : Reaches ctx (start st bounds key bound r w) c) (going : ¬c.Ended) : c.Waiting := by
  refine of_reaches atRest (fun started => ?_)
    (fun _ _ waiting balanced moves going => waiting_of_moves waiting balanced moves going) reached
    going
  have deferred : (r.enter st).deferred = [] :=
    (Runner.deferred_enter r st).trans atRest.deferred_eq
  rw [begun_start started]
  refine ⟨fun _ _ mem => (by cases mem), ?_, ?_, ?_⟩
  · simp [deferred]
  · simp [deferred]
  · simp [deferred]

theorem tracked_start (going : ¬(start st bounds key bound r w).Ended) :
    (start st bounds key bound r w).Tracked := by
  rw [begun_start going]
  exact ⟨fun _ _ _ mem => (by cases mem), fun _ _ mem => (by cases mem),
    fun _ mem => (by cases mem), List.nodup_nil⟩

theorem tracked_of_movesTo (balanced : c.Balanced) (first : ¬c.Ended → c.Tracked)
    (moved : c.MovesTo d) (remembered : ∀ h ∈ d.journal, ¬h.Forgets) (going : ¬d.Ended) :
    d.Tracked := by
  refine of_movesTo (P := fun d => (∀ h ∈ d.journal, ¬h.Forgets) → d.Tracked) balanced
    (fun going _ => first going) (fun c d ih balanced moves going remembered => ?_) moved going
    remembered
  have before := ih fun h mem => remembered h ((journal_of_moves moves).subset mem)
  exact tracked_of_moves before balanced moves remembered going

theorem tracked_of_reaches (atRest : r.AtRest)
    (reached : Reaches ctx (start st bounds key bound r w) c)
    (remembered : ∀ h ∈ c.journal, ¬h.Forgets) (going : ¬c.Ended) : c.Tracked :=
  tracked_of_movesTo (balanced_start atRest) tracked_start (movesTo_of_reaches reached) remembered
    going

theorem awaited_of_reaches (atRest : r.AtRest)
    (reached : Reaches ctx (start st bounds key bound r w) c)
    (unfailing : ∀ h ∈ c.journal, ¬h.Fails) (going : ¬c.Ended) : c.Awaited := by
  refine of_reaches (P := fun c => (∀ h ∈ c.journal, ¬h.Fails) → c.Awaited) atRest
    (fun started _ => ?_) (fun c d ih balanced moves going unfailing => ?_) reached going unfailing
  · rw [begun_start started]
    exact fun _ _ mem => by cases mem
  · have before := ih fun h mem => unfailing h ((journal_of_moves moves).subset mem)
    exact awaited_of_moves before balanced moves unfailing going

end Reaches

/-- The journal tells of every slot that is new. -/
theorem listed_of_reaches (reached : Reaches ctx c d) (h : c.Listed base) : d.Listed base := by
  induction reached with
  | refl => exact h
  | tail _ stepped ih => exact listed_of_moves ih (moves_of_step stepped)

theorem filled_of_reaches (reached : Reaches ctx c d) {slot : Slot}
    (filled : (c.world.slotRows slot).isSome) : (d.world.slotRows slot).isSome := by
  induction reached with
  | refl => exact filled
  | tail _ stepped ih => exact filled_of_moves (moves_of_step stepped) ih

theorem reaches_last {first last : Course} {result : Except Fault Rows}
    (answered : last.stage = .answered result) (outer : last.callers = [])
    (toLast : Reaches ctx first last) (reached : Reaches ctx first c) (going : ¬c.Ended) :
    Reaches ctx c last := by
  rcases StateTransition.reaches_total toLast reached with after | before
  · rcases Relation.ReflTransGen.cases_head after with rfl | ⟨d, stepped, rest⟩
    · exact .refl
    · -- the step after the last answer ends the course, and there is none after that
      rw [step_outer answered outer, Option.mem_some_iff] at stepped
      subst stepped
      rcases Relation.ReflTransGen.cases_head rest with rfl | ⟨_, beyond, _⟩
      · exact absurd ⟨result, rfl⟩ going
      · cases beyond
  · exact before

theorem Waiting.returned (h : c.Waiting) (balanced : c.Balanced) {result : Except Fault Rows}
    (answered : c.stage = .answered result) (outer : c.callers = []) {key : CacheKey} {slot : Slot}
    (handed : .handed key slot true ∈ c.journal) :
    (Runner.returned result (c.runner, c.world)).2.slotRows slot =
      if result.isOk then c.runner.results.rows? key else none := by
  have depth := balanced.depth_eq
  rw [running, answered] at depth
  have mem := h.handed key slot handed
  have waits : slot ∈ c.runner.deferred.map Prod.snd := List.mem_map_of_mem (f := Prod.snd) mem
  rw [Runner.returned_outer (by simpa [outer] using depth)]
  simp only [Runner.finish, Action.modify_apply]
  split
  · exact Runner.slotRows_fillDeferred h.distinct mem (h.there slot waits) (h.empty slot waits)
  · exact h.empty slot waits

theorem Waiting.returned_filled (h : c.Waiting) {result : Except Fault Rows} {slot : Slot}
    {rows : Rows}
    (filled : c.world.slotRows slot = some rows) :
    (Runner.returned result (c.runner, c.world)).2.slotRows slot = some rows := by
  have absent : slot ∉ c.runner.deferred.map Prod.snd := fun waits => by
    rw [h.empty slot waits] at filled
    cases filled
  simp only [Runner.returned, Runner.finish, Action.modify_apply]
  split
  · dsimp only
    split
    · exact (Runner.slotRows_fillDeferred_of_notMem absent).trans filled
    · exact filled
  · exact filled

theorem Waiting.empty_before (h : d.Waiting) (reached : Reaches ctx c d) {key : CacheKey}
    {slot : Slot}
    (handed : .handed key slot true ∈ d.journal) : c.world.slotRows slot = none := by
  have waits := List.mem_map_of_mem (f := Prod.snd) (h.handed key slot handed)
  by_contra filled
  have still := filled_of_reaches reached (Option.isSome_iff_ne_none.mpr filled)
  rw [h.empty slot waits] at still
  cases still

/-- When no query has begun, every key for which a slot was handed out has completed, with what all
its queries have answered. -/
theorem Tracked.completed (h : c.Tracked) (awaited : c.Awaited) (settled : c.begun = [])
    {key : CacheKey} {slot : Slot} {waits : Bool} (handed : .handed key slot waits ∈ c.journal) :
    ∃ rows, c.runner.results.rows? key = some rows ∧
      (waits = false → c.world.slotRows slot = some rows) ∧
      (∀ sent answer, .resolved key sent (.ok answer) ∈ c.journal → answer = rows) ∧
      (waits = true → .resolved key true (.ok rows) ∈ c.journal) := by
  have same {rows sent answer} (known : c.runner.results.find? key = some (.rows rows))
      (resolved : .resolved key sent (.ok answer) ∈ c.journal) : answer = rows := by
    have kept := (h.kept key sent answer resolved).symm.trans known
    cases kept
    rfl
  have completed {rows : Rows} (known : c.runner.results.find? key = some (.rows rows)) :
      c.runner.results.rows? key = some rows := by rw [Results.rows?, known]
  cases waits with
  | true =>
    rcases awaited key slot handed with begun | ⟨rows, resolved⟩
    · rw [settled] at begun
      cases begun
    · have known := h.kept key true rows resolved
      exact ⟨rows, completed known, fun impossible => (by cases impossible), fun _ _ => same known,
        fun _ => resolved⟩
  | false =>
    obtain ⟨rows, known, there⟩ := h.filled key slot handed
    exact ⟨rows, completed known, fun _ => there, fun _ _ => same known,
      fun impossible => by cases impossible⟩

section Outermost

variable {st : Statement} {bounds : RowBounds} {key : CacheKey} {bound : BoundSql} {r : Runner}
  {w : World} {result : Except Fault Rows}

theorem not_ended_of_answered (answered : c.stage = .answered result) : ¬c.Ended := by
  rintro ⟨other, ended⟩
  cases answered.symm.trans ended

/-- If no results were forgotten and no query has failed, every slot holds what the query of its key
answered. -/
theorem complete_of_calm (atRest : r.AtRest)
    (reached : Reaches ctx (start st bounds key bound r w) c)
    (answered : c.stage = .answered result) (outer : c.callers = []) (ok : result.isOk)
    (calm : ∀ h ∈ c.journal, ¬h.Forgets ∧ ¬h.Fails) {key' : CacheKey} {slot : Slot} {waits : Bool}
    (handed : .handed key' slot waits ∈ c.journal) :
    ∃ rows, (Runner.returned result (c.runner, c.world)).2.slotRows slot = some rows ∧
      (∀ sent answer, .resolved key' sent (.ok answer) ∈ c.journal → answer = rows) ∧
      (waits = true → .resolved key' true (.ok rows) ∈ c.journal) := by
  have going := not_ended_of_answered answered
  have waiting := waiting_of_reaches atRest reached going
  have tracked := tracked_of_reaches atRest reached (fun h mem => (calm h mem).1) going
  have awaited := awaited_of_reaches atRest reached (fun h mem => (calm h mem).2) going
  have settled : c.begun = [] := by
    rw [begun, answered, outer]
    rfl
  obtain ⟨rows, completed, there, agreed, sent⟩ := tracked.completed awaited settled handed
  refine ⟨rows, ?_, agreed, sent⟩
  cases waits with
  | true =>
    have delivered :=
      waiting.returned (balanced_of_reaches atRest reached) answered outer handed
    exact delivered.trans ((if_pos ok).trans completed)
  | false => exact waiting.returned_filled (there rfl)

end Outermost

end Course

/-- Every new slot was handed out to a nested select. One that was handed out for a key in progress
is empty until the outermost query returns. It then holds what the key has completed with in the
step before, or nothing if that query has failed. If no results were forgotten and no query has
failed, every slot holds what the query of its key answered. -/
theorem Executor.deferred_values_complete (settings : Settings)
    (past : List (Context × World × Task)) (ctx : Context) (w : World) (st : Statement)
    (bounds : RowBounds) (key : CacheKey) (bound : BoundSql) :
    let r := (after settings past).runner
    let first := Course.start st bounds key bound r w
    let o := Runner.queryWithKey ctx st bounds key bound (r, w)
    ∃ done, Course.Reaches ctx first done ∧ done.stage = .ended o.result ∧
      (done.runner, done.world) = o.state ∧
      (∀ slot, w.slots.length ≤ slot → slot < done.world.slots.length →
        ∃ key waits, .handed key slot waits ∈ done.journal) ∧
      (∀ key slot, .handed key slot true ∈ done.journal →
        (∀ c, Course.Reaches ctx first c → ¬c.Ended → c.world.slotRows slot = none) ∧
        ∃ last, Course.Reaches ctx first last ∧ done ∈ last.step ctx ∧
          last.stage = .answered o.result ∧
          done.world.slotRows slot =
            if o.result.isOk then last.runner.results.rows? key else none) ∧
      (o.result.isOk → (∀ h ∈ done.journal, ¬h.Forgets ∧ ¬h.Fails) →
        ∀ key slot waits, .handed key slot waits ∈ done.journal →
          ∃ rows, done.world.slotRows slot = some rows ∧
            (∀ sent answer, .resolved key sent (.ok answer) ∈ done.journal → answer = rows) ∧
            (waits = true → .resolved key true (.ok rows) ∈ done.journal)) := by
  intro r first o
  have atRest : r.AtRest := atRest_after settings past
  cases closed : r.closed with
  | true =>
    -- nothing is handed out
    have refused : first = ⟨key, [], .ended o.result, o.state.1, o.state.2, []⟩ :=
      Course.start_of_closed ctx st bounds key bound closed w
    have same : first.world = w := by
      simp only [first, Course.start, closed, if_true]
    refine ⟨first, .refl, by rw [refused], by rw [refused], fun slot old new => ?_, ?_, ?_⟩
    · rw [same] at new
      exact absurd new (Nat.not_lt.mpr old)
    · simp [refused]
    · simp [refused]
  | false =>
    obtain ⟨last, reached, answered, outer, state⟩ :=
      Course.reaches_answer ctx st bounds key bound closed w
    have waiting :=
      Course.waiting_of_reaches atRest reached (Course.not_ended_of_answered answered)
    have stepped : ⟨last.key, last.callers, .ended o.result, o.state.1, o.state.2, last.journal⟩ ∈
        last.step ctx := by
      rw [Course.step_outer answered outer, state]
      rfl
    refine ⟨_, reached.tail stepped, rfl, rfl, fun slot old new => ?_,
      fun key slot handed => ⟨fun c toward running => ?_, last, reached, stepped, answered, ?_⟩,
      fun ok calm key slot waits handed => ?_⟩
    · refine Course.listed_of_reaches reached Course.listed_start slot old ?_
      rwa [← Runner.length_slots_returned, state]
    · exact waiting.empty_before (Course.reaches_last answered outer reached toward running) handed
    · have balanced := Course.balanced_of_reaches atRest reached
      exact state ▸ waiting.returned balanced answered outer handed
    · exact state ▸ Course.complete_of_calm atRest reached answered outer ok calm handed

namespace Executor

def cyclic : Statement :=
  { Statement.ofSql "self" .select "self" with mapper := some (RowMapper.nested "self" 0) }

def echoing : Context where
  host := .calm
  database := ⟨fun _ _ parameters => .ok [parameters], fun _ _ _ => .ok 0, fun _ => none⟩
  find _ := .ok cyclic
  nesting := 1

/-- A query that selects itself gets its own rows. -/
theorem deferred_values_complete_of_cycle :
    let r := (after .localOnly []).runner
    let bound := cyclic.source [.integer 7]
    let key := r.keyOf cyclic .default bound
    let o := Runner.queryWithKey echoing cyclic .default key bound (r, World.empty)
    o.result.isOk = true ∧ (o.state.2.slotRows 0).map List.length = some 1 ∧
      ∃ done, Course.Reaches echoing (Course.start cyclic .default key bound r World.empty) done ∧
        done.stage = .ended o.result ∧ (∃ key waits, .handed key 0 waits ∈ done.journal) ∧
        ∀ key slot, .handed key slot true ∈ done.journal →
          ∃ last : Course, done ∈ last.step echoing ∧
            o.state.2.slotRows slot = last.runner.results.rows? key := by
  intro r bound key o
  have ok : o.result.isOk = true := by decide +kernel
  refine ⟨ok, by decide +kernel, ?_⟩
  obtain ⟨done, reached, ended, state, listed, delivered, -⟩ :=
    deferred_values_complete .localOnly [] echoing World.empty cyclic .default key bound
  have same := congrArg Prod.snd state
  dsimp only at same
  have new : 0 < done.world.slots.length := by
    rw [same]
    decide +kernel
  refine ⟨done, reached, ended, listed 0 (Nat.le_refl 0) new, fun key slot handed => ?_⟩
  obtain ⟨-, last, -, stepped, -, filled⟩ := delivered key slot handed
  refine ⟨last, stepped, ?_⟩
  rw [← same, filled]
  exact if_pos ok

end Executor
end StatementCache
