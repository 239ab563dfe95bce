import StatementCache.Proofs.Sessions.Likeness
import StatementCache.Proofs.Sessions.OwnReads
import StatementCache.Proofs.Sessions.Plain
import StatementCache.Proofs.Sessions.Transcripts

/-! A unit of work that has not ended. Over passive caches other sessions cannot tell that it is
there: a run with the work and the run without it are the same to them, call for call, in whatever
order the others walk their overlays. -/
namespace StatementCache

open StatementCache.Action

variable {base base' : List Event} {ctx : Context}

namespace Coordinator

structure Alike (c c' : Coordinator) : Prop where
  runner : c.runner.Alike c'.runner
  overlays_eq : c.overlays = c'.overlays

abbrev Paired (base base' : List Event) : Coordinator × World → Coordinator × World → Prop :=
  Beside Alike (World.Paired base base')

variable {α : Type} {Q : α → α → Prop} {st : Statement}

theorem alike_onRunner {m : Runner.Run α} (h : Action.Alike (Runner.Paired base base') Q m m) :
    Action.Alike (Paired base base') Q (onRunner m) (onRunner m) := by
  rintro ⟨c, w⟩ ⟨c', w'⟩ ⟨hc, hw⟩
  obtain ⟨ends, runners, worlds⟩ := h (c.runner, w) (c'.runner, w') ⟨hc.runner, hw⟩
  exact ⟨ends, ⟨runners, hc.overlays_eq⟩, worlds⟩

theorem alike_onOverlays {m : Action (Overlays × World) α}
    (h : Action.Alike (Beside Eq (World.Paired base base')) Q m m) :
    Action.Alike (Paired base base') Q (onOverlays m) (onOverlays m) := by
  rintro ⟨c, w⟩ ⟨c', w'⟩ ⟨hc, hw⟩
  obtain ⟨ends, overlays, worlds⟩ := h (c.overlays, w) (c'.overlays, w') ⟨hc.overlays_eq, hw⟩
  exact ⟨ends, ⟨hc.runner, overlays⟩, worlds⟩

theorem alike_ensureOpen : Action.Alike (Paired base base') Eq ensureOpen ensureOpen :=
  alike_onRunner Runner.alike_ensureOpen

theorem alike_flushIfRequired (st : Statement) :
    Action.Alike (Paired base base') Eq (flushIfRequired st) (flushIfRequired st) := by
  unfold flushIfRequired
  split
  · exact .pure rfl
  · split
    · exact alike_onOverlays (Overlays.alike_clear _)
    · exact .pure rfl

theorem alike_ensureCacheable (st : Statement) :
    Action.Alike (Paired base base') Eq (ensureCacheable st) (ensureCacheable st) := by
  unfold ensureCacheable
  split
  · exact .fail _
  · exact .pure rfl

theorem alike_cachedRows (host : Host) (ref : CacheRef) (key : CacheKey) :
    Action.Alike (Paired base base') Eq (cachedRows host ref key) (cachedRows host ref key) := by
  refine (alike_onOverlays (Overlays.alike_get host ref key)).bind fun found found' same => ?_
  subst same
  split
  · exact .pure rfl
  · exact .pure rfl
  · exact .fail _

theorem alike_queryWithKey (timeless : ctx.database.Timeless) (blind : BlindMappers ctx.find)
    {id : String} (known : ctx.find id = .ok st) (bounds : RowBounds) (key : CacheKey) (bound : BoundSql) :
    Action.Alike (Paired base base') Eq (queryWithKey ctx st bounds key bound)
      (queryWithKey ctx st bounds key bound) := by
  have run : Action.Alike (Paired base base') Eq
      (onRunner (Runner.queryWithKey ctx st bounds key bound))
      (onRunner (Runner.queryWithKey ctx st bounds key bound)) :=
    alike_onRunner
      (Runner.likewise_queryWithin timeless blind ctx.nesting id st known bounds key bound)
  refine alike_ensureOpen.bind fun _ _ _ => ?_
  split
  · exact run
  · rename_i ref _
    refine (alike_flushIfRequired st).bind fun _ _ _ => ?_
    split
    · exact run
    · refine (alike_ensureCacheable st).bind fun _ _ _ => ?_
      refine (alike_cachedRows ctx.host ref key).bind fun found found' same => ?_
      subst same
      split
      · exact .pure rfl
      · refine run.bind fun rows rows' same => ?_
        subst same
        exact (alike_onOverlays (Overlays.alike_put ref key _)).bind fun _ _ _ => .pure rfl

theorem alike_update (timeless : ctx.database.Timeless) (st : Statement) (parameters : List Value) :
    Action.Alike (Paired base base') Eq (update ctx st parameters) (update ctx st parameters) :=
  alike_ensureOpen.bind fun _ _ _ => (alike_flushIfRequired st).bind fun _ _ _ =>
    alike_onRunner (Runner.alike_update timeless st parameters)

theorem alike_commit (timeless : ctx.database.Timeless) (required : Bool) :
    Action.Alike (Paired base base') Eq (commit ctx required) (commit ctx required) :=
  (alike_onRunner (Runner.alike_commit timeless required)).bind fun _ _ _ =>
    alike_onOverlays (Overlays.alike_commit ctx.host)

theorem alike_rollback (timeless : ctx.database.Timeless) (required : Bool) :
    Action.Alike (Paired base base') Eq (rollback ctx required) (rollback ctx required) :=
  (alike_onRunner (Runner.alike_rollback timeless required)).both
    (alike_onOverlays (Overlays.alike_rollback ctx.host))

theorem alike_close (timeless : ctx.database.Timeless) (rollbackRequired : Bool) :
    Action.Alike (Paired base base') Eq (close ctx rollbackRequired) (close ctx rollbackRequired) := by
  have closes (required : Bool) : Action.Alike (Paired base base') Eq
      (onRunner (Runner.close ctx.database required))
      (onRunner (Runner.close ctx.database required)) :=
    alike_onRunner (Runner.alike_close timeless required)
  unfold close
  split
  · exact (closes true).both (alike_onOverlays (Overlays.alike_rollback ctx.host))
  · refine (alike_onOverlays (Overlays.alike_commit ctx.host)).attempt.bind
      fun _ _ published => ?_
    refine (closes false).attempt.bind fun _ _ closed => ?_
    exact .ofExcept (closed.bind fun _ _ _ => published)

end Coordinator

inductive Executor.Alike : Executor → Executor → Prop where
  | alone {r r' : Runner} (h : r.Alike r') : Alike (.alone r) (.alone r')
  | coordinated {c c' : Coordinator} (h : c.Alike c') : Alike (.coordinated c) (.coordinated c')

namespace Executor

abbrev Paired (base base' : List Event) : Executor × World → Executor × World → Prop :=
  Beside Alike (World.Paired base base')

variable {α : Type} {Q : α → α → Prop} {st : Statement}

theorem Alike.keyOf_eq {e e' : Executor} (h : e.Alike e') (st : Statement) (bounds : RowBounds)
    (bound : BoundSql) : e.keyOf st bounds bound = e'.keyOf st bounds bound := by
  cases h with
  | alone h => exact h.keyOf_eq st bounds bound
  | coordinated h => exact h.runner.keyOf_eq st bounds bound

theorem Alike.arranged {e e' : Executor} (h : e.Alike e') (walk : Overlays.Walk) :
    (e.arranged walk).Alike (e'.arranged walk) := by
  cases h with
  | alone h => exact .alone h
  | coordinated h => exact .coordinated ⟨h.runner, congrArg walk.order h.overlays_eq⟩

theorem alike_either {m : Runner.Run α} {n : Coordinator.Run α}
    (single : Action.Alike (Runner.Paired base base') Q m m)
    (several : Action.Alike (Coordinator.Paired base base') Q n n) :
    Action.Alike (Paired base base') Q (either m n) (either m n) := by
  rintro ⟨e, w⟩ ⟨e', w'⟩ ⟨he, hw⟩
  dsimp only at he
  cases he with
  | @alone r r' h =>
    obtain ⟨ends, runners, worlds⟩ := single (r, w) (r', w') ⟨h, hw⟩
    exact ⟨ends, .alone runners, worlds⟩
  | @coordinated c c' h =>
    obtain ⟨ends, coordinators, worlds⟩ := several (c, w) (c', w') ⟨h, hw⟩
    exact ⟨ends, .coordinated coordinators, worlds⟩

theorem alike_query (timeless : ctx.database.Timeless) (blind : BlindMappers ctx.find) {id : String}
    (known : ctx.find id = .ok st) (parameters : List Value) (bounds : RowBounds) :
    Action.Alike (Paired base base') Eq (query ctx st parameters bounds)
      (query ctx st parameters bounds) := by
  refine Alike.get.bind fun s s' h => ?_
  rw [h.1.keyOf_eq]
  exact alike_either
    (Runner.likewise_queryWithin timeless blind ctx.nesting id st known bounds _ _)
    (Coordinator.alike_queryWithKey timeless blind known bounds _ _)

end Executor

namespace Session

structure Alike (x x' : Session) : Prop where
  executor : x.executor.Alike x'.executor
  dirty_eq : x.dirty = x'.dirty

theorem Alike.arranged {x x' : Session} (h : x.Alike x') (walk : Overlays.Walk) :
    (x.arranged walk).Alike (x'.arranged walk) :=
  ⟨h.executor.arranged walk, h.dirty_eq⟩

theorem Alike.refl (x : Session) : x.Alike x := by
  refine ⟨?_, rfl⟩
  cases x.executor with
  | alone r => exact .alone (.intro r rfl)
  | coordinated c => exact .coordinated ⟨.intro c.runner rfl, rfl⟩

abbrev Paired (base base' : List Event) : Session × World → Session × World → Prop :=
  Beside Alike (World.Paired base base')

variable {α : Type} {Q : α → α → Prop}

theorem alike_onExecutor {m : Executor.Run α}
    (h : Action.Alike (Executor.Paired base base') Q m m) :
    Action.Alike (Paired base base') Q (onExecutor m) (onExecutor m) := by
  rintro ⟨x, w⟩ ⟨x', w'⟩ ⟨hx, hw⟩
  obtain ⟨ends, executors, worlds⟩ := h (x.executor, w) (x'.executor, w') ⟨hx.executor, hw⟩
  exact ⟨ends, ⟨executors, hx.dirty_eq⟩, worlds⟩

theorem alike_markClean : Action.Alike (Paired base base') Eq markClean markClean :=
  Alike.onFirst (.modify fun _ _ h => ⟨h.executor, rfl⟩)

theorem alike_found {id : String} {m : Statement → Run α}
    (h : ∀ st, ctx.find id = .ok st → Action.Alike (Paired base base') Q (m st) (m st)) :
    Action.Alike (Paired base base') Q (Action.ofExcept (ctx.find id) >>= m)
      (Action.ofExcept (ctx.find id) >>= m) := by
  cases found : ctx.find id with
  | error e => exact .fail e
  | ok st => exact h st found

theorem alike_answer (timeless : ctx.database.Timeless) (blind : BlindMappers ctx.find)
    (call : Call) :
    Action.Alike (Paired base base') Eq (answer ctx call) (answer ctx call) := by
  have nothing {m : Run Unit} (h : Action.Alike (Paired base base') Eq m m) :
      Action.Alike (Paired base base') Eq ((fun _ => Returned.nothing) <$> m)
        ((fun _ => Returned.nothing) <$> m) := h.map fun _ _ _ => rfl
  cases call with
  | select id parameters bounds =>
    refine Alike.map (alike_found fun st known => alike_onExecutor ?_)
      fun _ _ same => congrArg _ same
    exact Executor.alike_query timeless blind known parameters bounds
  | update id parameters =>
    refine Alike.map (alike_found fun st known => ?_) fun _ _ same => congrArg _ same
    refine (Alike.onFirst (.modify fun _ _ h => ⟨h.executor, rfl⟩)).bind fun _ _ _ => ?_
    exact alike_onExecutor (Executor.alike_either (Runner.alike_update timeless st parameters)
      (Coordinator.alike_update timeless st parameters))
  | commit force =>
    refine nothing (Alike.get.bind fun s s' h => ?_)
    rw [h.1.dirty_eq]
    have run : Action.Alike (Paired base base') Eq
        (onExecutor (Executor.commit ctx (s'.1.dirty || force))) _ :=
      alike_onExecutor (Executor.alike_either (Runner.alike_commit timeless _)
        (Coordinator.alike_commit timeless _))
    exact run.bind fun _ _ _ => alike_markClean
  | rollback force =>
    refine nothing (Alike.get.bind fun s s' h => ?_)
    rw [h.1.dirty_eq]
    have run : Action.Alike (Paired base base') Eq
        (onExecutor (Executor.rollback ctx (s'.1.dirty || force))) _ :=
      alike_onExecutor (Executor.alike_either (Runner.alike_rollback timeless _)
        (Coordinator.alike_rollback timeless _))
    exact run.bind fun _ _ _ => alike_markClean
  | clearCache =>
    exact nothing (alike_onExecutor (Executor.alike_either Runner.alike_clearResults
      (Coordinator.alike_onRunner Runner.alike_clearResults)))
  | close =>
    refine nothing (Alike.get.bind fun s s' h => ?_)
    rw [h.1.dirty_eq]
    have run : Action.Alike (Paired base base') Eq
        (onExecutor (Executor.close ctx s'.1.dirty)) _ :=
      alike_onExecutor (Executor.alike_either (Runner.alike_close timeless _)
        (Coordinator.alike_close timeless _))
    exact run.attempt.bind fun _ _ ends => alike_markClean.bind fun _ _ _ => .ofExcept ends

end Session

namespace Application

variable {a : Application} {session i : Nat} {s s' : Scene} {host : Host} {call : Call}

/-- The same sessions but one, over caches that are alike. -/
structure Apart (a : Application) (session : Nat) (s s' : Scene) : Prop where
  keyed : a.Keyed s
  caches : Cache.Paired s.world.caches s'.world.caches
  count : s.sessions.length = s'.sessions.length
  others : ∀ i, i ≠ session → Option.Rel Session.Alike s.sessions[i]? s'.sessions[i]?

theorem apart_start {w : World}
    (passive : ∀ serial c, w.caches.get? serial = some c → c.chain.Passive) :
    a.Apart session ⟨[], w⟩ ⟨[], w⟩ :=
  ⟨fun _ _ there => (by cases there), .refl passive, rfl, fun _ _ => .none⟩

theorem apart_opened (h : a.Apart session s s') :
    a.Apart session (a.act s .opened) (a.act s' .opened) := by
  refine ⟨keyed_act h.keyed .opened, h.caches, ?_, fun i other => ?_⟩
  · simp only [act, List.length_append, h.count]
  · simp only [act, List.getElem?_append, h.count]
    split
    · exact h.others i other
    · cases [Session.opened a.catalog][i - s'.sessions.length]? with
      | none => exact .none
      | some x => exact .some (.refl x)

/-- The call of another session goes the same way in both runs. -/
theorem apart_called (h : a.Apart session s s') (other : i ≠ session)
    (timeless : (a.connect i).Timeless) (blind : BlindMappers a.catalog.statement) (host : Host)
    (call : Call) :
    a.exchange s (.called i host call) = a.exchange s' (.called i host call) ∧
      a.Apart session (a.act s (.called i host call)) (a.act s' (.called i host call)) := by
  have pair := h.others i other
  generalize found : s.sessions[i]? = x, found' : s'.sessions[i]? = x' at pair
  cases pair with
  | none =>
    simp only [exchange, act, found, found', Option.map_none, true_and]
    exact h
  | @some x x' alike =>
    have start : Session.Paired s.world.log s'.world.log (x, s.world) (x', s'.world) :=
      ⟨alike, h.caches, [], (List.append_nil _).symm, (List.append_nil _).symm⟩
    have answers : Action.Alike (Session.Paired s.world.log s'.world.log) Eq
        (Session.answer (a.context i host) call) _ := Session.alike_answer timeless blind call
    obtain ⟨ends, sessions, worlds⟩ := answers _ _ start
    constructor
    · obtain ⟨events, grown, grown'⟩ := worlds.logs
      simp only [exchange, found, found', Option.map_some, ends.eq, grown, grown',
        List.drop_left]
    · rw [Session.state_answer, Session.state_answer] at sessions worlds
      have keyed := keyed_act h.keyed (.called i host call)
      rw [act_called found] at keyed ⊢
      rw [act_called found']
      refine ⟨keyed, worlds.caches, ?_, fun j apart => ?_⟩
      · rw [List.length_set, List.length_set, h.count]
      · rw [List.getElem?_set, List.getElem?_set, h.count]
        split
        · split
          · exact .some sessions
          · exact .none
        · exact h.others j apart

theorem caches_within {x : Session} {w w' : World}
    (own : a.Retaining (a.origin session []) [] (x.executor, w))
    (same : Cache.Paired w.caches w'.caches) (host : Host) (within : ¬call.Ends) :
    Cache.Paired (Session.perform (a.context session host) call (x, w)).state.2.caches w'.caches := by
  have look (ref : CacheRef) (k : CacheKey) :
      Keeps (fun s : Overlays × World => Cache.Paired s.2.caches w'.caches)
        (Overlays.get (World.find? host) ref k) := fun s paired =>
    (Overlays.unseen_get (J := fun _ _ => True) host ref k w' s ⟨paired, trivial⟩).caches
  exact (keeps_retaining_perform_of (J := fun s => Cache.Paired s.2.caches w'.caches)
    (fun same held => same ▸ held) admits_origin host call (fun _ _ h => h) look (fun _ _ _ _ h => h)
    (fun publishes => absurd publishes.ends within) (fun ends => absurd ends within) (x, w)
    ⟨own, same⟩).2

/-- A call inside the unit of work shows nowhere. -/
theorem apart_within (h : a.Apart session s s') (host : Host) (within : ¬call.Ends) :
    a.Apart session (a.act s (.called session host call)) s' := by
  have keyed := keyed_act h.keyed (.called session host call)
  cases found : s.sessions[session]? with
  | none => simpa only [act, found] using h
  | some x =>
    rw [act_called found] at keyed ⊢
    refine ⟨keyed, caches_within (h.keyed session x found) h.caches host within, ?_,
      fun i other => ?_⟩
    · rw [List.length_set, h.count]
    · rw [List.getElem?_set_ne other.symm]
      exact h.others i other

theorem Retaining.arranged {i : Nat} {V : Account a i} {floor : List Event} {e : Executor}
    {w : World} (h : a.Retaining V floor (e, w)) (walk : Overlays.Walk) :
    a.Retaining V floor (e.arranged walk, w) := by
  cases e with
  | alone r => exact h
  | coordinated c => exact ⟨h.environment, h.enabled, h.grown, h.kept⟩

theorem keyed_arranged (h : a.Keyed s) (i : Nat) (walk : Overlays.Walk) :
    a.Keyed (s.arranged i walk) := by
  intro j x there
  simp only [Scene.arranged, List.getElem?_modify] at there
  obtain ⟨y, found, rfl⟩ := Option.map_eq_some_iff.mp there
  split
  · exact (h j y found).arranged walk
  · exact h j y found

theorem apart_own (h : a.Apart session s s') (walk : Overlays.Walk) :
    a.Apart session (s.arranged session walk) s' := by
  refine ⟨keyed_arranged h.keyed session walk, h.caches, ?_, fun j other => ?_⟩
  · simp only [Scene.arranged, List.length_modify, h.count]
  · simp only [Scene.arranged, List.getElem?_modify_ne _ _ other.symm]
    exact h.others j other

theorem apart_arranged (h : a.Apart session s s') (i : Nat) (walk : Overlays.Walk) :
    a.Apart session (s.arranged i walk) (s'.arranged i walk) := by
  refine ⟨keyed_arranged h.keyed i walk, h.caches, ?_, fun j other => ?_⟩
  · simp only [Scene.arranged, List.length_modify, h.count]
  · have pair := h.others j other
    simp only [Scene.arranged, List.getElem?_modify]
    generalize s.sessions[j]? = x, s'.sessions[j]? = x' at pair ⊢
    cases pair with
    | none => exact .none
    | some alike =>
      refine .some ?_
      split
      · exact alike.arranged walk
      · exact alike

/-- What the others notice of the moves that are left, from scenes that they cannot tell apart. -/
theorem transcript_of_apart (h : a.Apart session s s')
    (timeless : ∀ i, i ≠ session → (a.connect i).Timeless)
    (blind : BlindMappers a.catalog.statement) {moves : List OrderedMove}
    (within : ∀ host call, .called session host call ∈ moves.map (·.move) → ¬call.Ends) :
    (a.transcript s moves).filter (·.session != session) =
      a.transcript s' (moves.filter fun m => !m.move.isOf session) := by
  induction moves generalizing s s' with
  | nil => rfl
  | cons m moves ih =>
    have rest : ∀ host call, .called session host call ∈ moves.map (·.move) → ¬call.Ends :=
      fun host call later => within host call (List.mem_cons_of_mem _ later)
    obtain ⟨walk, move⟩ := m
    rw [transcript, List.filter_append]
    cases move with
    | opened => exact ih (apart_opened h) rest
    | called i host call =>
      by_cases own : i = session
      · subst own
        have hidden : (a.exchange (s.arranged i walk) (.called i host call)).toList.filter
            (·.session != i) = [] := by
          refine List.filter_eq_nil_iff.mpr fun e there => ?_
          rw [session_of_exchange (Option.mem_toList.mp there)]
          simp
        rw [List.filter_cons_of_neg (by simp [Move.isOf])]
        simp only [OrderedMove.arrange, hidden, List.nil_append]
        exact ih (apart_within (apart_own h walk) host (within host call List.mem_cons_self)) rest
      · obtain ⟨same, stays⟩ := apart_called (apart_arranged h i walk) own (timeless i own) blind
          host call
        have shown : ∀ e ∈ (a.exchange (s.arranged i walk) (.called i host call)).toList,
            (e.session != session) = true := by
          intro e there
          rw [session_of_exchange (Option.mem_toList.mp there)]
          simpa using own
        rw [List.filter_cons_of_pos (by simpa [Move.isOf] using own), transcript]
        simp only [OrderedMove.arrange]
        rw [List.filter_eq_self.mpr shown, same, ih stays rest]

/-- While the unit of work of a session lasts, the other sessions get the results, and send the
queries, that they would get and send if none of its operations were done. The caches are passive,
and databases answer the others by the statement alone. The orders in which the others walk their
overlays are any, and the same in both runs. So what may come of the one run for them, in one order
or another, may come of the other. -/
theorem open_work_unseen {w : World}
    (passive : ∀ serial c, w.caches.get? serial = some c → c.chain.Passive)
    (timeless : ∀ i, i ≠ session → (a.connect i).Timeless)
    (blind : BlindMappers a.catalog.statement) {moves : List Move}
    (within : ∀ host call, .called session host call ∈ moves → ¬call.Ends) :
    (∀ ordered : List OrderedMove, ordered.map (·.move) = moves →
      (a.transcript ⟨[], w⟩ ordered).filter (·.session != session) =
        a.transcript ⟨[], w⟩ (ordered.filter fun m => !m.move.isOf session)) ∧
      ∀ seen, (∃ all, a.Possible ⟨[], w⟩ moves all ∧ all.filter (·.session != session) = seen) ↔
        a.Possible ⟨[], w⟩ (moves.filter fun m => !m.isOf session) seen := by
  have same (ordered : List OrderedMove) (of : ordered.map (·.move) = moves) :
      (a.transcript ⟨[], w⟩ ordered).filter (·.session != session) =
        a.transcript ⟨[], w⟩ (ordered.filter fun m => !m.move.isOf session) :=
    transcript_of_apart (apart_start passive) timeless blind (of ▸ within)
  refine ⟨same, fun seen => ⟨?_, ?_⟩⟩
  · rintro ⟨_, ⟨ordered, of, rfl⟩, rfl⟩
    refine ⟨_, ?_, (same ordered of).symm⟩
    rw [← of, List.filter_map]
    rfl
  · rintro ⟨ordered, left, rfl⟩
    obtain ⟨all, of, rfl⟩ := OrderedMove.exists_of_filter left
    exact ⟨_, ⟨all, of, rfl⟩, same all of⟩

theorem timeless_counting : counting.Timeless where
  query _ _ _ _ := rfl
  execute _ _ _ _ := rfl
  boundary _ _ asked := by cases asked

def layeredNames : Cache := (((Cache.base "names").fifo 1).serialized.counted).synchronized

def listNames : Statement :=
  { Statement.ofSql "list" .select "list" with
    cache := some ⟨0, "names"⟩, mapper := some (RowMapper.nested "find" 0) }

def trio (connect : Nat → Database) : Application :=
  { pair connect with
    catalog := { (pair connect).catalog with
      statements := (pair connect).catalog.statements.insert "list" listNames }
    nesting := 1 }

theorem blind_trio (connect : Nat → Database) : BlindMappers (trio connect).catalog.statement := by
  intro id st mapper known mapped
  by_cases listed : "list" = id
  · simp only [trio, Catalog.statement, Table.get?_insert, if_pos listed] at known
    cases known
    cases mapped
    exact RowMapper.blind_nested "find" 0
  · simp only [trio, Catalog.statement, Table.get?_insert, if_neg listed] at known
    cases (plain_pair connect id st known).symm.trans mapped

/-- Both sessions do the same until the second one commits, and the nested select of each waits for
a place. The first one goes on with a write, and the answers that it gets change with that. The
cache has room for one of the two results that the second one commits, and the order decides which
of them is left there for its last select. -/
theorem open_work_unseen_over_layers :
    let a := trio fun i => if i = 0 then tallying else counting
    let w := World.single layeredNames
    let find : Call := .select "find" [.integer 0] .default
    let list : Call := .select "list" [] .default
    let moves : List Move := [.opened, .opened, .called 0 .calm find, .called 0 .calm list,
      .called 1 .calm find, .called 1 .calm list, .called 0 .calm (.update "rename" []),
      .called 1 .calm (.commit false), .called 0 .calm .clearCache, .called 0 .calm find,
      .called 1 .calm find]
    let others : List Move := [.opened, .opened, .called 1 .calm find, .called 1 .calm list,
      .called 1 .calm (.commit false), .called 1 .calm find]
    let seen (walk : Overlays.Walk) (moves : List Move) :=
      a.transcript ⟨[], w⟩ (moves.map fun m => ⟨walk, m⟩)
    (seen .backwards moves).filter (·.session != 0) = seen .backwards others ∧
      (seen .asKept others).map (·.sent.length) = [1, 1, 0, 1] ∧
      (seen .backwards others).map (·.sent.length) = [1, 1, 0, 0] := by
  intro a w find list moves others seen
  have passive : ∀ serial c, w.caches.get? serial = some c → c.chain.Passive := by
    intro serial c found
    simp only [w, World.single, Table.get?_insert, Table.get?_empty] at found
    split at found
    · cases found
      trivial
    · cases found
  have timeless : ∀ i, i ≠ 0 → (a.connect i).Timeless := by
    intro i other
    simp only [a, trio, pair, if_neg other]
    exact timeless_counting
  have within : ∀ host call, .called 0 host call ∈ moves → ¬call.Ends := by
    intro host call own
    have asked : call = find ∨ call = list ∨ call = .update "rename" [] ∨ call = .clearCache := by
      simp [moves] at own
      tauto
    rcases asked with rfl | rfl | rfl | rfl <;> exact not_false
  obtain ⟨same, -⟩ := open_work_unseen passive timeless (blind_trio _) within
  exact ⟨same (moves.map fun m => ⟨.backwards, m⟩) rfl, by decide +kernel, by decide +kernel⟩

end Application
end StatementCache
