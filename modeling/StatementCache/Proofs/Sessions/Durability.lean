import StatementCache.Proofs.Sessions.Effects
import StatementCache.Proofs.Sessions.Scene

/-! Nothing is published before it is durable. What is shared changes with a commit that the
database has answered and with the end of a unit of work that has not written. All other steps take
back placeholders at most. -/
namespace StatementCache

open StatementCache.Action

def Call.settles : Call → Bool
  | .commit _ | .rollback _ => true
  | .select _ _ _ | .update _ _ | .clearCache | .close => false

def World.wrote (before after : World) : Bool :=
  (after.log.drop before.log.length).any Event.isWrite

theorem World.wrote_of_quiet {before after : World} (h : Quiet before.log after.log) :
    before.wrote after = false := by
  obtain ⟨rest, same, quiet⟩ := h
  unfold World.wrote
  rw [same, List.drop_left, List.any_eq_false]
  intro e mem
  rw [quiet e mem]
  exact Bool.false_ne_true

theorem World.wrote_of_execute {before after : World} {sql : String} {parameters : List Value}
    (h : after.log = before.log ++ [.execute sql parameters]) : before.wrote after = true := by
  unfold World.wrote
  rw [h, List.drop_left]
  rfl

namespace Application

def settling (a : Application) (i : Nat) (unsettled : Bool) (s : Scene) : Move → Bool
  | .opened => unsettled
  | .called j host call =>
    if j = i then
      match s.sessions[i]? with
      | none => unsettled
      | some x =>
        let o := Session.perform (a.context i host) call (x, s.world)
        !(call.settles && o.result.isOk) && (unsettled || s.world.wrote o.state.2)
    else unsettled

/-- Whether a session has written since its last commit or rollback that succeeded. -/
def unsettled (a : Application) (i : Nat) : Scene → Bool → List Move → Bool
  | _, u, [] => u
  | s, u, m :: moves => a.unsettled i (a.act s m) (a.settling i u s m) moves

/-- The steps that may change what is shared: a commit that the database has answered or is not
asked for, and a close with nothing unsettled. -/
def Durable (a : Application) (i : Nat) (unsettled : Bool) (w : World) : Call → Prop
  | .commit force =>
    (unsettled || force) = true → ((a.connect i).runBoundary .commit w).result = .ok ()
  | .close => unsettled = false
  | .select _ _ _ | .update _ _ | .rollback _ | .clearCache => False

variable {a : Application} {w : World} {s : Scene} {i : Nat} {u : Bool}

theorem unsettled_concat (moves : List Move) (m : Move) :
    a.unsettled i s u (moves ++ [m]) =
      a.settling i (a.unsettled i s u moves) (a.resume s moves) m := by
  induction moves generalizing s u with
  | nil => rfl
  | cons m' moves ih =>
    rw [List.cons_append, unsettled, ih]
    rfl

def Marked (u : Bool) (x : Session) : Prop :=
  x.isClosed = false ∧ x.dirty = u ∨ x.isClosed = true ∧ x.overlays = .empty

def Tracked (i : Nat) (u : Bool) (s : Scene) : Prop :=
  match s.sessions[i]? with
  | none => u = false
  | some x => Marked u x

section

variable {host : Host} {x : Session} {B : Nat → CacheKey → Entry → Prop}

theorem perform_select (plain : a.Plain) (mapped : w.Mapped) (isOpen : x.isClosed = false)
    (i : Nat) (host : Host) (id : String) (parameters : List Value) (bounds : RowBounds) :
    let o := Session.perform (a.context i host) (.select id parameters bounds) (x, w)
    o.state.1.dirty = x.dirty ∧ Executor.Reading w (o.state.1.executor, o.state.2) := by
  intro o
  cases found : (a.context i host).find id with
  | error f =>
    have same : o.state = (x, w) := Session.state_select_of_unknown found parameters bounds x w
    rw [same]
    exact ⟨rfl, .refl isOpen⟩
  | ok st =>
    have same : o.state = _ := Session.state_select_of_known found parameters bounds x w
    have read := Executor.keeps_reading_query (a.context i host) mapped (plain id st found)
      parameters bounds (x.executor, w) (.refl isOpen)
    rw [same]
    exact ⟨rfl, read⟩

theorem perform_update (a : Application) (w : World) (isOpen : x.isClosed = false) (i : Nat)
    (host : Host) (id : String) (parameters : List Value) :
    let o := Session.perform (a.context i host) (.update id parameters) (x, w)
    o.state.1.isClosed = false ∧ o.state.1.dirty = (x.dirty || w.wrote o.state.2) ∧
      o.state.2.contents = w.contents := by
  intro o
  cases found : (a.context i host).find id with
  | error f =>
    have same : o.state = (x, w) := Session.state_update_of_unknown found parameters x w
    rw [same, World.wrote_of_quiet (Quiet.refl w.log), Bool.or_false]
    exact ⟨isOpen, rfl, rfl⟩
  | ok st =>
    have same : o.state = _ := Session.state_update_of_known found parameters x w
    obtain ⟨stays, contents, log⟩ := Executor.update_open (a.context i host) w st parameters isOpen
    rw [same, World.wrote_of_execute log, Bool.or_true]
    exact ⟨stays, rfl, contents⟩

theorem perform_spent (a : Application) (w : World) (closed : x.isClosed = true)
    (none : x.overlays = .empty) (i : Nat) (host : Host) (call : Call) :
    Executor.Spent w ((Session.perform (a.context i host) call (x, w)).state.1.executor,
      (Session.perform (a.context i host) call (x, w)).state.2) :=
  Session.keeps_spent_perform (a.context i host) call (x, w) ⟨⟨closed, none⟩, rfl⟩

theorem marked_perform (plain : a.Plain) (mapped : w.Mapped) (filed : x.overlays.Holds B)
    (h : Marked u x) (call : Call) :
    let o := Session.perform (a.context i host) call (x, w)
    Marked (!(call.settles && o.result.isOk) && (u || w.wrote o.state.2)) o.state.1 := by
  intro o
  rcases h with ⟨isOpen, rfl⟩ | ⟨closed, none⟩
  · cases call with
    | select id parameters bounds =>
      obtain ⟨dirty, read⟩ := perform_select plain mapped isOpen i host id parameters bounds
      refine .inl ⟨read.isOpen, dirty.trans ?_⟩
      rw [World.wrote_of_quiet read.quiet]
      simp [Call.settles]
    | update id parameters =>
      obtain ⟨stays, dirty, -⟩ := perform_update a w isOpen i host id parameters
      refine .inl ⟨stays, dirty.trans ?_⟩
      simp [o, Call.settles]
    | commit force =>
      have same : o = _ := Session.commit_eq (a.context i host) force x w
      obtain ⟨stays, quiet⟩ := Executor.commit_open (a.context i host) isOpen filed mapped
        (x.dirty || force)
      refine .inl ?_
      rw [same]
      dsimp only
      rw [World.wrote_of_quiet quiet]
      exact ⟨stays, by simp [Call.settles, Bool.and_comm]⟩
    | rollback force =>
      have same : o = _ := Session.rollback_eq (a.context i host) force x w
      obtain ⟨stays, quiet, -⟩ := Executor.rollback_open (a.context i host) isOpen filed mapped
        (x.dirty || force)
      refine .inl ?_
      rw [same]
      dsimp only
      rw [World.wrote_of_quiet quiet]
      exact ⟨stays, by simp [Call.settles, Bool.and_comm]⟩
    | clearCache =>
      have read := Executor.keeps_reading_clearResults (x.executor, w) (.refl isOpen)
      refine .inl ⟨read.isOpen, ?_⟩
      have quiet : Quiet w.log o.state.2.log := read.quiet
      rw [World.wrote_of_quiet quiet]
      simp [Call.settles]
      rfl
    | close =>
      obtain ⟨closed, none, -⟩ := Executor.close_open (a.context i host) isOpen filed mapped
        x.dirty
      exact .inr ⟨closed, none⟩
  · have done := perform_spent a w closed none i host call
    exact .inr ⟨done.isClosed, done.overlays_eq⟩

/-- Without the right to it, a step changes nothing that is shared but what it takes back. -/
theorem released_perform (plain : a.Plain) (mapped : w.Mapped) (filed : x.overlays.Holds B)
    (h : Marked u x) {call : Call} (held : x.isClosed = true ∨ ¬a.Durable i u w call) :
    World.Released x.overlays w (Session.perform (a.context i host) call (x, w)).state.2 := by
  rcases h with ⟨isOpen, dirty⟩ | ⟨closed, none⟩
  · have held : ¬a.Durable i u w call := by
      rcases held with closed | held
      · rw [isOpen] at closed
        cases closed
      · exact held
    cases call with
    | select id parameters bounds =>
      have read := (perform_select plain mapped isOpen i host id parameters bounds).2
      exact .of_eq read.contents_eq
    | update id parameters => exact .of_eq (perform_update a w isOpen i host id parameters).2.2
    | commit force =>
      simp only [Durable, Classical.not_imp] at held
      obtain ⟨required, refused⟩ := held
      cases answer : ((a.connect i).runBoundary .commit w).result with
      | ok _ => exact absurd answer refused
      | error f =>
        have left := Executor.commit_refused (a.context i host) isOpen answer
        rw [Session.perform, Session.commit_eq, dirty, required]
        exact .of_eq left.2.2
    | rollback force =>
      have undone := Executor.rollback_open (a.context i host) isOpen filed mapped
        (x.dirty || force)
      rw [Session.perform, Session.rollback_eq]
      exact undone.2.2
    | clearCache =>
      have read := Executor.keeps_reading_clearResults (x.executor, w) (.refl isOpen)
      exact .of_eq read.contents_eq
    | close =>
      have written : u = true := Bool.not_eq_false u ▸ held
      have ended := Executor.close_open (a.context i host) isOpen filed mapped x.dirty
      exact ended.2.2 (dirty.trans written)
  · have same : (Session.perform (a.context i host) call (x, w)).state.2 = w :=
      (perform_spent a w closed none i host call).world_eq
    rw [same]
    exact .of_eq rfl

theorem overlays_of_refused (h : Marked u x) {force : Bool} (required : (u || force) = true)
    {f : Fault} (refused : ((a.connect i).runBoundary .commit w).result = .error f) :
    (Session.perform (a.context i host) (.commit force) (x, w)).state.1.overlays = x.overlays := by
  rcases h with ⟨isOpen, dirty⟩ | ⟨closed, none⟩
  · have left := Executor.commit_refused (a.context i host) isOpen refused
    rw [Session.perform, Session.commit_eq, dirty, required]
    exact left.2.1
  · have done := perform_spent a w closed none i host (.commit force)
    exact done.overlays_eq.trans none.symm

end

theorem marked_opened : Marked false (Session.opened a.catalog) := by
  refine .inl ⟨?_, rfl⟩
  unfold Session.isClosed Session.opened Catalog.newExecutor Executor.ofSettings
  dsimp only
  split
  · rfl
  · rfl

theorem tracked_opened (h : Tracked i u s) : Tracked i u (a.act s .opened) := by
  unfold Tracked at h ⊢
  simp only [act, List.getElem?_append]
  by_cases old : i < s.sessions.length
  · rw [if_pos old]
    exact h
  · rw [List.getElem?_eq_none (Nat.not_lt.mp old)] at h
    rw [if_neg old]
    cases new : [Session.opened a.catalog][i - s.sessions.length]? with
    | none => exact h
    | some x =>
      have h : u = false := h
      have same : x = Session.opened a.catalog := by
        obtain ⟨range, eq⟩ := List.getElem?_eq_some_iff.mp new
        rw [← eq, List.getElem_singleton]
      rw [h, same]
      exact marked_opened

theorem tracked_act (plain : a.Plain) (mapped : s.world.Mapped)
    (filed : ∀ x, s.sessions[i]? = some x → x.overlays.Holds fun _ _ _ => True)
    (h : Tracked i u s) (m : Move) : Tracked i (a.settling i u s m) (a.act s m) := by
  cases m with
  | opened => exact tracked_opened h
  | called j host call =>
    unfold Tracked at h ⊢
    by_cases same : j = i
    · subst same
      cases there : s.sessions[j]? with
      | none =>
        rw [there] at h
        simp only [act, settling, there, if_true]
        exact h
      | some x =>
        rw [there] at h
        have range := (List.getElem?_eq_some_iff.mp there).1
        rw [act_called there]
        dsimp only
        rw [List.getElem?_set_self range]
        simp only [settling, there, if_true]
        exact marked_perform plain mapped (filed x there) h call
    · rw [sessions_act_of_ne same, settling, if_neg same]
      exact h

theorem inCustody_mapped (mapped : w.Mapped) (moves : List Move) :
    a.InCustody (fun _ => []) w (fun _ => .free) .free (a.run w moves) :=
  inCustody_run (fun _ _ _ _ _ _ _ _ => trivial) Ledger.free_grows (fun _ _ _ _ _ _ => trivial)
    (fun _ => Ledger.publishes_free _) (fun serial c found =>
      Ledger.holds_free (mapped.builtIn serial c found)) moves

theorem tracked_run (plain : a.Plain) (mapped : w.Mapped) (i : Nat) (moves : List Move) :
    Tracked i (a.unsettled i ⟨[], w⟩ false moves) (a.run w moves) := by
  induction moves using List.reverseRecOn with
  | nil => exact rfl
  | append_singleton moves m ih =>
    have held := inCustody_mapped (a := a) mapped moves
    rw [unsettled_concat, run, resume_concat]
    refine tracked_act plain (World.mapped_of_shape held.onward.shaped mapped) ?_ ih m
    exact fun x there => (held.sessions i x there).buffered

/-- In every run, whatever the databases answer: a step of a session that is not durable changes
no entry that is shared, but for taking back keys that the session had missed; and a commit that
the database refuses leaves everything buffered. -/
theorem shared_changes_when_durable (start : w.Mapped) (plain : a.Plain) (moves : List Move)
    {x : Session} (there : (a.run w moves).sessions[i]? = some x) (host : Host) (call : Call) :
    let s := a.run w moves
    let u := a.unsettled i ⟨[], w⟩ false moves
    let o := Session.perform (a.context i host) call (x, s.world)
    (x.isClosed = true ∨ ¬a.Durable i u s.world call →
        World.Released x.overlays s.world o.state.2) ∧
      ∀ force f, call = .commit force → (u || force) = true →
        ((a.connect i).runBoundary .commit s.world).result = .error f →
        o.state.1.overlays = x.overlays := by
  intro s u o
  have held := inCustody_mapped (a := a) start moves
  have mapped : s.world.Mapped := World.mapped_of_shape held.onward.shaped start
  have tracked := tracked_run plain start i moves
  unfold Tracked at tracked
  rw [there] at tracked
  refine ⟨released_perform plain mapped (held.sessions i x there).buffered tracked, ?_⟩
  intro force f eq required refused
  subst eq
  exact overlays_of_refused tracked required refused

def refusing : Database where
  query _ _ _ := .ok []
  execute _ _ _ := .ok 1
  boundary
    | .commit => some fun _ => .error (.refused .commit)
    | .rollback | .close => none

/-- A session reads, writes and fails to commit: all it has buffered stays where it is. -/
theorem shared_changes_when_durable_of_refusing :
    let a := pair fun _ => refusing
    let moves := [Move.opened, .called 0 .calm (.select "find" [.integer 7] .default),
      .called 0 .calm (.update "rename" [])]
    let s := a.run (World.single (Cache.base "names")) moves
    ∃ x, s.sessions[0]? = some x ∧
      let o := Session.perform (a.context 0 .calm) (.commit false) (x, s.world)
      World.Released x.overlays s.world o.state.2 ∧ o.state.1.overlays = x.overlays := by
  refine ⟨_, rfl, ?_⟩
  have both := shared_changes_when_durable (World.mapped_base "names")
    (plain_pair fun _ => refusing) [.opened, .called 0 .calm (.select "find" [.integer 7] .default),
      .called 0 .calm (.update "rename" [])] (i := 0) rfl .calm (.commit false)
  refine ⟨both.1 (.inr fun durable => ?_), both.2 false (.refused .commit) rfl rfl rfl⟩
  cases durable rfl

end Application
end StatementCache
