import StatementCache.Proofs.Overlay.Guarded
import StatementCache.Proofs.Sessions.Origin
import StatementCache.Proofs.Sessions.Steps

/-! Results in custody. What a session has run has an origin, what it buffers has one property and
what is shared another, both of which may speak of everything that was reported. Every operation
of the session keeps custody, as long as it publishes only what may be shared. -/
namespace StatementCache

open StatementCache.Action

/-- A property of entries of the shared caches, given the report. -/
abbrev Ledger := List Event → Nat → CacheKey → Entry → Prop

namespace Ledger

def Grows (P : Ledger) : Prop :=
  ∀ log log' serial (c : Cache), log <+: log' → c.Holds (P log serial) → c.Holds (P log' serial)

structure Publishes (B P : Ledger) : Prop where
  buffered : ∀ log serial k e, B log serial k e → P log serial k e
  missing : ∀ log serial k, P log serial k .placeholder

def Persists (B : Ledger) : Prop :=
  ∀ log log' serial k e, log <+: log' → B log serial k e → B log' serial k e

def free : Ledger := fun _ _ _ _ => True

def Receives (a : Application) (session : Nat) (since : List Event) (B : Ledger) : Prop :=
  ∀ log serial key rows, a.Obtained session since log key rows → B log serial key (.rows rows)

theorem holds_free {log : List Event} {serial : Nat} {c : Cache} (builtIn : c.chain.BuiltIn) :
    c.Holds (free log serial) :=
  ⟨builtIn, fun _ _ _ _ _ _ _ => trivial, fun _ _ _ => trivial⟩

theorem free_grows : free.Grows := fun _ _ _ _ _ h => holds_free h.builtIn

theorem publishes_free (B : Ledger) : B.Publishes free :=
  ⟨fun _ _ _ _ _ => trivial, fun _ _ _ => trivial⟩

end Ledger

namespace Application

/-- One session and the caches it shares, some time after `floor`. -/
structure Custody (a : Application) (session : Nat) (since : List Event) (floor : World)
    (B P : Ledger) (s : Executor × World) : Prop where
  environment : s.1.runner.environmentId = a.catalog.settings.environmentId
  enabled : s.1.coordinates = a.catalog.settings.cacheEnabled
  after : since <+: s.2.log
  onward : floor.Onward s.2
  kept : ∀ key rows, s.1.runner.results.rows? key = some rows →
    a.Obtained session since s.2.log key rows
  buffered : s.1.overlays.Holds (B s.2.log)
  shared : s.2.Holds (P s.2.log)

variable {a : Application} {session : Nat} {since : List Event} {floor : World} {B P : Ledger}

abbrev Coordinated (a : Application) (session : Nat) (since : List Event) (floor : World)
    (B P : Ledger) (s : Coordinator × World) : Prop :=
  a.Custody session since floor B P (.coordinated s.1, s.2)

namespace Custody

variable {e e' : Executor} {w w' : World}

theorem executing (h : a.Custody session since floor B P (e, w)) :
    a.Executing (a.origin session since) w.log w.caches (e.runner, w) :=
  ⟨h.environment, rfl, List.prefix_refl _, h.kept⟩

theorem executed (persists : B.Persists) (grows : P.Grows)
    (h : a.Custody session since floor B P (e, w)) (same : e'.overlays = e.overlays)
    (kind : e'.coordinates = e.coordinates)
    (done : a.Executing (a.origin session since) w.log w.caches (e'.runner, w')) :
    a.Custody session since floor B P (e', w') where
  environment := done.environment
  enabled := kind.trans h.enabled
  after := h.after.trans done.grown
  onward := h.onward.trans done.onward
  kept := done.kept
  buffered := by
    change e'.overlays.Holds _
    rw [same]
    exact h.buffered.mono fun serial k e he => persists _ _ serial k e done.grown he
  shared := by
    intro serial c found
    change w'.caches.get? serial = some c at found
    rw [done.caches_eq] at found
    exact grows _ _ serial c done.grown (h.shared serial c found)

theorem settled {c : Coordinator} {os : Overlays}
    (h : a.Custody session since floor B P (.coordinated c, w))
    (done : Overlays.Guarded (B w.log) (P w.log) w (os, w')) :
    a.Custody session since floor B P (.coordinated ⟨c.runner, os⟩, w') := by
  obtain ⟨buffered, shared, same, shaped⟩ := done
  dsimp only at buffered shared same shaped
  refine ⟨h.environment, h.enabled, ?_, ?_, ?_, ?_, ?_⟩ <;> dsimp only
  · exact same ▸ h.after
  · exact h.onward.trans ⟨same ▸ List.prefix_refl _, shaped⟩
  · exact same ▸ h.kept
  · exact same ▸ buffered
  · exact same ▸ shared

theorem raise (h : a.Custody session since floor B P (e, w)) :
    a.Custody session since w B P (e, w) :=
  ⟨h.environment, h.enabled, h.after, World.Onward.refl w, h.kept, h.buffered, h.shared⟩

theorem elsewhere (persists : B.Persists) (h : a.Custody session since floor B P (e, w))
    (onward : w.Onward w') (shared : w'.Holds (P w'.log)) :
    a.Custody session since floor B P (e, w') where
  environment := h.environment
  enabled := h.enabled
  after := h.after.trans onward.grown
  onward := h.onward.trans onward
  kept key rows found := (h.kept key rows found).mono onward.grown
  buffered := h.buffered.mono fun serial k e he => persists _ _ serial k e onward.grown he
  shared := shared

theorem recast {B' P' : Ledger} (h : a.Custody session since floor B P (e, w))
    (buffered : e.overlays.Holds (B' w.log)) (shared : w.Holds (P' w.log)) :
    a.Custody session since floor B' P' (e, w) :=
  ⟨h.environment, h.enabled, h.after, h.onward, h.kept, buffered, shared⟩

theorem opened {w : World} (after : since <+: w.log) (onward : floor.Onward w)
    (shared : w.Holds (P w.log)) :
    a.Custody session since floor B P ((Session.opened a.catalog).executor, w) := by
  have nothing : ∀ key rows, Results.rows? .empty key = some rows →
      a.Obtained session since w.log key rows := by
    intro key rows found
    cases found
  simp only [Session.opened, Catalog.newExecutor, Executor.ofSettings]
  split
  · rename_i enabled
    exact ⟨rfl, enabled.symm, after, onward, nothing, Overlays.holds_empty, shared⟩
  · rename_i disabled
    have disabled : a.catalog.settings.cacheEnabled = false := by simpa using disabled
    exact ⟨rfl, disabled.symm, after, onward, nothing, Overlays.holds_empty, shared⟩

theorem guarded {c : Coordinator} (h : a.Custody session since floor B P (.coordinated c, w)) :
    Overlays.Guarded (B w.log) (P w.log) w (c.overlays, w) :=
  ⟨h.buffered, h.shared.stocked⟩

end Custody

theorem keeps_onRunner {α : Type} (persists : B.Persists) (grows : P.Grows) {m : Runner.Run α}
    (works : a.Works since (a.origin session since) m) :
    Keeps (a.Custody session since floor B P) (Executor.onRunner m) := by
  rintro ⟨e, w⟩ h
  have done := works _ _ h.after (e.runner, w) h.executing
  cases e with
  | alone r => exact h.executed persists grows rfl rfl done
  | coordinated c => exact h.executed persists grows rfl rfl done

theorem keeps_onOverlays {α : Type} {m : Action (Overlays × World) α}
    (h : ∀ v : World, Keeps (Overlays.Guarded (B v.log) (P v.log) v) m) :
    Keeps (a.Coordinated session since floor B P) (Coordinator.onOverlays m) :=
  fun s hs => hs.settled (h s.2 (s.1.overlays, s.2) hs.guarded)

theorem keeps_onOverlays_clear (ref : CacheRef) :
    Keeps (a.Coordinated session since floor B P) (Coordinator.onOverlays (Overlays.clear ref)) :=
  keeps_onOverlays fun _ => Overlays.keeps_clear ref

theorem keeps_onOverlays_rollback (host : Host) :
    Keeps (a.Coordinated session since floor B P)
      (Coordinator.onOverlays (Overlays.rollback (World.find? host))) :=
  keeps_onOverlays fun _ s h => ⟨Overlays.holds_empty, Overlays.stocked_rollback s.1 h.2⟩

theorem keeps_onOverlays_commit (publishes : B.Publishes P) (host : Host) :
    Keeps (a.Coordinated session since floor B P)
      (Coordinator.onOverlays (Overlays.commit (World.find? host))) :=
  keeps_onOverlays fun v _ h =>
    ⟨Overlays.holds_empty, Overlays.stocked_commit
      (h.1.mono (publishes.buffered v.log)) h.2 (publishes.missing v.log)⟩

/-- What a select may answer: what its own session obtained, or what the cache of its statement
shares. -/
def Served (a : Application) (session : Nat) (since : List Event) (P : Ledger) (st : Statement)
    (key : CacheKey) (w : World) (rows : Rows) : Prop :=
  a.Obtained session since w.log key rows ∨ a.catalog.settings.cacheEnabled = true ∧
    ∃ ref, st.cache = some ref ∧ P w.log ref.serial key (.rows rows)

section

variable {host : Host} (persists : B.Persists) (grows : P.Grows)

include persists grows

theorem meets_coordinated_query (receives : B.Receives a session since) {st : Statement}
    {bounds : RowBounds} {key : CacheKey} {bound : BoundSql} (asked : a.Asked st bounds key bound) :
    Meets (a.Coordinated session since floor B P)
      (Coordinator.queryWithKey (a.context session host) st bounds key bound) fun r s =>
        a.Coordinated session since floor B P s ∧
          ∀ rows, r = .ok rows → a.Served session since P st key s.2 rows := by
  have answers : a.Answers since (a.origin session since)
      (Runner.queryWithin (a.context session host) a.nesting) :=
    answers_queryWithin admits_origin host a.nesting
  let ran (rows : Rows) (s : Coordinator × World) : Prop :=
    a.Obtained session since s.2.log key rows
  let found (rows : Rows) (s : Coordinator × World) : Prop :=
    a.catalog.settings.cacheEnabled = true ∧
      ∃ ref, st.cache = some ref ∧ P s.2.log ref.serial key (.rows rows)
  suffices Meets (a.Coordinated session since floor B P)
      (Coordinator.queryWithKey (a.context session host) st bounds key bound) fun r s =>
        a.Coordinated session since floor B P s ∧ ∀ rows, r = .ok rows → ran rows s ∨ found rows s
    from this
  refine Coordinator.meets_queryWithKey ?_ keeps_onOverlays_clear ?_ ?_
  · rintro ⟨c, w⟩ h
    have answered := answers w.log w.caches st bounds key bound h.after asked
      (c.runner, w) h.executing
    exact ⟨h.executed persists grows rfl rfl answered.1, answered.2⟩
  · rintro ref bound_ref ⟨c, w⟩ h
    obtain ⟨guarded, found⟩ := Overlays.meets_get ref key (c.overlays, w) h.guarded
    refine ⟨h.settled guarded, fun rows eq => ⟨h.enabled.symm, ref, bound_ref, ?_⟩⟩
    have same := guarded.2.log_eq
    simp only [Coordinator.onOverlays] at eq ⊢
    rw [same]
    exact found _ eq
  · rintro ref rows - ⟨c, w⟩ ⟨h, obtained⟩
    exact ⟨h.settled (Overlays.keeps_put (receives _ _ _ _ obtained) _ h.guarded), obtained⟩

theorem meets_query (receives : B.Receives a session since) {st : Statement}
    (known : ∃ id, a.catalog.statement id = .ok st)
    (parameters : List Value) (bounds : RowBounds) :
    Meets (a.Custody session since floor B P)
      (Executor.query (a.context session host) st parameters bounds) fun r s =>
        a.Custody session since floor B P s ∧ ∀ rows, r = .ok rows →
          a.Served session since P st (a.keyOf st bounds (st.source parameters)) s.2 rows := by
  rintro ⟨e, w⟩ h
  have key : e.keyOf st bounds (st.source parameters) = a.keyOf st bounds (st.source parameters) :=
    Runner.keyOf_eq h.environment st bounds _
  have asked : a.Asked st bounds (a.keyOf st bounds (st.source parameters))
      (st.source parameters) := ⟨known, ⟨parameters, rfl⟩, rfl⟩
  simp only [Executor.query, bind_apply, get_apply, key]
  cases e with
  | alone r =>
    have answers : a.Answers since (a.origin session since)
        (Runner.queryWithin (a.context session host) a.nesting) :=
      answers_queryWithin admits_origin host a.nesting
    have answered := answers w.log w.caches st bounds _ _ h.after asked (r, w) h.executing
    exact ⟨h.executed persists grows rfl rfl answered.1, fun rows eq => .inl (answered.2 rows eq)⟩
  | coordinated c => exact meets_coordinated_query persists grows receives asked (c, w) h

/-- Every operation keeps custody; the two that may publish do so if they may. -/
theorem keeps_custody (call : Call) (receives : call.Selects → B.Receives a session since)
    (publishes : call.Publishes → B.Publishes P) :
    Keeps (fun s : Session × World => a.Custody session since floor B P (s.1.executor, s.2))
      (Session.perform (a.context session host) call) := by
  apply keeps_perform_of_works (I := a.Custody session since floor B P) call
  · exact fun works => keeps_onRunner persists grows works
  · rintro id parameters bounds st rfl found s h
    exact (meets_query persists grows (receives trivial) ⟨id, found⟩ parameters bounds s h).1
  · exact keeps_onOverlays_clear
  · exact fun publishing => keeps_onOverlays_commit (publishes publishing) host
  · exact fun _ => keeps_onOverlays_rollback host

theorem served_selectList (receives : B.Receives a session since) {x : Session} {w : World}
    {id : String} {parameters : List Value} {bounds : RowBounds} {rows : Rows}
    (h : a.Custody session since floor B P (x.executor, w))
    (ok : (Session.selectList (a.context session host) id parameters bounds (x, w)).result =
      .ok rows) :
    ∃ st, a.catalog.statement id = .ok st ∧
      a.Served session since P st (a.keyOf st bounds (st.source parameters))
        (Session.selectList (a.context session host) id parameters bounds (x, w)).state.2 rows := by
  simp only [Session.selectList, bind_apply, ofExcept_apply] at ok ⊢
  cases found : (a.context session host).find id with
  | error e =>
    rw [found] at ok
    cases ok
  | ok st =>
    rw [found] at ok
    have known : ∃ id, a.catalog.statement id = .ok st := ⟨id, found⟩
    exact ⟨st, found, (meets_query persists grows receives known parameters bounds _ h).2 rows ok⟩

end

end Application
end StatementCache
