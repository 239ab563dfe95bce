import StatementCache.Proofs.Nesting.Correspondence

/-! What an executor may be asked between two queries, and what it keeps whatever it was asked. -/
namespace StatementCache

open StatementCache.Action

inductive Task where
  | query (st : Statement) (bounds : RowBounds) (key : CacheKey) (bound : BoundSql)
  | load (st : Statement) (parameters : List Value)
  | update (st : Statement) (parameters : List Value)
  | commit (required : Bool)
  | rollback (required : Bool)
  | clear
  | close (rollbackRequired : Bool)

namespace Executor

def perform (ctx : Context) : Task → Run Unit
  | .query st bounds key bound => discard (queryWithKey ctx st bounds key bound)
  | .load st parameters => discard (load ctx st parameters)
  | .update st parameters => discard (update ctx st parameters)
  | .commit required => commit ctx required
  | .rollback required => rollback ctx required
  | .clear => clearResults
  | .close rollbackRequired => close ctx rollbackRequired

/-- An executor after operations of which each had surroundings of its own: who acts, what the
database answers, and what the others have made of the shared caches. -/
def after (settings : Settings) (past : List (Context × World × Task)) : Executor :=
  past.foldl (fun e turn => (perform turn.1 turn.2.2 (e, turn.2.1)).state.1) (.ofSettings settings)

section Keeps

variable {I : Runner → Prop} {ctx : Context}

theorem keeps_either {α : Type} {J : Runner × World → Prop} {alone : Runner.Run α}
    {m : Coordinator.Run α} (single : Keeps J alone)
    (several : Keeps (fun s => J (s.1.runner, s.2)) m) :
    Keeps (fun s => J (s.1.runner, s.2)) (either alone m) := by
  rintro ⟨e, w⟩ h
  cases e with
  | alone r => exact single (r, w) h
  | coordinated c => exact several (c, w) h

theorem keeps_behind {α : Type} {J : Runner × World → Prop} {m : Runner.Run α} (h : Keeps J m) :
    Keeps (fun s => J (s.1.runner, s.2)) (Coordinator.onRunner m) :=
  fun s hs => h (s.1.runner, s.2) hs

theorem keeps_onOverlays {α : Type} (m : Action (Overlays × World) α) :
    Keeps (fun s => I s.1.runner) (Coordinator.onOverlays m) := fun _ hs => hs

variable
  (query : ∀ st bounds key bound,
    Keeps (fun s => I s.1) (Runner.queryWithKey ctx st bounds key bound))

include query in
theorem keeps_queryWithKey (st : Statement) (bounds : RowBounds) (key : CacheKey)
    (bound : BoundSql) :
    Keeps (fun s => I s.1.runner) (queryWithKey ctx st bounds key bound) :=
  keeps_either (query st bounds key bound)
    (Coordinator.keeps_queryWithKey (keeps_behind (query st bounds key bound))
      (fun _ => keeps_onOverlays _) (fun _ => keeps_onOverlays _) fun _ _ => keeps_onOverlays _)

include query in
theorem keeps_load
    (defer : ∀ key slot s, I s.1 → s.1.results.contains key = true →
      I (Runner.defer key slot s).state.1)
    (st : Statement) (parameters : List Value) :
    Keeps (fun s => I s.1.runner) (load ctx st parameters) := by
  rintro ⟨e, w⟩ h
  simp only [load, bind_apply, get_apply]
  split
  · rename_i known
    have deferred : Meets (fun s => s = (e, w.newSlot.2))
        (onRunner (Runner.defer (e.keyOf st .default (st.source parameters)) w.newSlot.1))
        fun _ s => I s.1.runner := by
      rintro _ rfl
      have kept := defer (e.keyOf st .default (st.source parameters)) w.newSlot.1
        (e.runner, w.newSlot.2) h known
      cases e with
      | alone r => exact kept
      | coordinated c => exact kept
    exact deferred.bind (f := fun _ => pure (NestedValue.deferred w.newSlot.1))
      (R := fun _ s => I s.1.runner) (fun _ _ hs => hs) (fun _ _ hs => hs) _ rfl
  · have asked := keeps_queryWithKey query st .default (e.keyOf st .default (st.source parameters))
      (st.source parameters)
    exact asked.map NestedValue.loaded _ h

section Clearing

variable (clear : ∀ r, I r → I r.clearResults)

include clear

theorem keeps_update (db : Database) (st : Statement) (parameters : List Value) :
    Keeps (fun s => I s.1) (Runner.update db st parameters) := by
  rintro ⟨r, w⟩ h
  rw [Runner.update_apply]
  split
  · exact h
  · exact clear r h

theorem keeps_of_ends {db : Database} {b : Boundary} {m : Runner.Run Unit}
    (ends : ∀ r w, Runner.Ends db b r w (m (r, w))) : Keeps (fun s => I s.1) m := by
  rintro ⟨r, w⟩ h
  have left := (ends r w).runner_eq
  exact left ▸ clear r h

theorem keeps_close
    (shut : ∀ r, I r → I { r with closed := true, results := .empty, deferred := [] })
    (db : Database) (required : Bool) : Keeps (fun s => I s.1) (Runner.close db required) := by
  rintro ⟨r, w⟩ h
  rw [Runner.close_apply]
  split
  · exact h
  · exact shut _ (keeps_of_ends clear (Runner.ends_rollback db required) (r, w) h)

end Clearing

include query in
/-- Besides its queries, all that an executor does to its own results is to forget them. -/
theorem keeps_perform
    (defer : ∀ key slot s, I s.1 → s.1.results.contains key = true →
      I (Runner.defer key slot s).state.1)
    (clear : ∀ r, I r → I r.clearResults)
    (shut : ∀ r, I r → I { r with closed := true, results := .empty, deferred := [] })
    (task : Task) : Keeps (fun s => I s.1.runner) (perform ctx task) := by
  have close (required : Bool) := keeps_close clear shut ctx.database required
  cases task with
  | query st bounds key bound => exact (keeps_queryWithKey query st bounds key bound).discard
  | load st parameters => exact (keeps_load query defer st parameters).discard
  | update st parameters =>
    have update := keeps_update clear ctx.database st parameters
    have behind := Coordinator.keeps_update (fun _ => keeps_onOverlays _) (keeps_behind update)
    exact (keeps_either update behind).discard
  | commit required =>
    have commit := keeps_of_ends clear (Runner.ends_commit ctx.database required)
    exact keeps_either commit ((keeps_behind commit).bind fun _ => keeps_onOverlays _)
  | rollback required =>
    have rollback := keeps_of_ends clear (Runner.ends_rollback ctx.database required)
    exact keeps_either rollback ((keeps_behind rollback).both (keeps_onOverlays _))
  | clear =>
    have cleared : Keeps (fun s => I s.1)
        (onFirst (modify Runner.clearResults) : Runner.Run Unit) := fun s hs => clear s.1 hs
    exact keeps_either cleared (keeps_behind cleared)
  | close required =>
    refine keeps_either (close required) ?_
    unfold Coordinator.close
    split
    · exact (keeps_behind (close true)).both (keeps_onOverlays _)
    · refine (keeps_onOverlays _).attempt.bind fun _ => ?_
      exact (keeps_behind (close false)).attempt.bind fun _ => Keeps.ofExcept _

end Keeps

theorem of_after {I : Runner → Prop} (settings : Settings) (first : I (.ofSettings settings))
    (kept : ∀ ctx task, Keeps (fun s => I s.1.runner) (perform ctx task))
    (past : List (Context × World × Task)) : I (after settings past).runner := by
  have new : I (ofSettings settings).runner := by
    unfold ofSettings
    split
    · exact first
    · exact first
  unfold after
  generalize ofSettings settings = e at new ⊢
  induction past generalizing e with
  | nil => exact new
  | cons turn past ih => exact ih _ (kept turn.1 turn.2.2 (e, turn.2.1) new)

end Executor
end StatementCache
