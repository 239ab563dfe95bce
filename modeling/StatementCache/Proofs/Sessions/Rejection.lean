import StatementCache.Proofs.Sessions.Blame
import StatementCache.Proofs.Sessions.OwnReads

/-! What a rejected query leaves behind. A statement that cannot be cached is turned away after the
clear that it asks for has been noted, and before anything is looked up or run. -/
namespace StatementCache

open StatementCache.Action

/-- The statement is to use a shared cache, and its results are not all there is to cache. -/
structure Statement.Uncacheable (st : Statement) (ref : CacheRef) : Prop where
  cache : st.cache = some ref
  useCache : st.useCache = true
  callable : st.kind = .callable
  hasOutParameters : st.hasOutParameters = true

namespace Coordinator

variable {ctx : Context} {st : Statement} {ref : CacheRef} {c : Coordinator} {w : World}

theorem queryWithKey_of_uncacheable (h : st.Uncacheable ref) (ctx : Context) (bounds : RowBounds)
    (key : CacheKey) (bound : BoundSql) (c : Coordinator) (w : World) :
    queryWithKey ctx st bounds key bound (c, w) =
      if c.runner.closed then ⟨.error .executorClosed, (c, w)⟩
      else
        ⟨.error (.unsupportedCaching ("statement '" ++ st.id ++
          "' has OUT parameters; set useCache=false")), (⟨c.runner, st.flush c.overlays⟩, w)⟩ := by
  obtain ⟨r, os⟩ := c
  cases closed : r.closed with
  | true => simp only [queryWithKey, bind_apply, ensureOpen_apply, closed, if_true]
  | false =>
    simp only [queryWithKey, bind_apply, ensureOpen_apply, closed, Bool.false_eq_true, if_false,
      h.cache, flushIfRequired_apply, h.useCache, Bool.not_true, ensureCacheable, h.callable,
      h.hasOutParameters, and_self, if_true, fail_apply]

theorem unrejecting_onRunner {α : Type} {m : Runner.Run α} (h : Action.Unrejecting m) :
    Action.Unrejecting (onRunner m) := fun s => h (s.1.runner, s.2)

theorem unrejecting_cachedRows (host : Host) (ref : CacheRef) (key : CacheKey) :
    Action.Unrejecting (cachedRows host ref key) := by
  have asked : Action.Unrejecting (onOverlays (Overlays.get (World.find? host) ref key)) :=
    fun s => Overlay.unrejecting_get host key _
  refine asked.bind fun found => ?_
  split
  · exact .pure none
  · exact .pure _
  · exact .fail rfl

theorem unrejecting_queryWithKey (honest : ctx.Unrejecting) (known : st.Unrejecting ctx.database)
    (cacheable : ∀ ref, ¬st.Uncacheable ref) (bounds : RowBounds) (key : CacheKey)
    (bound : BoundSql) : Action.Unrejecting (queryWithKey ctx st bounds key bound) := by
  have ran := unrejecting_onRunner (Runner.unrejecting_queryWithKey honest known bounds key bound)
  have opened : Action.Unrejecting ensureOpen := unrejecting_onRunner Runner.unrejecting_ensureOpen
  refine opened.bind fun _ => ?_
  split
  · exact ran
  · rename_i ref uses
    have flushed : Action.Unrejecting (flushIfRequired st) := fun s => by
      rw [flushIfRequired_apply]
      exact .ok ()
    refine flushed.bind fun _ => ?_
    split
    · exact ran
    · rename_i caches
      have kept : Action.Unrejecting (ensureCacheable st) := by
        unfold ensureCacheable
        split
        · rename_i out
          exact absurd ⟨uses, by simpa using caches, out.1, out.2⟩ (cacheable ref)
        · exact .pure ()
      refine kept.bind fun _ => (unrejecting_cachedRows ctx.host ref key).bind fun found => ?_
      cases found with
      | some rows => exact .pure rows
      | none => exact ran.bind fun rows => Action.Unrejecting.bind (fun _ => .ok ()) fun _ => .pure rows

end Coordinator

namespace Executor

variable {ctx : Context} {st : Statement}

theorem query_coordinated (ctx : Context) (st : Statement) (parameters : List Value)
    (bounds : RowBounds) (c : Coordinator) (w : World) :
    query ctx st parameters bounds (.coordinated c, w) =
      let bound := st.source parameters
      let o := Coordinator.queryWithKey ctx st bounds (c.runner.keyOf st bounds bound) bound (c, w)
      ⟨o.result, (.coordinated o.state.1, o.state.2)⟩ := rfl

/-- A query is rejected exactly when its statement is to use a shared cache and has results that
cannot be cached. Then nothing was looked up or run: the world is as before, and so is the executor
but for the clear, if the statement asks for one, that is noted in the overlay of its cache. -/
theorem rejected_query_notes_clear (ctx : Context) (honest : ctx.Unrejecting) (st : Statement)
    (known : st.Unrejecting ctx.database) (parameters : List Value) (bounds : RowBounds)
    (c : Coordinator) (w : World) :
    let asked := query ctx st parameters bounds (.coordinated c, w)
    ((∃ reason, asked.result = .error (.unsupportedCaching reason)) ↔
      c.runner.closed = false ∧ ∃ ref, st.Uncacheable ref) ∧
    ∀ reason, asked.result = .error (.unsupportedCaching reason) →
      ∃ ref, st.cache = some ref ∧ ∃ c', asked.state = (.coordinated c', w) ∧
        c'.runner = c.runner ∧
        (st.flushCacheRequired = false → c' = c) ∧
        (st.flushCacheRequired = true → ∀ serial,
          c'.overlays.bySerial.get? serial =
            if ref.serial = serial then
              some ((c.overlays.bySerial.get? serial).getD (.fresh ref)).clear
            else c.overlays.bySerial.get? serial) := by
  intro asked
  have shown := query_coordinated ctx st parameters bounds c w
  by_cases rejects : ∃ ref, st.Uncacheable ref
  · obtain ⟨ref, uncacheable⟩ := rejects
    dsimp only at shown
    rw [Coordinator.queryWithKey_of_uncacheable uncacheable] at shown
    cases closed : c.runner.closed with
    | true =>
      rw [closed, if_pos rfl] at shown
      simp [asked, shown]
    | false =>
      rw [closed, if_neg Bool.false_ne_true] at shown
      refine ⟨by simpa [asked, shown] using ⟨ref, uncacheable⟩, fun reason _ => ⟨ref, uncacheable.cache,
        ⟨c.runner, st.flush c.overlays⟩, by rw [show asked = _ from shown], rfl, ?keeps, ?flushes⟩⟩
      case keeps =>
        intro keeps
        rw [Statement.flush_keeps keeps]
      case flushes =>
        intro flushes serial
        rw [Statement.flush_clears uncacheable.cache flushes, Table.get?_insert]
        split
        · rename_i same
          rw [← same]
          rfl
        · rfl
  · have ordinary : Ordinary asked.result :=
      Coordinator.unrejecting_queryWithKey honest known (not_exists.mp rejects) bounds _ _ (c, w)
    have never (reason : String) : asked.result ≠ .error (.unsupportedCaching reason) := fun failed => by
      cases ordinary _ failed
    refine ⟨⟨?_, fun h => absurd h.2 rejects⟩, fun reason failed => absurd failed (never reason)⟩
    rintro ⟨reason, failed⟩
    exact absurd failed (never reason)

def lonely : Context where
  host := .calm
  database := ⟨fun _ _ _ => .ok [[.integer 7]], fun _ _ _ => .ok 0, fun _ => none⟩
  find id := .error (.statementNotFound id)
  nesting := 1

def audit (users : CacheRef) : Statement :=
  { Statement.ofSql "users.audit" .callable "call audit" with
    useCache := true, hasOutParameters := true, cache := some users }

def buffering (users : CacheRef) : Coordinator :=
  { Coordinator.ofRunner (.ofSettings .default) with
    overlays := ⟨Table.empty.insert users.serial
      ((Overlay.fresh users).put (.ofValues [.integer 1]) (.rows [[.integer 1]]))⟩ }

/-- A rejection can cost a unit of work what it has buffered. A row mapper that reports the same
fault does so after the database was asked. -/
theorem rejected_query_drops_buffered_results :
    let made := World.empty.addCache (.base "users")
    let users := made.1
    let w := made.2
    let s : Executor × World := (.coordinated (buffering users), w)
    let rejected := query lonely (audit users) [] .default s
    let published (s : Executor × World) : Nat :=
      ((World.store lonely.host users).size (commit lonely true s).state.2).1
    let refused := query lonely { Statement.ofSql "users.find" .select "select" with
      mapper := some fun _ => .failed (.unsupportedCaching "rows") } [] .default s
    ((∃ reason, rejected.result = .error (.unsupportedCaching reason)) ∧
      published s = 1 ∧ published rejected.state = 0) ∧
    refused.result = .error (.unsupportedCaching "rows") ∧
      refused.state.2.log = [.query "select" []] := by
  exact ⟨⟨⟨_, rfl⟩, rfl, rfl⟩, rfl, rfl⟩

theorem unrejecting_lonely : lonely.Unrejecting where
  query _ _ _ := .ok _
  execute _ _ _ := .ok _
  find _ := .error rfl
  mapper _ _ known := by cases known

theorem rejected_audit_notes_clear :
    let made := World.empty.addCache (.base "users")
    let users := made.1
    let w := made.2
    let asked := query lonely (audit users) [] .default (.coordinated (buffering users), w)
    ∃ c', asked.state = (.coordinated c', w) ∧
      c'.overlays.bySerial.get? users.serial = some ⟨users, true, .empty, []⟩ := by
  intro made users w asked
  have known : (audit users).Unrejecting lonely.database := fun _ maps => by cases maps
  obtain ⟨rejects, leaves⟩ := rejected_query_notes_clear lonely unrejecting_lonely (audit users)
    known [] .default (buffering users) w
  obtain ⟨reason, rejected⟩ := rejects.mpr ⟨rfl, users, rfl, rfl, rfl, rfl⟩
  obtain ⟨ref, uses, c', state, -, -, cleared⟩ := leaves reason rejected
  cases uses
  exact ⟨c', state, cleared rfl users.serial⟩

end Executor
end StatementCache
