import StatementCache.Proofs.Nesting.Drawing
import StatementCache.Proofs.Sessions.Origin

/-! Who reports that the results of a statement cannot be cached. Neither the caches do nor the part
that runs statements, unless the database or a row mapper has such a fault of its own. -/
namespace StatementCache

open StatementCache.Action

def Fault.isRejection : Fault → Bool
  | .unsupportedCaching _ => true
  | _ => false

def Ordinary {α : Type} (result : Except Fault α) : Prop :=
  ∀ e, result = .error e → e.isRejection = false

namespace Ordinary

variable {α β : Type}

theorem ok (a : α) : Ordinary (.ok a) := fun _ h => by cases h

theorem error {e : Fault} (h : e.isRejection = false) : Ordinary (.error e : Except Fault α) :=
  fun _ eq => by cases eq; exact h

theorem map {result : Except Fault α} (h : Ordinary result) (f : α → β) :
    Ordinary (result.map f) := by
  cases result with
  | ok a => exact ok (f a)
  | error e => exact error (h e rfl)

end Ordinary

namespace Action

variable {σ τ α β : Type}

/-- Whatever the action starts from, its answer is an ordinary one. -/
def Unrejecting (m : Action σ α) : Prop := ∀ s, Ordinary (m s).result

namespace Unrejecting

variable {m : Action σ α} {f : α → Action σ β} {Q : α → Prop}

theorem pure (a : α) : Unrejecting (pure a : Action σ α) := fun _ => .ok a

theorem fail {e : Fault} (h : e.isRejection = false) : Unrejecting (fail e : Action σ α) :=
  fun _ => .error h

theorem total (f : σ → α × σ) : Unrejecting (total f) := fun _ => .ok _

theorem modify (f : σ → σ) : Unrejecting (modify f) := fun _ => .ok ()

theorem get : Unrejecting (get : Action σ σ) := fun s => .ok s

theorem ofExcept {r : Except Fault α} (h : Ordinary r) : Unrejecting (ofExcept r : Action σ α) :=
  fun _ => h

theorem attempt (m : Action σ α) : Unrejecting (attempt m) := fun _ => .ok _

theorem bind_of_gives (first : Unrejecting m) (given : Gives Q m)
    (next : ∀ a, Q a → Unrejecting (f a)) : Unrejecting (m >>= f) := by
  intro s
  have h := first s
  have known := given s
  rw [bind_apply]
  rcases hm : m s with ⟨e | a, s'⟩ <;> rw [hm] at h known
  · exact .error (h e rfl)
  · exact next a (known a rfl) s'

theorem bind (first : Unrejecting m) (next : ∀ a, Unrejecting (f a)) : Unrejecting (m >>= f) :=
  bind_of_gives (Q := fun _ => True) first (fun _ _ _ => trivial) fun a _ => next a

theorem map (h : Unrejecting m) (f : α → β) : Unrejecting (f <$> m) := fun s => by
  rw [map_apply]
  exact (h s).map f

theorem discard (h : Unrejecting m) : Unrejecting (discard m) := h.map _

theorem onFirst (h : Unrejecting m) : Unrejecting (onFirst m : Action (σ × τ) α) := fun s => h s.1

theorem onSecond (h : Unrejecting m) : Unrejecting (onSecond m : Action (τ × σ) α) :=
  fun s => h s.2

theorem gives_attempt (h : Unrejecting m) : Gives Ordinary (Action.attempt m) := fun s r ok => by
  cases ok
  exact h s

end Unrejecting
end Action

structure Store.Unrejecting {σ : Type} (store : Store σ) : Prop where
  get : ∀ k, Action.Unrejecting (store.get k)
  remove : ∀ k, Action.Unrejecting (store.remove k)
  clear : Action.Unrejecting store.clear

namespace Layer

variable {τ : Type} {inner : Store τ}

theorem unrejecting_lru (h : inner.Unrejecting) : (lru inner).Unrejecting where
  get k := (Unrejecting.modify _).onFirst.bind fun _ => (h.get k).onSecond
  remove k := (Unrejecting.modify _).onFirst.bind fun _ => (h.remove k).onSecond
  clear := (Unrejecting.modify _).onFirst.bind fun _ => h.clear.onSecond

theorem unrejecting_fifo (h : inner.Unrejecting) : (fifo inner).Unrejecting where
  get k := (h.get k).onSecond
  remove k := (Unrejecting.modify _).onFirst.bind fun _ => (h.remove k).onSecond
  clear := (Unrejecting.modify _).onFirst.bind fun _ => h.clear.onSecond

theorem unrejecting_drainEach (h : inner.Unrejecting) (keys : List CacheKey) :
    Action.Unrejecting (drainEach inner keys) := by
  induction keys with
  | nil => exact .pure 0
  | cons k rest ih =>
    refine (Unrejecting.modify _).onFirst.bind fun _ => Unrejecting.get.bind fun s => ?_
    split
    · exact ih
    · exact (h.remove k).onSecond.discard.bind fun _ => ih.bind fun _ => .pure _

theorem unrejecting_drain (h : inner.Unrejecting) : Action.Unrejecting (drain inner) :=
  Unrejecting.get.bind fun _ => unrejecting_drainEach h _

theorem unrejecting_tiered (now : Nat) (h : inner.Unrejecting) : (tiered now inner).Unrejecting where
  get k := by
    refine (unrejecting_drain h).discard.bind fun _ => (h.get k).onSecond.bind fun found => ?_
    cases found with
    | none => exact .pure none
    | some e =>
      refine Unrejecting.get.bind fun s => ?_
      split
      · exact .pure (some e)
      · refine (Unrejecting.total _).onFirst.bind fun young => ?_
        cases young with
        | true => exact (Unrejecting.modify _).onFirst.bind fun _ => .pure (some e)
        | false =>
          exact (Unrejecting.modify _).onFirst.bind fun _ =>
            (h.remove k).onSecond.discard.bind fun _ => .pure none
  remove k := (unrejecting_drain h).discard.bind fun _ =>
    (Unrejecting.modify _).onFirst.bind fun _ => (h.remove k).onSecond
  clear := (Unrejecting.modify _).onFirst.bind fun _ => h.clear.onSecond

theorem unrejecting_scheduled (now : Nat) (h : inner.Unrejecting) :
    (scheduled now inner).Unrejecting := by
  have stale : Action.Unrejecting (clearWhenStale now inner) := by
    refine Unrejecting.get.bind fun s => ?_
    dsimp only
    split
    · exact .pure false
    · exact h.clear.onSecond.bind fun _ => (Unrejecting.modify _).onFirst.bind fun _ => .pure true
  refine ⟨fun k => stale.bind fun cleared => ?_, fun k => stale.discard.bind fun _ =>
    (h.remove k).onSecond, h.clear.onSecond.bind fun _ => (Unrejecting.modify _).onFirst⟩
  cases cleared with
  | true => exact .pure none
  | false => exact (h.get k).onSecond

theorem ordinary_decodeFound (id : String) (found : Option Entry) :
    Ordinary (decodeFound id found) := by
  cases found with
  | none => exact .ok none
  | some e =>
    cases e with
    | snapshot bytes =>
      refine Ordinary.map ?_ some
      simp only [decode]
      split
      · exact .ok _
      · exact .error rfl
    | placeholder => exact .ok _
    | rows | handle => exact .error rfl

theorem unrejecting_serialized (h : inner.Unrejecting) : (serialized inner).Unrejecting where
  get k := (h.get k).bind fun found => .ofExcept (ordinary_decodeFound inner.id found)
  remove k := (h.remove k).bind fun found => .ofExcept (ordinary_decodeFound inner.id found)
  clear := h.clear

theorem unrejecting_counted (h : inner.Unrejecting) : (counted inner).Unrejecting where
  get k := by
    refine (Unrejecting.modify _).onFirst.bind fun _ => (h.get k).onSecond.bind fun found => ?_
    split
    · exact (Unrejecting.modify _).onFirst.bind fun _ => .pure found
    · exact .pure found
  remove k := (h.remove k).onSecond
  clear := h.clear.onSecond

theorem unrejecting_blocking (thread : Thread) (h : inner.Unrejecting) :
    (blocking thread inner).Unrejecting where
  get k := by
    have acquired : Action.Unrejecting (acquire inner.id thread k) := fun l => by
      unfold acquire
      split
      · exact .ok ()
      · exact .error rfl
    have caught := (h.get k).onSecond (τ := Locks)
    refine acquired.onFirst.bind fun _ => Unrejecting.bind_of_gives (Unrejecting.attempt _)
      caught.gives_attempt fun found ordinary => ?_
    cases found with
    | error e =>
      exact (Unrejecting.modify _).onFirst.bind fun _ => Unrejecting.fail (ordinary e rfl)
    | ok found =>
      dsimp only
      split
      · exact (Unrejecting.modify _).onFirst.bind fun _ => .pure found
      · exact .pure found
  remove k s := h.remove k s.2
  clear := h.clear.onSecond

theorem unrejecting_recording {note : Event → Action τ Unit}
    (noted : ∀ e, Action.Unrejecting (note e)) (h : inner.Unrejecting) :
    (recording note inner).Unrejecting where
  get k := (noted _).bind fun _ => h.get k
  remove k := (noted _).bind fun _ => h.remove k
  clear := (noted _).bind fun _ => h.clear

theorem unrejecting_faulty {permit : Operation → Action τ Unit}
    (permitted : ∀ op, Action.Unrejecting (permit op)) (h : inner.Unrejecting) :
    (faulty permit inner).Unrejecting where
  get k := (permitted _).bind fun _ => h.get k
  remove k := (permitted _).bind fun _ => h.remove k
  clear := (permitted _).bind fun _ => h.clear

end Layer

structure Site.Unrejecting {ω : Type} (site : Site ω) : Prop where
  note : ∀ e, Action.Unrejecting (site.note e)
  permit : ∀ op, Action.Unrejecting (site.permit op)
  shared : ∀ ref, (site.shared ref).Unrejecting

theorem Chain.unrejecting_store {ω : Type} {site : Site ω} (h : site.Unrejecting) (c : Chain) :
    (c.store site).Unrejecting := by
  have stacked {β σ : Type} {store : Store (β × (σ × ω))} (h : store.Unrejecting) :
      (Chain.stacked store).Unrejecting :=
    ⟨fun k _ => h.get k _, fun k _ => h.remove k _, fun _ => h.clear _⟩
  induction c with
  | base id => exact ⟨fun _ _ => .ok _, fun _ _ => .ok _, fun _ => .ok ()⟩
  | shared target =>
    have reached := h.shared target
    exact ⟨fun k s => reached.get k s.2, fun k s => reached.remove k s.2, fun s => reached.clear s.2⟩
  | lru inner ih => exact stacked (Layer.unrejecting_lru ih)
  | fifo inner ih => exact stacked (Layer.unrejecting_fifo ih)
  | tiered inner ih => exact stacked (Layer.unrejecting_tiered site.now ih)
  | scheduled inner ih => exact stacked (Layer.unrejecting_scheduled site.now ih)
  | serialized inner ih => exact Layer.unrejecting_serialized ih
  | counted inner ih => exact stacked (Layer.unrejecting_counted ih)
  | synchronized inner ih => exact ⟨ih.get, ih.remove, ih.clear⟩
  | blocking inner ih => exact stacked (Layer.unrejecting_blocking site.thread ih)
  | recording inner ih => exact Layer.unrejecting_recording (fun e => (h.note e).onSecond) ih
  | faulty inner ih => exact Layer.unrejecting_faulty (fun op => (h.permit op).onSecond) ih

namespace World

theorem unrejecting_storeVia {site : Site World} (h : site.Unrejecting) (ref : CacheRef) :
    (storeVia site ref).Unrejecting := by
  have onCache {α : Type} {m : (c : Cache) → Action (c.chain.State × World) α}
      (h : ∀ c, Action.Unrejecting (m c)) : Action.Unrejecting (onCache ref m) := fun w => by
    unfold World.onCache
    split
    · exact .error rfl
    · exact h _ _
  exact ⟨fun k => onCache fun c => (c.chain.unrejecting_store h).get k,
    fun k => onCache fun c => (c.chain.unrejecting_store h).remove k,
    onCache fun c => (c.chain.unrejecting_store h).clear⟩

theorem unrejecting_store (host : Host) (ref : CacheRef) : (store host ref).Unrejecting := by
  have site (depth : Nat) : (siteAt host depth).Unrejecting := by
    have noted (e : Event) : Action.Unrejecting (Action.modify (report e)) := .modify _
    have permitted (op : Operation) : Action.Unrejecting (permit host op) := fun w => by
      unfold permit
      split
      · exact .error rfl
      · exact .ok ()
    induction depth with
    | zero => exact ⟨noted, permitted, fun ref => ⟨fun _ => .fail rfl, fun _ => .fail rfl, .fail rfl⟩⟩
    | succ depth ih => exact ⟨noted, permitted, unrejecting_storeVia ih⟩
  exact unrejecting_storeVia (site _) ref

end World

theorem Overlay.unrejecting_get (host : Host) (k : CacheKey) :
    Action.Unrejecting (Overlay.get (World.find? host) k) := by
  refine Unrejecting.get.bind fun s => ?_
  dsimp only
  split
  · exact .fail rfl
  · rename_i store found
    have reached : store.Unrejecting :=
      World.eq_store_of_find? found ▸ World.unrejecting_store host s.1.target
    refine (reached.get k).onSecond.bind fun entry => ?_
    split
    · exact (Unrejecting.modify _).onFirst.bind fun _ => .pure _
    · exact .pure _

/-- What the end of a unit of work may be answered: something ordinary, or what the database says
to it. -/
def Database.Says (db : Database) (b : Boundary) (reply : Except Fault Unit) : Prop :=
  Ordinary reply ∨ ∃ answer log, db.boundary b = some answer ∧ answer log = reply

/-- The work of a row mapper has no rejection of its own to report. -/
def Hydration.Unrejecting (db : Database) : Hydration → Prop
  | .done _ => True
  | .failed e => e.isRejection = false
  | .find _ next => ∀ reply, Ordinary reply → (next reply).Unrejecting db
  | .load _ _ next => ∀ reply, Ordinary reply → (next reply).Unrejecting db
  | .query _ _ _ next => ∀ reply, Ordinary reply → (next reply).Unrejecting db
  | .cached _ _ _ next => ∀ reply, Ordinary reply → (next reply).Unrejecting db
  | .update _ _ next => ∀ reply, Ordinary reply → (next reply).Unrejecting db
  | .commit _ next => ∀ reply, db.Says .commit reply → (next reply).Unrejecting db
  | .rollback _ next => ∀ reply, db.Says .rollback reply → (next reply).Unrejecting db
  | .clear next => next.Unrejecting db
  | .keep _ next => next.Unrejecting db

def Statement.Unrejecting (db : Database) (st : Statement) : Prop :=
  ∀ mapper, st.mapper = some mapper → ∀ rows, (mapper rows).Unrejecting db

/-- Neither the database nor the row mappers of the known statements report that something cannot be
cached: the shared caches are no concern of theirs. -/
structure Context.Unrejecting (ctx : Context) : Prop where
  query : ∀ log sql parameters, Ordinary (ctx.database.query log sql parameters)
  execute : ∀ log sql parameters, Ordinary (ctx.database.execute log sql parameters)
  find : ∀ id, Ordinary (ctx.find id)
  mapper : ∀ id st, ctx.find id = .ok st → st.Unrejecting ctx.database

namespace Runner

variable {ctx : Context} {hydrate : RowMapper → Rows → Run Rows} {st : Statement}
  {query : Statement → RowBounds → CacheKey → BoundSql → Run Rows}

theorem unrejecting_ensureOpen : Action.Unrejecting ensureOpen := fun s => by
  rw [ensureOpen_apply]
  split
  · exact .error rfl
  · exact .ok ()

theorem unrejecting_queryVia (honest : ctx.Unrejecting)
    (work : ∀ mapper, st.mapper = some mapper → ∀ rows, Action.Unrejecting (hydrate mapper rows))
    (bounds : RowBounds) (key : CacheKey) (bound : BoundSql) :
    Action.Unrejecting (queryVia ctx.database hydrate st bounds key bound) := by
  have selected : Action.Unrejecting (select ctx.database hydrate st bounds bound) := by
    have asked : Action.Unrejecting (ctx.database.runQuery bound) := fun w => honest.query _ _ _
    refine asked.onSecond.bind fun rows => ?_
    cases maps : st.mapper with
    | none => exact .pure _
    | some mapper => exact work mapper maps _
  have looked : Action.Unrejecting (lookup ctx.database hydrate st bounds key bound) := by
    refine Unrejecting.get.bind fun s => ?_
    split
    · exact .pure _
    · exact .fail rfl
    · refine (Unrejecting.modify _).onFirst.bind fun _ => ?_
      refine Unrejecting.bind_of_gives (.attempt _) selected.gives_attempt fun result ordinary => ?_
      cases result with
      | ok rows => exact (Unrejecting.modify _).onFirst.bind fun _ => .pure rows
      | error e => exact (Unrejecting.modify _).onFirst.bind fun _ => .fail (ordinary e rfl)
  rintro ⟨r, w⟩
  rw [queryVia_apply]
  split
  · exact .error rfl
  · exact looked _

theorem unrejecting_reply {α : Type} (m : Run α) : Action.Unrejecting (reply m) := by
  refine (Unrejecting.attempt m).bind fun r => ?_
  split
  · exact .fail rfl
  · exact .pure r

theorem gives_reply {α : Type} {m : Run α} {Q : Except Fault α → Prop}
    (h : ∀ s, Q (m s).result) : Gives Q (reply m) := by
  have attempted : Gives Q (attempt m) := by
    rintro s _ ⟨⟩
    exact h s
  refine attempted.bind fun r answered => ?_
  split
  · exact Gives.fail _
  · exact Gives.pure answered

theorem says_runBoundary (db : Database) (b : Boundary) (w : World) :
    db.Says b (db.runBoundary b w).result := by
  unfold Database.runBoundary
  cases asked : db.boundary b with
  | none => exact .inl (.ok ())
  | some answer => exact .inr ⟨answer, _, asked, rfl⟩

theorem Ends.answered {db : Database} {b : Boundary} {r : Runner} {w : World}
    {o : Outcome (Runner × World) Unit} (h : Ends db b r w o) : db.Says b o.result := by
  cases h with
  | asked => exact says_runBoundary db b w
  | unasked reply said =>
    obtain rfl | ⟨-, rfl⟩ := said
    · exact .inl (.ok ())
    · exact .inl (.error rfl)

theorem unrejecting_loadVia
    (asks : ∀ bounds key bound, Action.Unrejecting (query st bounds key bound))
    (parameters : List Value) : Action.Unrejecting (loadVia query st parameters) := by
  have deferred (key : CacheKey) (slot : Slot) : Action.Unrejecting (defer key slot) := by
    refine unrejecting_ensureOpen.bind fun _ => Unrejecting.get.bind fun s => ?_
    split
    · exact (Unrejecting.modify _).onSecond
    · exact (Unrejecting.modify _).onFirst
  refine Unrejecting.get.bind fun s => ?_
  dsimp only
  split
  · exact (Unrejecting.total _).onSecond.bind fun slot => (deferred _ slot).bind fun _ => .pure _
  · exact (asks .default _ _).bind fun rows => .pure _

theorem unrejecting_update (honest : ctx.Unrejecting) (st : Statement) (parameters : List Value) :
    Action.Unrejecting (update ctx.database st parameters) := by
  have executed (bound : BoundSql) : Action.Unrejecting (ctx.database.runExecute bound) :=
    fun w => honest.execute _ _ _
  exact unrejecting_ensureOpen.bind fun _ => (Unrejecting.modify _).onFirst.bind fun _ =>
    (executed _).onSecond

theorem unrejecting_hydrateVia (honest : ctx.Unrejecting)
    (asks : ∀ st : Statement, st.Unrejecting ctx.database → ∀ bounds key bound,
      Action.Unrejecting (query st bounds key bound))
    {work : Hydration} (h : work.Unrejecting ctx.database) :
    Action.Unrejecting (hydrateVia ctx query work) := by
  have called {α : Type} (id : String) {m : Statement → Run α} {next : Except Fault α → Run Rows}
      (h : ∀ st : Statement, st.Unrejecting ctx.database → Action.Unrejecting (m st))
      (rest : ∀ reply, Ordinary reply → Action.Unrejecting (next reply)) :
      Action.Unrejecting (do
        let reply ← reply do
          let st ← Action.ofExcept (ctx.find id)
          m st
        next reply) :=
    (unrejecting_reply _).bind_of_gives (gives_reply
      (Unrejecting.bind_of_gives (.ofExcept (honest.find id)) (fun _ st => honest.mapper id st) h))
      rest
  induction work with
  | done rows => exact .pure rows
  | failed e => exact .fail h
  | find id next ih => exact ih _ (h _ ((honest.find id).map _))
  | load id parameters next ih =>
    exact called id (fun st known => unrejecting_loadVia (asks st known) parameters)
      fun r ordinary => ih r (h r ordinary)
  | query id parameters bounds next ih =>
    exact called id (fun st known => Unrejecting.get.bind fun s => asks st known bounds _ _)
      fun r ordinary => ih r (h r ordinary)
  | cached id parameters bounds next ih =>
    exact called id (fun st known => Unrejecting.get.bind fun s => .pure _)
      fun r ordinary => ih r (h r ordinary)
  | update id parameters next ih =>
    exact called id (fun st _ => unrejecting_update honest st parameters)
      fun r ordinary => ih r (h r ordinary)
  | commit required next ih =>
    have told := gives_reply fun s => (ends_commit ctx.database required s.1 s.2).answered
    exact (unrejecting_reply _).bind_of_gives told
      fun r said => ih r (h r said)
  | rollback required next ih =>
    have told := gives_reply fun s => (ends_rollback ctx.database required s.1 s.2).answered
    exact (unrejecting_reply _).bind_of_gives told
      fun r said => ih r (h r said)
  | clear next ih => exact (Unrejecting.modify _).onFirst.bind fun _ => ih h
  | keep value next ih => exact (Unrejecting.modify _).onSecond.bind fun _ => ih h

theorem unrejecting_queryWithin (honest : ctx.Unrejecting) (nesting : Nat)
    (known : st.Unrejecting ctx.database) (bounds : RowBounds) (key : CacheKey)
    (bound : BoundSql) :
    Action.Unrejecting (queryWithin ctx nesting st bounds key bound) := by
  induction nesting generalizing st bounds key bound with
  | zero => exact unrejecting_queryVia honest (fun _ _ _ => .fail rfl) bounds key bound
  | succ nesting ih =>
    refine unrejecting_queryVia honest (fun mapper maps rows => ?_) bounds key bound
    exact unrejecting_hydrateVia honest (fun st known => ih known) (known mapper maps rows)

theorem unrejecting_queryWithKey (honest : ctx.Unrejecting) (known : st.Unrejecting ctx.database)
    (bounds : RowBounds) (key : CacheKey) (bound : BoundSql) :
    Action.Unrejecting (queryWithKey ctx st bounds key bound) :=
  unrejecting_queryWithin honest ctx.nesting known bounds key bound

end Runner
end StatementCache
