import StatementCache.Proofs.Overlay.Settled
import StatementCache.Proofs.Sessions.Boundaries
import StatementCache.Proofs.Sessions.Plain
import StatementCache.Proofs.Sessions.UnitOfWork

/-! A session in a unit of work over a plain map. It keeps and buffers the rows that it has selected
since its last write and that the cache does not serve, so what it does next can be told from its
requests. -/
namespace StatementCache

open StatementCache.Action

def World.Serves (w : World) (serial : Nat) (key : CacheKey) : Prop :=
  ∃ rows, w.contents serial key = some (.rows rows)

@[simp] theorem Overlays.overlay_insert (os : Overlays) (ref : CacheRef) (o : Overlay) :
    overlay ⟨os.bySerial.insert ref.serial o⟩ ref = o := by
  simp [overlay, Table.get?_insert]

theorem Overlays.get?_insert_of_ne {os : Overlays} {serial j : Nat} (other : j ≠ serial)
    (o : Overlay) : (os.bySerial.insert serial o).get? j = os.bySerial.get? j := by
  rw [Table.get?_insert, if_neg (Ne.symm other)]

namespace Coordinator

variable (ctx : Context) {st : Statement} {ref : CacheRef} {r r' : Runner} {os os' : Overlays}
  {w w' w'' : World} {key : CacheKey} {rows : Rows}

theorem query_reads (reads : st.Reads ref) (isOpen : r.closed = false) (bounds : RowBounds)
    (key : CacheKey) (bound : BoundSql) (os : Overlays) (w : World) :
    queryWithKey ctx st bounds key bound (⟨r, os⟩, w) =
      fetch ctx st ref bounds key bound (⟨r, os⟩, w) := by
  rw [query_consults ctx ⟨reads.bound, reads.cached, reads.whole⟩ isOpen,
    Statement.flush_keeps reads.keeps]

theorem query_served (reads : st.Reads ref) (isOpen : r.closed = false)
    (got : Overlays.get (World.find? ctx.host) ref key (os, w) =
      ⟨.ok (some (.rows rows)), (os', w')⟩) (bounds : RowBounds) (bound : BoundSql) :
    queryWithKey ctx st bounds key bound (⟨r, os⟩, w) = ⟨.ok rows, (⟨r, os'⟩, w')⟩ := by
  rw [query_reads ctx reads isOpen]
  simp only [fetch, bind_apply, cachedRows, onOverlays, got, pure_apply]

theorem query_missed (reads : st.Reads ref) (isOpen : r.closed = false)
    (got : Overlays.get (World.find? ctx.host) ref key (os, w) = ⟨.ok none, (os', w')⟩)
    {bounds : RowBounds} {bound : BoundSql}
    (ran : Runner.queryWithKey ctx st bounds key bound (r, w') = ⟨.ok rows, (r', w'')⟩) :
    queryWithKey ctx st bounds key bound (⟨r, os⟩, w) =
      ⟨.ok rows, (⟨r', ⟨os'.bySerial.insert ref.serial
        ((os'.overlay ref).put key (.rows rows))⟩⟩, w'')⟩ := by
  rw [query_reads ctx reads isOpen]
  simp only [fetch, bind_apply, cachedRows, onOverlays, got, pure_apply, onRunner, ran]
  rfl

end Coordinator

namespace Application

def Held (a : Application) (ref : CacheRef) (requests : List Request) (w : World)
    (key : CacheKey) : Prop :=
  a.Selected key requests ∧ (Wrote requests ∨ ¬w.Serves ref.serial key)

structure Shelf (a : Application) (ref : CacheRef) (id : String) (units : List UnitOfWork)
    (w : World) : Prop where
  mapped : w.Mapped
  shaped : w.shape ref.serial = some (.base id)
  plainly : ∀ key e, w.contents ref.serial key = some e →
    (∃ rows, e = .rows rows) ∨ e = .placeholder
  serves_iff : ∀ key, w.Serves ref.serial key ↔ a.Shared key units

/-- A session in a unit of work: what it keeps and what it has buffered are the same rows, and it
knows whether it has written. -/
structure Busy (a : Application) (ref : CacheRef) (requests : List Request) (r : Runner)
    (os : Overlays) (dirty : Bool) (w : World) : Prop where
  ready : r.Ready
  environment : r.environmentId = a.catalog.settings.environmentId
  dirty_iff : dirty = true ↔ Wrote requests
  only : ∀ j, j ≠ ref.serial → os.bySerial.get? j = none
  target : (os.overlay ref).target = ref
  clears_iff : (os.overlay ref).clearOnCommit = true ↔ Wrote requests
  held : ∀ key, a.Held ref requests w key → ∃ rows,
    r.results.find? key = some (.rows rows) ∧
      (os.overlay ref).pending.get? key = some (.rows rows)
  free : ∀ key, ¬a.Held ref requests w key →
    r.results.find? key = none ∧ (os.overlay ref).pending.get? key = none
  missed : ∀ key ∈ (os.overlay ref).missed, ¬w.Serves ref.serial key

variable {a : Application} {ref : CacheRef} {name : String} {units : List UnitOfWork}
  {requests : List Request} {r : Runner} {os : Overlays} {dirty : Bool} {w w' : World}

theorem Shelf.elsewhere (h : a.Shelf ref name units w) (contents : w'.contents = w.contents)
    (shape : w'.shape = w.shape) : a.Shelf ref name units w' := by
  refine ⟨?_, ?_, ?_, ?_⟩
  · exact World.mapped_of_shape shape h.mapped
  · rw [shape]
    exact h.shaped
  · rw [contents]
    exact h.plainly
  · unfold World.Serves
    rw [contents]
    exact h.serves_iff

theorem Busy.elsewhere (h : a.Busy ref requests r os dirty w)
    (contents : w'.contents = w.contents) : a.Busy ref requests r os dirty w' := by
  have same : w'.Serves = w.Serves := by
    unfold World.Serves
    rw [contents]
  have heldSame : a.Held ref requests w' = a.Held ref requests w := by
    unfold Held
    rw [same]
  refine { h with held := ?_, free := ?_, missed := ?_ }
  · rw [heldSame]
    exact h.held
  · rw [heldSame]
    exact h.free
  · rw [same]
    exact h.missed

theorem busy_opened (scope : a.catalog.settings.localCacheScope = .session) :
    a.Busy ref [] (Runner.ofSettings a.catalog.settings) .empty false w := by
  have nothing (key : CacheKey) : ¬a.Held ref [] w key := fun held => not_lately_nil held.1
  refine ⟨⟨rfl, scope, rfl, rfl⟩, rfl, ?_, fun _ _ => rfl, rfl, ?_, ?_, fun _ _ => ⟨rfl, rfl⟩, ?_⟩
  · exact iff_of_false Bool.false_ne_true not_wrote_nil
  · exact iff_of_false Bool.false_ne_true not_wrote_nil
  · exact fun key held => absurd held (nothing key)
  · intro key mem
    cases mem

section

variable {sid : String} {st : Statement} {parameters : List Value} {bounds : RowBounds} {host : Host}

theorem asks_iff (known : a.catalog.statement sid = .ok st) (key : CacheKey) :
    a.Asks key (host, .select sid parameters bounds) ↔
      a.keyOf st bounds (st.source parameters) = key := by
  constructor
  · rintro ⟨st', known', same⟩
    cases known.symm.trans known'
    exact same
  · exact fun same => ⟨st, known, same⟩

theorem wrote_select :
    Wrote (requests ++ [(host, .select sid parameters bounds)]) ↔ Wrote requests := by
  rw [wrote_concat]
  exact or_iff_left not_false

theorem held_select (known : a.catalog.statement sid = .ok st) (key : CacheKey) :
    a.Held ref (requests ++ [(host, .select sid parameters bounds)]) w key ↔
      (a.keyOf st bounds (st.source parameters) = key ∨ a.Selected key requests) ∧
        (Wrote requests ∨ ¬w.Serves ref.serial key) := by
  have stays : ¬Request.Writes (host, .select sid parameters bounds) := not_false
  unfold Held
  rw [wrote_select, selected_concat, asks_iff known, and_iff_left stays]

theorem Busy.step {requests' : List Request} {r' : Runner} {dirty' : Bool} {o : Overlay}
    (h : a.Busy ref requests r os dirty w) (ready : r'.Ready)
    (environment : r'.environmentId = r.environmentId) (dirty_iff : dirty' = true ↔ Wrote requests')
    (target : o.target = (os.overlay ref).target)
    (clears_iff : o.clearOnCommit = true ↔ Wrote requests')
    (held : ∀ key, a.Held ref requests' w key → ∃ rows,
      r'.results.find? key = some (.rows rows) ∧ o.pending.get? key = some (.rows rows))
    (free : ∀ key, ¬a.Held ref requests' w key →
      r'.results.find? key = none ∧ o.pending.get? key = none)
    (missed : ∀ key ∈ o.missed, ¬w.Serves ref.serial key) :
    a.Busy ref requests' r' ⟨os.bySerial.insert ref.serial o⟩ dirty' w := by
  have same : Overlays.overlay ⟨os.bySerial.insert ref.serial o⟩ ref = o :=
    Overlays.overlay_insert os ref o
  refine ⟨ready, environment.trans h.environment, dirty_iff, fun j other => ?_, ?_, ?_, ?_, ?_, ?_⟩
  · rw [Overlays.get?_insert_of_ne other]
    exact h.only j other
  · rw [same]
    exact target.trans h.target
  · rwa [same]
  · rwa [same]
  · rwa [same]
  · rwa [same]

theorem busy_served (h : a.Busy ref requests r os dirty w)
    (known : a.catalog.statement sid = .ok st) (unwritten : ¬Wrote requests)
    (serves : w.Serves ref.serial (a.keyOf st bounds (st.source parameters))) :
    a.Busy ref (requests ++ [(host, .select sid parameters bounds)]) r
      ⟨os.bySerial.insert ref.serial (os.overlay ref)⟩ dirty w := by
  have same (key : CacheKey) :
      a.Held ref (requests ++ [(host, .select sid parameters bounds)]) w key ↔
        a.Held ref requests w key := by
    rw [held_select known]
    refine and_congr_left fun counts => or_iff_right ?_
    rintro rfl
    exact (counts.resolve_left unwritten) serves
  refine h.step h.ready rfl ?_ rfl ?_ (fun key held => ?_) (fun key unheld => ?_) h.missed
  · rw [wrote_select]
    exact h.dirty_iff
  · rw [wrote_select]
    exact h.clears_iff
  · exact h.held key ((same key).mp held)
  · exact h.free key fun held => unheld ((same key).mpr held)

def Noted (ref : CacheRef) (os : Overlays) (w : World) (key : CacheKey) (o : Overlay) : Prop :=
  o = os.overlay ref ∨ o = (os.overlay ref).miss key ∧ ¬w.Serves ref.serial key

namespace Noted

variable {key : CacheKey} {o : Overlay}

theorem target (h : Noted ref os w key o) : o.target = (os.overlay ref).target := by
  rcases h with rfl | ⟨rfl, -⟩
  · rfl
  · exact Overlay.target_miss ..

theorem clearOnCommit (h : Noted ref os w key o) :
    o.clearOnCommit = (os.overlay ref).clearOnCommit := by
  rcases h with rfl | ⟨rfl, -⟩
  · rfl
  · exact Overlay.clearOnCommit_miss ..

theorem pending (h : Noted ref os w key o) : o.pending = (os.overlay ref).pending := by
  rcases h with rfl | ⟨rfl, -⟩
  · rfl
  · exact Overlay.pending_miss ..

theorem missed (h : Noted ref os w key o)
    (old : ∀ k ∈ (os.overlay ref).missed, ¬w.Serves ref.serial k) :
    ∀ k ∈ o.missed, ¬w.Serves ref.serial k := by
  intro k mem
  rcases h with rfl | ⟨rfl, absent⟩
  · exact old k mem
  · rcases Overlay.mem_missed_miss.mp mem with rfl | earlier
    · exact absent
    · exact old k earlier

end Noted

theorem busy_missed (h : a.Busy ref requests r os dirty w)
    (known : a.catalog.statement sid = .ok st)
    (counts : Wrote requests ∨
      ¬w.Serves ref.serial (a.keyOf st bounds (st.source parameters)))
    {r' : Runner} (ready : r'.Ready) (environment : r'.environmentId = r.environmentId)
    {rows : Rows} (kept : ∀ key, r'.results.find? key =
      if a.keyOf st bounds (st.source parameters) = key then some (.rows rows)
      else r.results.find? key)
    {o : Overlay} (noted : Noted ref os w (a.keyOf st bounds (st.source parameters)) o) :
    a.Busy ref (requests ++ [(host, .select sid parameters bounds)]) r'
      ⟨os.bySerial.insert ref.serial
        (o.put (a.keyOf st bounds (st.source parameters)) (.rows rows))⟩ dirty w := by
  have pending (key : CacheKey) :
      (o.put (a.keyOf st bounds (st.source parameters)) (.rows rows)).pending.get? key =
        if a.keyOf st bounds (st.source parameters) = key then some (.rows rows)
        else (os.overlay ref).pending.get? key := by
    rw [Overlay.put, noted.pending, Table.get?_insert]
  refine h.step ready environment ?_ noted.target ?_ (fun key held => ?_) (fun key unheld => ?_)
    (noted.missed h.missed)
  · rw [wrote_select]
    exact h.dirty_iff
  · rw [wrote_select, ← h.clears_iff, ← noted.clearOnCommit]
    exact Iff.rfl
  · rw [held_select known] at held
    rw [kept, pending]
    by_cases same : a.keyOf st bounds (st.source parameters) = key
    · rw [if_pos same, if_pos same]
      exact ⟨rows, rfl, rfl⟩
    · rw [if_neg same, if_neg same]
      exact h.held key ⟨held.1.resolve_left same, held.2⟩
  · rw [held_select known] at unheld
    have other : ¬a.keyOf st bounds (st.source parameters) = key := by
      rintro rfl
      exact unheld ⟨.inl rfl, counts⟩
    rw [kept, pending, if_neg other, if_neg other]
    exact h.free key fun held => unheld ⟨.inr held.1, held.2⟩

def Known (a : Application) (ref : CacheRef) (requests : List Request) (w : World)
    (key : CacheKey) : Prop :=
  a.Selected key requests ∨ ¬Wrote requests ∧ w.Serves ref.serial key

theorem get_busy (h : a.Busy ref requests r os dirty w) (shelf : a.Shelf ref name units w)
    (host : Host) (key : CacheKey) :
    ∃ w', w.Becomes w.contents w' ∧
      ((¬Wrote requests ∧ ∃ rows, w.contents ref.serial key = some (.rows rows) ∧
          Overlays.get (World.find? host) ref key (os, w) = ⟨.ok (some (.rows rows)),
            (⟨os.bySerial.insert ref.serial (os.overlay ref)⟩, w')⟩) ∨
        (Wrote requests ∨ ¬w.Serves ref.serial key) ∧
          ∃ o, Noted ref os w key o ∧
            Overlays.get (World.find? host) ref key (os, w) =
              ⟨.ok none, (⟨os.bySerial.insert ref.serial o⟩, w')⟩) := by
  have shaped : w.shape (os.overlay ref).target.serial = some (.base name) := by
    rw [h.target]
    exact shelf.shaped
  obtain ⟨w', became, got⟩ := Overlays.get_map shaped host key
  rw [h.target] at got
  refine ⟨w', became, ?_⟩
  by_cases serves : w.Serves ref.serial key
  · obtain ⟨rows, found⟩ := serves
    have shown : Option.filter (fun e => !e.isPlaceholder) (some (Entry.rows rows)) =
        some (.rows rows) := rfl
    rw [found, shown] at got
    by_cases wrote : Wrote requests
    · rw [h.clears_iff.mpr wrote] at got
      exact .inr ⟨.inl wrote, os.overlay ref, .inl rfl, got⟩
    · have clean : (os.overlay ref).clearOnCommit = false := by
        rw [← Bool.not_eq_true, h.clears_iff]
        exact wrote
      rw [clean] at got
      exact .inl ⟨wrote, rows, found, got⟩
  · have hidden : Option.filter (fun e => !e.isPlaceholder) (w.contents ref.serial key) = none := by
      cases found : w.contents ref.serial key with
      | none => rfl
      | some e =>
        rcases shelf.plainly key e found with ⟨rows, rfl⟩ | rfl
        · exact absurd ⟨rows, found⟩ serves
        · rfl
    rw [hidden, ite_self] at got
    exact .inr ⟨.inr serves, (os.overlay ref).miss key, .inr ⟨rfl, serves⟩, got⟩

theorem known_iff_held {key : CacheKey} (counts : Wrote requests ∨ ¬w.Serves ref.serial key) :
    a.Known ref requests w key ↔ a.Held ref requests w key := by
  constructor
  · rintro (selected | ⟨unwritten, serves⟩)
    · exact ⟨selected, counts⟩
    · exact absurd serves (counts.resolve_left unwritten)
  · exact fun held => .inl held.1

theorem run_busy (h : a.Busy ref requests r os dirty w) (unfailing : a.Unfailing) (session : Nat)
    (host : Host) (reads : st.Reads ref) (bounds : RowBounds) (key : CacheKey) (bound : BoundSql)
    (same : w'.log = w.log) :
    ∃ rows r' w'', Runner.queryWithKey (a.context session host) st bounds key bound (r, w') =
        ⟨.ok rows, (r', w'')⟩ ∧
      r'.Ready ∧ r'.environmentId = r.environmentId ∧
      (∀ other, r'.results.find? other =
        if key = other then some (.rows rows) else r.results.find? other) ∧
      w''.contents = w'.contents ∧ w''.shape = w'.shape ∧
      (a.Held ref requests w key ∧ w''.log = w.log ∨
        ¬a.Held ref requests w key ∧ w''.log = w.log ++ [.query bound.sql bound.parameters]) := by
  by_cases held : a.Held ref requests w key
  · obtain ⟨rows, kept, -⟩ := h.held key held
    refine ⟨rows, r, w', ?_, h.ready, rfl, fun other => ?_, rfl, rfl, .inl ⟨held, same⟩⟩
    · exact Runner.query_kept (a.context session host) h.ready reads.keeps kept bounds bound w'
    · split
      · rename_i same
        rw [← same]
        exact kept
      · rfl
  · obtain ⟨absent, -⟩ := h.free key held
    obtain ⟨all, sent⟩ := unfailing.answers session (w'.log ++ [.query bound.sql bound.parameters])
      bound.sql bound.parameters
    refine ⟨_, _, _, Runner.query_sent (a.context session host) h.ready reads.keeps reads.plain absent
      bounds sent, ?_, rfl, fun other => ?_, rfl, rfl, .inr ⟨held, ?_⟩⟩
    · exact ⟨h.ready.isOpen, h.ready.scope_eq, h.ready.depth_eq, h.ready.deferred_eq⟩
    · rw [Results.find?_complete, Results.find?_mark]
      split
      · rfl
      · rfl
    · rw [← same]
      rfl

theorem query_busy (h : a.Busy ref requests r os dirty w) (shelf : a.Shelf ref name units w)
    (unfailing : a.Unfailing) (session : Nat) (host : Host)
    (known : a.catalog.statement sid = .ok st) (reads : st.Reads ref) :
    let bound := st.source parameters
    let key := a.keyOf st bounds bound
    ∃ rows r' os' w', Coordinator.queryWithKey (a.context session host) st bounds key bound
        (⟨r, os⟩, w) = ⟨.ok rows, (⟨r', os'⟩, w')⟩ ∧
      a.Busy ref (requests ++ [(host, .select sid parameters bounds)]) r' os' dirty w' ∧
      w'.contents = w.contents ∧ w'.shape = w.shape ∧
      (a.Known ref requests w key ∧ w'.log = w.log ∨
        ¬a.Known ref requests w key ∧ w'.log = w.log ++ [.query bound.sql bound.parameters]) := by
  intro bound key
  have isOpen := h.ready.isOpen
  obtain ⟨w', became, ⟨unwritten, rows, found, got⟩ | ⟨counts, o, noted, got⟩⟩ :=
    get_busy h shelf host key
  · have answered := Coordinator.query_served (a.context session host) reads isOpen got bounds bound
    refine ⟨rows, r, _, w', answered, ?_, became.contents_eq, became.shape_eq, .inl ⟨?_, ?_⟩⟩
    · exact (busy_served h known unwritten ⟨rows, found⟩).elsewhere became.contents_eq
    · exact .inr ⟨unwritten, rows, found⟩
    · exact became.log_eq
  · obtain ⟨rows, r', w'', ran, ready, environment, kept, contents, shape, log⟩ :=
      run_busy h unfailing session host reads bounds key bound became.log_eq
    have answered := Coordinator.query_missed (a.context session host) reads isOpen got ran
    rw [Overlays.overlay_insert, Table.insert_insert] at answered
    have contents := contents.trans became.contents_eq
    refine ⟨rows, r', _, w'', answered, ?_, contents, shape.trans became.shape_eq, ?_⟩
    · exact (busy_missed h known counts ready environment kept noted).elsewhere contents
    · rwa [known_iff_held counts]

/-- A select of a session in a unit of work answers, and sends a query if its result is not
known. -/
theorem select_busy (h : a.Busy ref requests r os dirty w) (shelf : a.Shelf ref name units w)
    (unfailing : a.Unfailing) (session : Nat) (host : Host)
    (known : a.catalog.statement sid = .ok st) (reads : st.Reads ref) (parameters : List Value)
    (bounds : RowBounds) :
    let bound := st.source parameters
    let key := a.keyOf st bounds bound
    ∃ rows r' os' w', Session.selectList (a.context session host) sid parameters bounds
        (.sharing r os dirty, w) = ⟨.ok rows, (.sharing r' os' dirty, w')⟩ ∧
      a.Busy ref (requests ++ [(host, .select sid parameters bounds)]) r' os' dirty w' ∧
      w'.contents = w.contents ∧ w'.shape = w.shape ∧
      (a.Known ref requests w key ∧ w'.log = w.log ∨
        ¬a.Known ref requests w key ∧ w'.log = w.log ++ [.query bound.sql bound.parameters]) := by
  intro bound key
  have key_eq : r.keyOf st bounds bound = key := Runner.keyOf_eq h.environment st bounds bound
  obtain ⟨rows, r', os', w', answered, rest⟩ :=
    query_busy h shelf unfailing session host known reads
  refine ⟨rows, r', os', w', ?_, rest⟩
  have found : (a.context session host).find sid = .ok st := known
  rw [Session.selectList_apply found]
  dsimp only
  rw [key_eq, answered]

theorem update_busy (h : a.Busy ref requests r os dirty w) (session : Nat) (host : Host)
    (known : a.catalog.statement sid = .ok st) (bound : st.cache = some ref)
    (flushes : st.flushCacheRequired = true) (parameters : List Value) :
    ∃ r' os' w', (Session.update (a.context session host) sid parameters
        (.sharing r os dirty, w)).state = (.sharing r' os' true, w') ∧
      a.Busy ref (requests ++ [(host, .update sid parameters)]) r' os' true w' ∧
      w'.contents = w.contents ∧ w'.shape = w.shape := by
  have found : (a.context session host).find sid = .ok st := known
  have wrote : Wrote (requests ++ [(host, .update sid parameters)]) := wrote_concat.mpr (.inr trivial)
  have unselected (key : CacheKey) :
      ¬a.Selected key (requests ++ [(host, .update sid parameters)]) := by
    rw [selected_concat]
    rintro (asks | ⟨-, stays⟩)
    · exact asks
    · exact stays trivial
  have ready : Runner.Ready { r with results := .empty } :=
    ⟨h.ready.isOpen, h.ready.scope_eq, h.ready.depth_eq, h.ready.deferred_eq⟩
  refine ⟨_, _, _, Session.state_update found parameters h.ready.isOpen os dirty w, ?_, rfl, rfl⟩
  rw [Statement.flush_clears bound flushes]
  have cleared : a.Busy ref (requests ++ [(host, .update sid parameters)])
      { r with results := .empty }
      ⟨os.bySerial.insert ref.serial (os.overlay ref).clear⟩ true w := by
    refine h.step ready rfl (iff_of_true rfl wrote) rfl (iff_of_true rfl wrote)
      (fun key held => ?_) (fun _ _ => ⟨rfl, rfl⟩) h.missed
    exact absurd held.1 (unselected key)
  exact cleared.elsewhere rfl

end

end Application
end StatementCache
