import StatementCache.Proofs.Overlay.Settled
import StatementCache.Proofs.Sessions.Busy

/-! How often the database is asked. For units of work one after the other over a plain map, a
select sends a query exactly when neither its own unit of work nor those that have committed before
make its result known. -/
namespace StatementCache.Application

open StatementCache.Action

variable {a : Application} {ref : CacheRef} {name : String} {units : List UnitOfWork}
  {requests : List Request} {r : Runner} {os : Overlays} {dirty : Bool} {w : World}

theorem Busy.filed (h : a.Busy ref requests r os dirty w) : os.Holds fun _ _ _ => True := by
  intro j o found
  refine ⟨?_, fun _ _ _ => trivial⟩
  by_cases same : j = ref.serial
  · subst same
    have target := h.target
    simp only [Overlays.overlay, found, Option.getD_some] at target
    rw [target]
  · rw [h.only j same] at found
    cases found

theorem Shelf.settled (shelf : a.Shelf ref name units w) (os : Overlays)
    {change : Overlay → (CacheKey → Option Entry) → CacheKey → Option Entry}
    (idle : ∀ old, change (.fresh ref) old = old) :
    Overlays.settled change os.bySerial.entries w ref.serial =
      change (os.overlay ref) (w.contents ref.serial) := by
  unfold Overlays.settled Overlays.overlay Table.get?
  cases Table.find ref.serial os.bySerial.entries with
  | none => exact (idle _).symm
  | some o =>
    dsimp only [Option.getD_some]
    rw [shelf.shaped, Option.isSome_some, if_pos rfl]

theorem published_fresh (old : CacheKey → Option Entry) :
    (Overlay.fresh ref).published old = old := by
  funext key
  simp [Overlay.published, Overlay.written, Overlay.fresh]

theorem released_fresh (old : CacheKey → Option Entry) :
    (Overlay.fresh ref).released old = old := by
  funext key
  simp [Overlay.released, Overlay.fresh]

/-- Under every key is published what is held, or nothing that the cache has served, or what there
was if nothing was written. -/
theorem published_entry (h : a.Busy ref requests r os dirty w) (key : CacheKey) :
    let e := (os.overlay ref).published (w.contents ref.serial) key
    (a.Held ref requests w key ∧ ∃ rows, e = some (.rows rows)) ∨
      (¬a.Held ref requests w key ∧ (Wrote requests ∨ ¬w.Serves ref.serial key) ∧
        (e = none ∨ e = some .placeholder)) ∨
      (¬a.Held ref requests w key ∧ ¬Wrote requests ∧ e = w.contents ref.serial key) := by
  unfold Overlay.published Overlay.written
  by_cases held : a.Held ref requests w key
  · obtain ⟨rows, -, pending⟩ := h.held key held
    rw [pending]
    exact .inl ⟨held, rows, rfl⟩
  · rw [(h.free key held).2]
    dsimp only
    by_cases missed : key ∈ (os.overlay ref).missed
    · rw [if_pos missed]
      exact .inr (.inl ⟨held, .inr (h.missed key missed), .inr rfl⟩)
    · rw [if_neg missed]
      by_cases wrote : Wrote requests
      · rw [h.clears_iff.mpr wrote]
        exact .inr (.inl ⟨held, .inl wrote, .inl rfl⟩)
      · have clean : ¬(os.overlay ref).clearOnCommit = true := fun c => wrote (h.clears_iff.mp c)
        rw [if_neg clean]
        exact .inr (.inr ⟨held, wrote, rfl⟩)

/-- What was selected since the last write is shared from now on; what was shared before stays if
nothing was written. -/
theorem shelf_published {u : UnitOfWork} (h : a.Busy ref u.requests r os dirty w)
    (shelf : a.Shelf ref name units w) (commits : u.Commits) (host : Host) :
    a.Shelf ref name (units ++ [u]) (Overlays.commit (World.find? host) (os, w)).state.2 := by
  have became := Overlays.becomes_commit h.filed shelf.mapped host
  have contents := shelf.settled os published_fresh
  rw [← became.contents_eq] at contents
  generalize (Overlays.commit (World.find? host) (os, w)).state.2 = w' at became contents
  have entry (key : CacheKey) := published_entry h key
  dsimp only at entry
  rw [← contents] at entry
  refine ⟨became.mapped shelf.mapped, ?_, fun key e found => ?_, fun key => ?_⟩
  · rw [became.shape_eq]
    exact shelf.shaped
  · rcases entry key with ⟨-, rows, there⟩ | ⟨-, -, none | some⟩ | ⟨-, -, same⟩
    · rw [there] at found
      cases found
      exact .inl ⟨rows, rfl⟩
    · rw [none] at found
      cases found
    · rw [some] at found
      cases found
      exact .inr rfl
    · rw [same] at found
      exact shelf.plainly key e found
  · rw [shared_concat, and_iff_right commits, and_iff_right commits, ← shelf.serves_iff]
    unfold Held at entry
    rcases entry key with ⟨held, rows, there⟩ | ⟨unheld, counts, gone⟩ | ⟨unheld, unwritten, same⟩
    · exact iff_of_true ⟨rows, there⟩ (.inl held.1)
    · refine iff_of_false ?_ ?_
      · rintro ⟨rows, there⟩
        rcases gone with none | some
        · rw [none] at there
          cases there
        · rw [some] at there
          cases there
      · rintro (selected | ⟨serves, unwritten⟩)
        · exact unheld ⟨selected, counts⟩
        · exact counts.elim unwritten fun absent => absent serves
    · have serves_same : w'.Serves ref.serial key ↔ w.Serves ref.serial key := by
        unfold World.Serves
        rw [same]
      rw [serves_same, and_iff_left unwritten]
      refine (or_iff_right_of_imp fun selected => ?_).symm
      by_contra absent
      exact unheld ⟨selected, .inr absent⟩

theorem shelf_released {u : UnitOfWork} (h : a.Busy ref u.requests r os dirty w)
    (shelf : a.Shelf ref name units w) (undone : ¬u.Commits) (host : Host) :
    a.Shelf ref name (units ++ [u]) (Overlays.rollback (World.find? host) (os, w)).state.2 := by
  have became := Overlays.becomes_rollback h.filed shelf.mapped host
  have contents := shelf.settled os released_fresh
  rw [← became.contents_eq] at contents
  generalize (Overlays.rollback (World.find? host) (os, w)).state.2 = w' at became contents
  refine ⟨became.mapped shelf.mapped, ?_, fun key e found => ?_, fun key => ?_⟩
  · rw [became.shape_eq]
    exact shelf.shaped
  · rw [contents, Overlay.released] at found
    split at found
    · cases found
    · exact shelf.plainly key e found
  · have stays : ¬(u.Commits ∧ Wrote u.requests) := fun h => undone h.1
    have none : ¬(u.Commits ∧ a.Selected key u.requests) := fun h => undone h.1
    rw [shared_concat, or_iff_right none, and_iff_left stays, ← shelf.serves_iff]
    unfold World.Serves
    rw [contents, Overlay.released]
    split
    · rename_i missed
      refine iff_of_false ?_ (h.missed key missed)
      rintro ⟨rows, there⟩
      cases there
    · exact Iff.rfl

structure Between (a : Application) (ref : CacheRef) (name : String) (units : List UnitOfWork)
    (s : Scene) : Prop where
  count : s.sessions.length = units.length
  shelf : a.Shelf ref name units s.world

inductive During (a : Application) (ref : CacheRef) (name : String) (units : List UnitOfWork)
    (requests : List Request) (s : Scene) : Prop where
  | intro (r : Runner) (os : Overlays) (dirty : Bool)
      (there : s.sessions[units.length]? = some (.sharing r os dirty))
      (count : s.sessions.length = units.length + 1)
      (busy : a.Busy ref requests r os dirty s.world) (shelf : a.Shelf ref name units s.world)

variable {s : Scene}

theorem during_opened (enabled : a.catalog.settings.cacheEnabled = true)
    (scope : a.catalog.settings.localCacheScope = .session) (h : a.Between ref name units s) :
    a.During ref name units [] (a.act s .opened) := by
  have opened : Session.opened a.catalog =
      .sharing (.ofSettings a.catalog.settings) .empty false := by
    simp only [Session.opened, Catalog.newExecutor, Executor.ofSettings, enabled, if_true]
    rfl
  refine .intro _ _ _ ?_ ?_ (busy_opened scope) h.shelf
  · simp only [act, ← h.count, List.getElem?_concat_length, opened]
  · simp only [act, List.length_append, List.length_singleton, h.count]

theorem during_request (unfailing : a.Unfailing) (h : a.During ref name units requests s)
    {request : Request} (uses : a.Uses ref request) :
    a.During ref name units (requests ++ [request])
      (a.act s (.called units.length request.1 request.2)) := by
  obtain ⟨r, os, dirty, there, count, busy, shelf⟩ := h
  have range : units.length < s.sessions.length := by omega
  obtain ⟨host, call⟩ := request
  have next {r' : Runner} {os' : Overlays} {dirty' : Bool} {w' : World}
      (done : (Session.perform (a.context units.length host) call
        (.sharing r os dirty, s.world)).state = (.sharing r' os' dirty', w'))
      (busy' : a.Busy ref (requests ++ [(host, call)]) r' os' dirty' w')
      (contents : w'.contents = s.world.contents) (shape : w'.shape = s.world.shape) :
      a.During ref name units (requests ++ [(host, call)])
        (a.act s (.called units.length host call)) := by
    rw [act_called there, done]
    refine .intro r' os' dirty' (List.getElem?_set_self range) ?_ busy' ?_
    · rw [List.length_set, count]
    · exact shelf.elsewhere contents shape
  cases call with
  | select sid parameters bounds =>
    obtain ⟨st, known, reads⟩ := uses
    obtain ⟨rows, r', os', w', answered, busy', contents, shape, -⟩ :=
      select_busy busy shelf unfailing units.length host known reads parameters bounds
    refine next ?_ busy' contents shape
    rw [Session.perform, state_discard, answered]
  | update sid parameters =>
    obtain ⟨st, known, bound, flushes⟩ := uses
    obtain ⟨r', os', w', updated, busy', contents, shape⟩ :=
      update_busy busy units.length host known bound flushes parameters
    refine next ?_ busy' contents shape
    rw [Session.perform, state_discard, updated]
  | commit force => exact uses.elim
  | rollback force => exact uses.elim
  | clearCache => exact uses.elim
  | close => exact uses.elim

theorem during_begun (enabled : a.catalog.settings.cacheEnabled = true)
    (scope : a.catalog.settings.localCacheScope = .session) (unfailing : a.Unfailing)
    (h : a.Between ref name units s) (uses : ∀ request ∈ requests, a.Uses ref request) :
    a.During ref name units requests (a.resume s (UnitOfWork.begun requests units.length)) := by
  induction requests using List.reverseRecOn with
  | nil => exact during_opened enabled scope h
  | append_singleton requests request ih =>
    rw [UnitOfWork.begun_concat, resume_concat]
    apply during_request unfailing
    · exact ih fun r mem => uses r (List.mem_append_left _ mem)
    · exact uses request (List.mem_append_right _ (List.mem_singleton_self request))

theorem durable_of_unfailing (unfailing : a.Unfailing) (session : Nat) (host : Host) (force : Bool)
    (isOpen : r.closed = false) (os : Overlays) (dirty : Bool) (w : World) :
    Session.Durable (a.context session host) force (.sharing r os dirty, w) := by
  have answered : ((a.connect session).runBoundary .commit w).result = .ok () := by
    unfold Database.runBoundary
    cases there : (a.connect session).boundary .commit with
    | none => rfl
    | some answer => exact unfailing.ends session .commit answer _ there
  change (Runner.commit (a.connect session) (dirty || force) (r, w)).result = .ok ()
  rw [Runner.commit_apply, isOpen, if_neg Bool.false_ne_true]
  cases dirty || force with
  | false => rfl
  | true => simp only [if_true, answered]

theorem shelf_ended {u : UnitOfWork} (unfailing : a.Unfailing) (ends : u.ending.2.Ends)
    (h : a.Busy ref u.requests r os dirty w) (shelf : a.Shelf ref name units w) (session : Nat) :
    a.Shelf ref name (units ++ [u]) (Session.perform (a.context session u.ending.1) u.ending.2
      (.sharing r os dirty, w)).state.2 := by
  obtain ⟨requests, host, call⟩ := u
  cases call with
  | select _ _ _ => exact ends.elim
  | update _ _ => exact ends.elim
  | clearCache => exact ends.elim
  | commit force =>
    have durable := durable_of_unfailing unfailing session host force h.ready.isOpen os dirty w
    have same := Runner.caches_commit (a.connect session) (dirty || force) r w
    have contents := World.contents_eq_of_caches same
    have shape := World.shape_eq_of_caches same
    dsimp only
    rw [Session.perform, Session.world_commit_of_durable durable]
    exact shelf_published (h.elsewhere contents) (shelf.elsewhere contents shape) trivial host
  | rollback force =>
    have same := Runner.caches_rollback (a.connect session) (dirty || force) r w
    have contents := World.contents_eq_of_caches same
    have shape := World.shape_eq_of_caches same
    have done := shelf_released (u := ⟨requests, host, .rollback force⟩) (h.elsewhere contents)
      (shelf.elsewhere contents shape) not_false host
    dsimp only
    rw [Session.perform, Session.rollback_apply]
    dsimp only
    split
    · exact done
    · exact done
  | close =>
    cases written : dirty with
    | true =>
      have wrote : Wrote requests := h.dirty_iff.mp written
      have same := Runner.caches_close (a.connect session) true r w
      have contents := World.contents_eq_of_caches same
      have shape := World.shape_eq_of_caches same
      exact shelf_released (u := ⟨requests, host, .close⟩) (h.elsewhere contents)
        (shelf.elsewhere contents shape) (fun clean => clean wrote) host
    | false =>
      have clean : ¬Wrote requests := fun wrote => by
        rw [← h.dirty_iff, written] at wrote
        cases wrote
      have published := shelf_published (u := ⟨requests, host, .close⟩) h shelf clean host
      have same := Runner.caches_close (a.connect session) false r
        (Overlays.commit (World.find? host) (os, w)).state.2
      exact published.elsewhere (World.contents_eq_of_caches same) (World.shape_eq_of_caches same)

theorem between_ended {u : UnitOfWork} (unfailing : a.Unfailing) (ends : u.ending.2.Ends)
    (h : a.During ref name units u.requests s) :
    a.Between ref name (units ++ [u])
      (a.act s (.called units.length u.ending.1 u.ending.2)) := by
  obtain ⟨r, os, dirty, there, count, busy, shelf⟩ := h
  rw [act_called there]
  refine ⟨?_, shelf_ended unfailing ends busy shelf units.length⟩
  simp only [List.length_set, count, List.length_append, List.length_singleton]

/-- After every number of units of work the cache serves what they share. -/
theorem between_serial (enabled : a.catalog.settings.cacheEnabled = true)
    (scope : a.catalog.settings.localCacheScope = .session) (unfailing : a.Unfailing)
    (mapped : w.Mapped) (shaped : w.shape ref.serial = some (.base name))
    (empty : ∀ key, w.contents ref.serial key = none) (fits : ∀ u ∈ units, a.Fits ref u) :
    a.Between ref name units (a.run w (UnitOfWork.serial 0 units)) := by
  induction units using List.reverseRecOn with
  | nil =>
    refine ⟨rfl, mapped, shaped, fun key e found => ?_, fun key => ?_⟩
    · rw [run, UnitOfWork.serial, resume_nil, empty] at found
      cases found
    · refine iff_of_false ?_ not_lately_nil
      rintro ⟨rows, found⟩
      rw [run, UnitOfWork.serial, resume_nil, empty] at found
      cases found
  | append_singleton units u ih =>
    have fit := fits u (List.mem_append_right _ (List.mem_singleton_self u))
    have before := ih fun u mem => fits u (List.mem_append_left _ mem)
    rw [UnitOfWork.serial_concat, Nat.zero_add, run, resume_append, UnitOfWork.moves, resume_concat]
    exact between_ended unfailing fit.ends (during_begun enabled scope unfailing before fit.uses)

/-- For units of work one after the other over an empty map: every select answers, and it sends its
query, once, exactly when its result is not known. It is known when the key was selected in the unit
of work with no write since, or when nothing was written in it and the units before it share the
key. -/
theorem query_sent_iff_unknown (enabled : a.catalog.settings.cacheEnabled = true)
    (scope : a.catalog.settings.localCacheScope = .session) (unfailing : a.Unfailing)
    (mapped : w.Mapped) (shaped : w.shape ref.serial = some (.base name))
    (empty : ∀ key, w.contents ref.serial key = none) (fits : ∀ u ∈ units, a.Fits ref u)
    (uses : ∀ request ∈ requests, a.Uses ref request) (host : Host) {sid : String} {st : Statement}
    (known : a.catalog.statement sid = .ok st) (reads : st.Reads ref) (parameters : List Value)
    (bounds : RowBounds) :
    let s := a.run w (UnitOfWork.serial 0 units ++ UnitOfWork.begun requests units.length)
    let bound := st.source parameters
    let key := a.keyOf st bounds bound
    ∃ x, s.sessions[units.length]? = some x ∧
      let o := Session.selectList (a.context units.length host) sid parameters bounds (x, s.world)
      (∃ rows, o.result = .ok rows) ∧
        (a.Selected key requests ∨ ¬Wrote requests ∧ a.Shared key units →
          o.state.2.log = s.world.log) ∧
        (¬(a.Selected key requests ∨ ¬Wrote requests ∧ a.Shared key units) →
          o.state.2.log = s.world.log ++ [.query bound.sql bound.parameters]) := by
  intro s bound key
  have before := between_serial enabled scope unfailing mapped shaped empty fits
  have during : a.During ref name units requests s := by
    have begun := during_begun enabled scope unfailing before uses
    rwa [run, ← resume_append] at begun
  obtain ⟨r, os, dirty, there, -, busy, shelf⟩ := during
  obtain ⟨rows, r', os', w', answered, -, -, -, log⟩ :=
    select_busy busy shelf unfailing units.length host known reads parameters bounds
  refine ⟨_, there, ?_⟩
  dsimp only
  rw [answered]
  unfold Known at log
  rw [shelf.serves_iff] at log
  refine ⟨⟨rows, rfl⟩, fun told => ?_, fun untold => ?_⟩
  · exact (log.resolve_right fun sent => sent.1 told).2
  · exact (log.resolve_left fun silent => untold silent.1).2

theorem unfailing_counting : (pair fun _ => counting).Unfailing where
  answers _ _ _ _ := ⟨_, rfl⟩
  executes _ _ _ _ := ⟨_, rfl⟩
  ends _ _ _ _ there := by cases there

def asking : Request := (.calm, .select "find" [.integer 7] .default)

def rewriting : Request := (.calm, .update "rename" [])

def rolledBack : List UnitOfWork :=
  [⟨[asking], (.calm, .commit false)⟩, ⟨[rewriting], (.calm, .rollback false)⟩]

theorem reads_findNames : findNames.Reads ⟨0, "names"⟩ :=
  ⟨rfl, rfl, rfl, rfl, fun h => by cases h.1⟩

theorem fits_rolledBack : ∀ u ∈ rolledBack, (pair fun _ => counting).Fits ⟨0, "names"⟩ u := by
  intro u mem
  have either : u = ⟨[asking], (.calm, .commit false)⟩ ∨
      u = ⟨[rewriting], (.calm, .rollback false)⟩ := by
    simpa [rolledBack] using mem
  rcases either with rfl | rfl
  · refine ⟨fun r mem => ?_, trivial⟩
    rw [List.mem_singleton.mp mem]
    exact ⟨findNames, rfl, reads_findNames⟩
  · refine ⟨fun r mem => ?_, trivial⟩
    rw [List.mem_singleton.mp mem]
    exact ⟨renameNames, rfl, rfl, rfl⟩

/-- What the first unit of work has read is served after the second, until there is a write. -/
theorem query_sent_iff_unknown_of_rolledBack :
    let a := pair fun _ => counting
    let s := a.run (World.single (Cache.base "names"))
      (UnitOfWork.serial 0 rolledBack ++ UnitOfWork.begun [] 2)
    ∃ x, s.sessions[2]? = some x ∧
      let o := Session.selectList (a.context 2 .calm) "find" [.integer 7] .default (x, s.world)
      (∃ rows, o.result = .ok rows) ∧ o.state.2.log = s.world.log := by
  have known : (pair fun _ => counting).catalog.statement "find" = .ok findNames := rfl
  have nothing : ∀ request ∈ ([] : List Request),
      (pair fun _ => counting).Uses ⟨0, "names"⟩ request := by simp
  obtain ⟨x, there, answered, silent, -⟩ := query_sent_iff_unknown rfl rfl unfailing_counting
    (World.mapped_base "names") rfl (fun _ => rfl) fits_rolledBack nothing .calm known
    reads_findNames [.integer 7] .default
  refine ⟨x, there, answered, silent (.inr ⟨not_wrote_nil, ?_⟩)⟩
  refine ⟨[], ⟨[asking], (.calm, .commit false)⟩, [⟨[rewriting], (.calm, .rollback false)⟩], rfl,
    ⟨trivial, ?_⟩, fun u mem commits => ?_⟩
  · exact ⟨[], asking, [], rfl, ⟨findNames, rfl, rfl⟩, by simp⟩
  · rw [List.mem_singleton.mp mem] at commits
    exact commits.1

end StatementCache.Application
