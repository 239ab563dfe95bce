import StatementCache.Proofs.Sessions.Flush

/-! A committed write makes the results in its cache old. Sessions that are opened after the commit
of a unit of work that cleared a cache get results of that cache from queries that were sent after
the write, or results that another session had read before the write and published after the
commit. -/
namespace StatementCache.Application

/-- Rows that a session older than the write had read before it and published after the commit:
one of its commits or closes found them buffered for the cache. -/
inductive PublishedLate (a : Application) (ref : CacheRef) (writer : Nat)
    (executed committed : Scene) (moves : List Move) (key : CacheKey) (rows : Rows) : Prop where
  | intro (i : Nat) (other : i ≠ writer) (older : i < executed.sessions.length)
      (read : a.Obtained i [] executed.world.log key rows)
      (earlier : List Move) (host : Host) (call : Call) (later : List Move)
      (moves_eq : moves = earlier ++ .called i host call :: later) (publishes : call.Publishes)
      (x : Session) (there : (a.resume committed earlier).sessions[i]? = some x)
      (buffered : (x.overlays.overlay ref).pending.get? key = some (.rows rows))

variable {a : Application} {w : World} {ref : CacheRef} {writer : Nat}

def Current (a : Application) (ref : CacheRef) (writer : Nat) (executed committed : Scene)
    (moves : List Move) (log : List Event) (key : CacheKey) (rows : Rows) : Prop :=
  (∃ i, a.Obtained i executed.world.log log key rows) ∨
    a.PublishedLate ref writer executed committed moves key rows

section

variable {executed committed : Scene} {moves : List Move}

theorem Current.mono {log log' : List Event} {key : CacheKey} {rows : Rows}
    (h : a.Current ref writer executed committed moves log key rows) (longer : log <+: log')
    (more : List Move) :
    a.Current ref writer executed committed (moves ++ more) log' key rows := by
  rcases h with ⟨i, obtained⟩ | late
  · exact .inl ⟨i, obtained.mono longer⟩
  · obtain ⟨i, other, older, read, earlier, host, call, later, rfl, publishes, x, there, buffered⟩ :=
      late
    refine .inr ⟨i, other, older, read, earlier, host, call, later ++ more, ?_, publishes, x, there,
      buffered⟩
    rw [List.append_assoc, List.cons_append]

theorem Current.grown {log log' : List Event} {key : CacheKey} {rows : Rows}
    (h : a.Current ref writer executed committed moves log key rows) (longer : log <+: log') :
    a.Current ref writer executed committed moves log' key rows := by
  have more := h.mono longer []
  rwa [List.append_nil] at more

theorem current_grows : (Ledger.rowsIn ref.serial
    (a.Current ref writer executed committed moves)).Grows :=
  Ledger.rowsIn_grows fun _ _ _ _ longer h => h.grown longer

theorem current_of_buffered {i : Nat} {x : Session} {log : List Event} {key : CacheKey}
    {rows : Rows} (there : (a.resume committed moves).sessions[i]? = some x)
    (read : a.Obtained i (startOf writer executed.sessions.length executed.world.log i) log key rows)
    (point : executed.world.log <+: log)
    (buffered : (x.overlays.overlay ref).pending.get? key = some (.rows rows)) (host : Host)
    {call : Call} (publishes : call.Publishes) :
    a.Current ref writer executed committed (moves ++ [.called i host call]) log key rows := by
  unfold startOf at read
  split at read
  · exact .inl ⟨i, read⟩
  · rename_i old
    rw [not_or, Nat.not_le] at old
    rcases read.before_or_after point with after | before
    · exact .inl ⟨i, after⟩
    · exact .inr ⟨i, old.1, old.2, before, moves, host, call, [], rfl, publishes, x, there, buffered⟩

theorem buffered_current {i : Nat} {x : Session} {s : Scene}
    (h : x.overlays.Holds
      (a.reading ref.serial (startOf writer executed.sessions.length executed.world.log) i
        s.world.log))
    (there : (a.resume committed moves).sessions[i]? = some x)
    (point : executed.world.log <+: s.world.log) (host : Host) {call : Call}
    (publishes : call.Publishes) :
    x.overlays.Holds (Ledger.rowsIn ref.serial (fun log k rows =>
      a.Obtained i (startOf writer executed.sessions.length executed.world.log i) log k rows ∧
        a.Current ref writer executed committed (moves ++ [.called i host call]) log k rows)
      s.world.log) := by
  intro j o filed
  refine ⟨(h j o filed).1, fun k e pending same rows eq => ?_⟩
  subst same eq
  have read := (h ref.serial o filed).2 k _ pending rfl rows rfl
  refine ⟨read, current_of_buffered there read point ?_ host publishes⟩
  have own : x.overlays.overlay ref = o := by
    simp only [Overlays.overlay, filed, Option.getD_some]
  rw [own]
  exact pending

theorem current_act (h : a.InCustody (startOf writer executed.sessions.length executed.world.log) w
      (a.reading ref.serial (startOf writer executed.sessions.length executed.world.log))
      (Ledger.rowsIn ref.serial (a.Current ref writer executed committed moves))
      (a.resume committed moves))
    (older : executed.sessions.length ≤ (a.resume committed moves).sessions.length)
    (point : executed.world.log <+: (a.resume committed moves).world.log) (m : Move) :
    a.InCustody (startOf writer executed.sessions.length executed.world.log) w
      (a.reading ref.serial (startOf writer executed.sessions.length executed.world.log))
      (Ledger.rowsIn ref.serial (a.Current ref writer executed committed (moves ++ [m])))
      (a.resume committed (moves ++ [m])) := by
  rw [resume_concat]
  generalize scene : a.resume committed moves = s at h older point ⊢
  have current : a.InCustody (startOf writer executed.sessions.length executed.world.log) w
      (a.reading ref.serial (startOf writer executed.sessions.length executed.world.log))
      (Ledger.rowsIn ref.serial (a.Current ref writer executed committed (moves ++ [m]))) s := by
    refine h.recast (fun i x there => (h.sessions i x there).buffered) fun j c found => ?_
    exact Ledger.holds_rowsIn (h.shared j c found) fun _ _ held =>
      held.mono (List.prefix_refl _) [m]
  have persists := reading_persists (a := a) ref.serial
    (startOf writer executed.sessions.length executed.world.log)
  cases m with
  | opened =>
    apply inCustody_opened current
    rw [startOf_later older]
    exact point
  | called i host call =>
    by_cases publishes : call.Publishes
    · cases found : s.sessions[i]? with
      | none => simpa only [act, found] using current
      | some x =>
        -- the session that publishes is asked for what it buffers to be current as well
        have buffered := buffered_current (current.sessions i x found).buffered (scene ▸ found)
          point host publishes
        refine inCustody_publishing persists current_grows current found buffered
          (fun _ _ _ _ held same rows eq => (held same rows eq).1) ?_
          (Ledger.rowsIn_publishes fun _ _ _ held => held.2) host publishes
        exact Ledger.rowsIn_persists fun log log' k rows longer held =>
          ⟨held.1.mono longer, held.2.grown longer⟩
    · apply inCustody_act persists current_grows current
      refine ⟨(fun eq => by cases eq), fun l _ _ _ _ => reading_receives ref.serial _ l,
        fun l host' call' eq publishes' => ?_⟩
      cases eq
      exact absurd publishes' publishes

theorem Flushes.writer_lt {before : Scene} (h : a.Flushes ref writer before executed committed) :
    writer < executed.sessions.length := by
  obtain ⟨x, there, -, host, id, parameters, -, -, -, -, rfl, -⟩ := h
  exact Nat.lt_of_lt_of_le (List.getElem?_eq_some_iff.mp there).1 (length_act _)

theorem Flushes.length_le {before : Scene} (h : a.Flushes ref writer before executed committed) :
    executed.sessions.length ≤ committed.sessions.length := by
  obtain ⟨-, -, -, -, -, -, -, -, -, -, -, between, -, -, -, host, force, -, rfl⟩ := h
  exact Nat.le_trans (length_resume between) (length_act _)

/-- After the commit the cache holds only current rows, whatever the sessions do. -/
theorem current_run (builtIn : w.BuiltIn)
    (uncopied : ∀ c, w.shape ref.serial = some c → c.copies = false)
    (enabled : a.catalog.settings.cacheEnabled = true) (before : List Move)
    (flushes : a.Flushes ref writer (a.run w before) executed committed) (moves : List Move) :
    a.InCustody (startOf writer executed.sessions.length executed.world.log) w
      (a.reading ref.serial (startOf writer executed.sessions.length executed.world.log))
      (Ledger.rowsIn ref.serial (a.Current ref writer executed committed moves))
      (a.resume committed moves) := by
  have older (moves : List Move) :
      executed.sessions.length ≤ (a.resume committed moves).sessions.length :=
    Nat.le_trans flushes.length_le (length_resume moves)
  have writing := flushes.writer_lt
  obtain ⟨x, there, isOpen, host, id, parameters, st, known, bound, flushes, executed_eq, between,
    lasts, y, still, host', force, durable, committed_eq⟩ := flushes
  have begun : a.InCustody (fun _ => []) w (a.reading ref.serial fun _ => [])
      .free (a.run w before) :=
    inCustody_reading (inCustody_begun builtIn ref.serial) before
  have working : a.Working w ref writer executed.sessions.length executed.world.log
      (a.resume executed between) := by
    have start := working_executed host parameters begun enabled there isOpen known bound flushes
    dsimp only at start
    rw [← executed_eq] at start
    exact start.resume lasts
  induction moves using List.reverseRecOn with
  | nil =>
    have done := inCustody_act (reading_persists ref.serial _) Ledger.free_grows
      working.custody (working.allows (.called writer host' (.commit force)))
    have shared := shared_committed working uncopied still durable
      (V := a.Current ref writer executed committed []) fun _ _ _ read => .inl ⟨writer, read⟩
    dsimp only at shared
    rw [← committed_eq] at done shared
    exact done.recast (fun i x there => (done.sessions i x there).buffered) shared
  | append_singleton moves m ih =>
    exact current_act ih (older moves)
      (mark_reported ih (Nat.lt_of_lt_of_le writing (older moves))) m

theorem obtained_unshared {before executed committed : Scene} {i : Nat} {x : Session} {host : Host}
    {id : String} {st : Statement} {parameters : List Value} {bounds : RowBounds} {rows : Rows}
    (h : a.InCustody (fun _ => []) w (a.reading ref.serial fun _ => []) .free before)
    (disabled : a.catalog.settings.cacheEnabled = false)
    (flushes : a.Flushes ref writer before executed committed) (moves : List Move)
    (there : (a.resume committed moves).sessions[i]? = some x)
    (later : committed.sessions.length ≤ i) (known : a.catalog.statement id = .ok st)
    (ok : (Session.selectList (a.context i host) id parameters bounds
      (x, (a.resume committed moves).world)).result = .ok rows) :
    a.Obtained i executed.world.log (Session.selectList (a.context i host) id parameters bounds
      (x, (a.resume committed moves).world)).state.2.log
        (a.keyOf st bounds (st.source parameters)) rows := by
  obtain ⟨y, -, -, host', id', parameters', -, -, -, -, rfl, between, -, -, -, last, force, -, rfl⟩ :=
    flushes
  have wrote := inCustody_reading h [.called writer host' (.update id' parameters')]
  have done := inCustody_reading wrote.raise (between ++ [.called writer last (.commit force)])
  rw [resume_concat] at done
  rw [resume_cons, resume_nil] at done
  have held := (inCustody_opened_later done done.onward.grown moves).sessions i x there
  obtain ⟨st', known', served⟩ := served_selectList (reading_persists ref.serial _ i)
    Ledger.free_grows (reading_receives ref.serial _ i) held ok
  cases known.symm.trans known'
  rcases served with obtained | ⟨enabled, -⟩
  · rw [startOf_later later] at obtained
    exact obtained
  · rw [disabled] at enabled
    cases enabled

end

/-- A select of the cache in a session that is opened after the commit gives rows from a query that
was sent after the write, or rows that another session had read before the write and published
after the commit. -/
theorem selected_rows_follow_write {executed committed : Scene} (builtIn : w.BuiltIn)
    (uncopied : ∀ c, w.shape ref.serial = some c → c.copies = false) (before : List Move)
    (flushes : a.Flushes ref writer (a.run w before) executed committed) (moves : List Move)
    {i : Nat} {x : Session} (there : (a.resume committed moves).sessions[i]? = some x)
    (later : committed.sessions.length ≤ i) (host : Host) {id : String} {st : Statement}
    (known : a.catalog.statement id = .ok st) (bound : st.cache = some ref)
    (parameters : List Value) (bounds : RowBounds) {rows : Rows}
    (ok : (Session.selectList (a.context i host) id parameters bounds
      (x, (a.resume committed moves).world)).result = .ok rows) :
    let key := a.keyOf st bounds (st.source parameters)
    (∃ j, a.Obtained j executed.world.log (Session.selectList (a.context i host) id parameters
        bounds (x, (a.resume committed moves).world)).state.2.log key rows) ∨
      a.PublishedLate ref writer executed committed moves key rows := by
  intro key
  cases enabled : a.catalog.settings.cacheEnabled with
  | false =>
    have begun := (inCustody_begun builtIn ref.serial : a.InCustody _ _ _ _ _)
    exact .inl ⟨i, obtained_unshared (inCustody_reading begun before) enabled flushes moves there
      later known ok⟩
  | true =>
    have held := current_run builtIn uncopied enabled before flushes moves
    obtain ⟨st', known', served⟩ := served_selectList (reading_persists ref.serial _ i) current_grows
      (reading_receives ref.serial _ i) (held.sessions i x there) ok
    cases known.symm.trans known'
    rcases served with obtained | ⟨-, ref', bound', shared⟩
    · rw [startOf_later (Nat.le_trans flushes.length_le later)] at obtained
      exact .inl ⟨i, obtained⟩
    · cases bound.symm.trans bound'
      exact shared rfl rows rfl

/-- The answer is how many writes have been reported. -/
def tallying : Database where
  query log _ _ := .ok [[.integer (Int64.ofNat (log.countP fun
    | .execute _ _ => true
    | _ => false))]]
  execute _ _ _ := .ok 1
  boundary _ := some fun _ => .ok ()

def tallied : Application := pair fun _ => tallying

def readEarly : List Move :=
  [.opened, .called 0 .calm (.select "find" [.integer 7] .default), .opened]

def committedEarly : List Move :=
  [.opened, .called 0 .calm (.select "find" [.integer 7] .default), .called 0 .calm (.commit false),
    .opened]

def committedLate : List Move := [.called 0 .calm (.commit false), .opened]

def rewritten (moves : List Move) : Scene :=
  tallied.act (tallied.run (World.single (Cache.base "names")) moves)
    (.called 1 .calm (.update "rename" []))

def recommitted (moves : List Move) : Scene :=
  tallied.act (rewritten moves) (.called 1 .calm (.commit false))

theorem uncopied_base (id : String) :
    ∀ c, (World.single (Cache.base id)).shape 0 = some c → c.copies = false := by
  intro c shaped
  cases shaped
  rfl

/-- What the first session committed is gone with the write of the second: the third session gets
rows of a query of its own. -/
theorem selected_rows_follow_write_of_pair :
    let last := tallied.resume (recommitted committedEarly) [.opened]
    ∃ x, last.sessions[2]? = some x ∧
      let o := Session.selectList (tallied.context 2 .calm) "find" [.integer 7] .default
        (x, last.world)
      let key := tallied.keyOf findNames .default (findNames.source [.integer 7])
      o.result = .ok [[.integer 1]] ∧
        ((∃ j, tallied.Obtained j (rewritten committedEarly).world.log o.state.2.log key
            [[.integer 1]]) ∨
          tallied.PublishedLate ⟨0, "names"⟩ 1 (rewritten committedEarly)
            (recommitted committedEarly) [.opened] key [[.integer 1]]) := by
  have flushes : tallied.Flushes ⟨0, "names"⟩ 1
      (tallied.run (World.single (Cache.base "names")) committedEarly) (rewritten committedEarly)
      (recommitted committedEarly) :=
    .intro (Session.opened tallied.catalog) rfl rfl .calm "rename" [] renameNames rfl rfl rfl rfl []
      trivial _ rfl .calm false rfl rfl
  have known : tallied.catalog.statement "find" = .ok findNames := rfl
  refine ⟨_, rfl, rfl, ?_⟩
  exact selected_rows_follow_write (World.mapped_base "names").builtIn (uncopied_base "names")
    committedEarly flushes [.opened] (i := 2) rfl (Nat.le_refl 2) .calm known rfl [.integer 7]
    .default rfl

/-- The first session has read before the write of the second and commits after it, so the third
gets the rows from before the write. -/
theorem older_session_publishes_late :
    ¬∀ (a : Application) (w : World) (ref : CacheRef) (writer : Nat) (executed committed : Scene)
      (before moves : List Move) (i : Nat) (x : Session) (host : Host) (id : String)
      (st : Statement) (parameters : List Value) (bounds : RowBounds) (rows : Rows),
      w.BuiltIn → (∀ c, w.shape ref.serial = some c → c.copies = false) →
      a.Flushes ref writer (a.run w before) executed committed →
      (a.resume committed moves).sessions[i]? = some x → committed.sessions.length ≤ i →
      a.catalog.statement id = .ok st → st.cache = some ref →
      (Session.selectList (a.context i host) id parameters bounds
        (x, (a.resume committed moves).world)).result = .ok rows →
      ∃ j, a.Obtained j executed.world.log (Session.selectList (a.context i host) id parameters
        bounds (x, (a.resume committed moves).world)).state.2.log
          (a.keyOf st bounds (st.source parameters)) rows := by
  intro claimed
  have flushes : tallied.Flushes ⟨0, "names"⟩ 1
      (tallied.run (World.single (Cache.base "names")) readEarly) (rewritten readEarly)
      (recommitted readEarly) :=
    .intro (Session.opened tallied.catalog) rfl rfl .calm "rename" [] renameNames rfl rfl rfl rfl []
      trivial _ rfl .calm false rfl rfl
  have obtained : ∃ j, tallied.Obtained j [.query "find" [.integer 7], .execute "rename" []]
      [.query "find" [.integer 7], .execute "rename" [], .commit]
      (tallied.keyOf findNames .default (findNames.source [.integer 7])) [[.integer 0]] :=
    claimed tallied (World.single (Cache.base "names")) ⟨0, "names"⟩ 1 (rewritten readEarly)
      (recommitted readEarly) readEarly committedLate 2 (Session.opened tallied.catalog) .calm "find"
      findNames [.integer 7] .default [[.integer 0]] (World.mapped_base "names").builtIn
      (uncopied_base "names") flushes rfl (Nat.le_refl 2) rfl rfl rfl
  -- no query was sent after the write, so there is no room for one in the report
  obtain ⟨j, host, nesting, st, bounds, bound, r, v, asked, -, -, after, reported, selected⟩ :=
    obtained
  obtain ⟨rest, logged⟩ := after
  rw [← logged] at reported
  cases rest with
  | nil => exact absurd reported (by simp)
  | cons event rest =>
    have short := reported.length_le
    simp only [List.length_append, List.length_cons, List.length_nil] at short
    omega

end StatementCache.Application
