import StatementCache.Proofs.Contents.Assembly
import StatementCache.Proofs.Key.Separation
import StatementCache.Proofs.Sessions.Plain
import StatementCache.Proofs.Sessions.Scene
import StatementCache.Proofs.Snapshot.RoundTrip

/-! Shared caches do not show. While the database keeps its answers, every select answers the page
of the database's answer that it asks for, wherever the rows come from. Keys tell parameters apart
up to the nesting of lists only, so this needs that no query with differently nested parameters
has been sent. -/
namespace StatementCache

open StatementCache.Action

def Entry.Carries (V : Rows → Prop) : Entry → Prop
  | .rows r => V r
  | .snapshot bytes => ∃ r, V r ∧ bytes = Snapshot.ofRows r
  | .handle _ => False
  | .placeholder => True

theorem Entry.Carries.mono {V W : Rows → Prop} {e : Entry} (h : e.Carries V)
    (weaker : ∀ r, V r → W r) : e.Carries W := by
  cases e with
  | rows r => exact weaker r h
  | snapshot bytes =>
    obtain ⟨r, valid, same⟩ := h
    exact ⟨r, weaker r valid, same⟩
  | handle h' => exact h
  | placeholder => trivial

theorem Layer.copyable_carries {V : CacheKey → Rows → Prop} (sized : ∀ k r, V k r → r.Sized) :
    Layer.Copyable fun k e => e.Carries (V k) := by
  rintro id k e e' (encoded | decoded) h
  · cases e with
    | rows r =>
      cases encoded
      exact ⟨r, h, rfl⟩
    | snapshot bytes =>
      cases encoded
      exact h
    | handle _ => cases encoded
    | placeholder =>
      cases encoded
      trivial
  · cases e with
    | rows r => cases decoded
    | snapshot bytes =>
      obtain ⟨r, valid, rfl⟩ := h
      simp only [decode, Snapshot.toRows_ofRows (sized k r valid)] at decoded
      cases decoded
      exact valid
    | handle _ => cases decoded
    | placeholder =>
      cases decoded
      trivial

/-- Every cache was assembled from the store and the layers that are always there. -/
def World.Assembled (w : World) : Prop :=
  ∀ serial c, w.caches.get? serial = some c →
    ∃ (b : Blueprint) (host : Host) (before after : World),
      b.build (World.siteAt host 0) CacheFactories.builtIn before = ⟨.ok c, after⟩

namespace Application

/-- All sessions get the same answer to a query whenever they get one. Like all that is in memory,
it has lengths below `2 ^ 64`. -/
def Steady (a : Application) (answer : String → List Value → Rows) : Prop :=
  ∀ session log sql parameters rows, (a.connect session).query log sql parameters = .ok rows →
    rows = answer sql parameters ∧ rows.Sized

/-- The rows are what some query for the key asks for, and the query was reported. -/
inductive Genuine (a : Application) (answer : String → List Value → Rows) (log : List Event)
    (key : CacheKey) (rows : Rows) : Prop where
  | intro (st : Statement) (bounds : RowBounds) (bound : BoundSql)
      (asked : a.Asked st bounds key bound)
      (reported : .query bound.sql bound.parameters ∈ log) (sized : rows.Sized)
      (page_eq : rows = bounds.page (answer bound.sql bound.parameters))

def genuine (a : Application) (answer : String → List Value → Rows) : Ledger :=
  fun log _ key e => e.Carries (a.Genuine answer log key)

variable {a : Application} {answer : String → List Value → Rows} {log log' : List Event}
  {key : CacheKey} {rows : Rows}

theorem Genuine.mono (h : a.Genuine answer log key rows) (longer : log <+: log') :
    a.Genuine answer log' key rows := by
  obtain ⟨st, bounds, bound, asked, reported, sized, page_eq⟩ := h
  exact ⟨st, bounds, bound, asked, longer.subset reported, sized, page_eq⟩

theorem Genuine.sized (h : a.Genuine answer log key rows) : rows.Sized := by
  obtain ⟨_, _, _, _, _, sized, _⟩ := h
  exact sized

/-- Equal keys come from equal queries, as far as they tell them apart. -/
theorem Genuine.page (h : a.Genuine answer log key rows) {st : Statement} {bounds : RowBounds}
    {bound : BoundSql} (key_eq : key = a.keyOf st bounds bound)
    (apart : ∀ other, Event.query bound.sql other ∈ log →
      Value.flattenItems other = Value.flattenItems bound.parameters → other = bound.parameters) :
    rows = bounds.page (answer bound.sql bound.parameters) := by
  obtain ⟨st', bounds', bound', asked, reported, -, page_eq⟩ := h
  obtain ⟨-, same_bounds, same_sql, same_scalars⟩ :=
    Runner.keyOf_injective (asked.key_eq.symm.trans key_eq)
  rw [same_sql] at reported
  have same_parameters := apart bound'.parameters reported same_scalars
  rw [page_eq, same_bounds, same_sql, same_parameters]

theorem Obtained.genuine {session : Nat} {since : List Event} (steady : a.Steady answer)
    (plain : a.Plain) (h : a.Obtained session since log key rows) :
    a.Genuine answer log key rows := by
  obtain ⟨host, nesting, st, bounds, bound, r, w, asked, -, -, -, reported, selected⟩ := h
  obtain ⟨id, known⟩ := asked.known
  rw [Runner.select_plain (plain id st known)] at selected
  cases answered : (a.connect session).query (w.log ++ [.query bound.sql bound.parameters]) bound.sql
      bound.parameters with
  | error e =>
    rw [answered] at selected
    cases selected
  | ok all =>
    rw [answered] at selected
    cases selected
    obtain ⟨all_eq, sized⟩ := steady session _ _ _ all answered
    refine ⟨st, bounds, bound, asked, ?_, sized.page bounds, ?_⟩
    · exact reported.subset (List.mem_append_right _ (List.mem_singleton_self _))
    · rw [all_eq]

theorem genuine_copyable (log : List Event) (serial : Nat) :
    Layer.Copyable (a.genuine answer log serial) :=
  Layer.copyable_carries fun _ _ h => h.sized

theorem genuine_grows : (a.genuine answer).Grows := by
  intro log log' serial c longer h
  refine ⟨h.builtIn, fun _ => genuine_copyable log' serial, fun k e found => ?_⟩
  exact (h.entry k e found).mono fun _ genuine => genuine.mono longer

theorem genuine_persists : (a.genuine answer).Persists :=
  fun _ _ _ _ _ longer h => h.mono fun _ genuine => genuine.mono longer

theorem genuine_receives (steady : a.Steady answer) (plain : a.Plain) (session : Nat)
    (since : List Event) : (a.genuine answer).Receives a session since :=
  fun _ _ _ _ h => h.genuine steady plain

theorem genuine_publishes : (a.genuine answer).Publishes (a.genuine answer) :=
  ⟨fun _ _ _ _ h => h, fun _ _ _ => trivial⟩

/-- In every scene of a run all that is kept, buffered or shared is genuine. -/
theorem inCustody_genuine (steady : a.Steady answer) (plain : a.Plain) {w : World}
    (assembled : w.Assembled) (moves : List Move) :
    a.InCustody (fun _ => []) w (fun _ => a.genuine answer) (a.genuine answer)
      (a.run w moves) := by
  refine inCustody_run (fun _ => genuine_persists) genuine_grows
    (fun i => genuine_receives steady plain i []) (fun _ => genuine_publishes) ?_ moves
  intro serial c found
  obtain ⟨b, host, before, after, built⟩ := assembled serial c found
  have pristine := Blueprint.pristine_of_build built
  exact ⟨pristine.builtIn, fun _ => genuine_copyable _ serial,
    fun k e found => (pristine.entry k e found).elim⟩

/-- In every run a select that succeeds answers its page of the database's answer, unless a query
of the same text with other parameters that flatten to the same scalars was sent. -/
theorem selected_rows_eq_page {w : World} (assembled : w.Assembled) (plain : a.Plain)
    (steady : a.Steady answer) (moves : List Move) {i : Nat} {x : Session}
    (there : (a.run w moves).sessions[i]? = some x) (host : Host) {id : String} {st : Statement}
    (known : a.catalog.statement id = .ok st) (parameters : List Value) (bounds : RowBounds)
    (ok : (Session.selectList (a.context i host) id parameters bounds
      (x, (a.run w moves).world)).result = .ok rows)
    (apart : ∀ other,
      Event.query (st.source parameters).sql other ∈ (Session.selectList (a.context i host) id
        parameters bounds (x, (a.run w moves).world)).state.2.log →
      Value.flattenItems other = Value.flattenItems (st.source parameters).parameters →
      other = (st.source parameters).parameters) :
    rows = bounds.page (answer (st.source parameters).sql (st.source parameters).parameters) := by
  have custody := (inCustody_genuine steady plain assembled moves).sessions i x there
  obtain ⟨st', known', served⟩ := served_selectList genuine_persists genuine_grows
    (genuine_receives steady plain i []) custody ok
  cases known.symm.trans known'
  rcases served with obtained | ⟨-, ref, -, shared⟩
  · exact (obtained.genuine steady plain).page rfl apart
  · exact Genuine.page shared rfl apart

theorem steady_counting : (pair fun _ => counting).Steady counted := by
  intro session log sql parameters rows answered
  cases answered
  have short : 1 < wordBound := by decide
  refine ⟨rfl, short, fun row mem => ?_⟩
  cases List.mem_singleton.mp mem
  exact ⟨short, trivial, trivial⟩

def defaultNames : Cache :=
  ⟨.synchronized (.counted (.lru (.base "names"))),
    (Counters.zero, (Recency.empty Setting.defaultCapacity, Table.empty))⟩

theorem assembled_defaultNames : (World.single defaultNames).Assembled := by
  intro serial c found
  have stored : (Table.empty.insert 0 defaultNames : Table Nat Cache).get? serial = some c := found
  rw [Table.get?_insert] at stored
  split at stored
  · cases stored
    exact ⟨Blueprint.ofId "names", .calm, World.empty, World.empty, by with_unfolding_all rfl⟩
  · cases stored

/-- The second session is served by the cache: one query was sent. -/
theorem selected_rows_eq_page_from_cache :
    let s := (pair fun _ => counting).run (World.single defaultNames)
      [.opened, .called 0 .calm (.select "find" [.integer 7] .default),
        .called 0 .calm (.commit false), .opened]
    ∃ x, s.sessions[1]? = some x ∧
      let o := Session.selectList ((pair fun _ => counting).context 1 .calm) "find" [.integer 7]
        .default (x, s.world)
      o.result = .ok [[.integer 1]] ∧ o.state.2.log = [.query "find" [.integer 7]] ∧
        [[.integer 1]] = RowBounds.default.page (counted "find" [.integer 7]) := by
  refine ⟨_, rfl, rfl, rfl, ?_⟩
  have known : (pair fun _ => counting).catalog.statement "find" =
      .ok { Statement.ofSql "find" .select "find" with cache := some ⟨0, "names"⟩ } := rfl
  refine selected_rows_eq_page assembled_defaultNames (plain_pair _) steady_counting
    [.opened, .called 0 .calm (.select "find" [.integer 7] .default),
      .called 0 .calm (.commit false), .opened] (i := 1) rfl .calm known [.integer 7] .default
    rfl ?_
  intro other sent _
  have once : Event.query "find" other ∈ [Event.query "find" [.integer 7]] := sent
  cases List.mem_singleton.mp once
  rfl

/-- Scalar parameters alone do not keep a select apart from others: a query with the same scalars
inside a list has the same key. -/
theorem nested_parameters_share_results :
    ¬∀ (a : Application) (answer : String → List Value → Rows) (w : World) (moves : List Move)
      (i : Nat) (x : Session) (host : Host) (id : String) (st : Statement)
      (parameters : List Value) (bounds : RowBounds) (rows : Rows),
      w.Assembled → a.Plain → a.Steady answer → (a.run w moves).sessions[i]? = some x →
      a.catalog.statement id = .ok st →
      (∀ v ∈ (st.source parameters).parameters, ∃ s, v = .scalar s) →
      (Session.selectList (a.context i host) id parameters bounds
        (x, (a.run w moves).world)).result = .ok rows →
      rows = bounds.page (answer (st.source parameters).sql (st.source parameters).parameters) := by
  intro claimed
  have scalars : ∀ v ∈ [Value.integer 1, Value.integer 2], ∃ s, v = .scalar s := by simp
  have page : RowBounds.default.page (counted "find" [.integer 1, .integer 2]) = [[.integer 2]] :=
    rfl
  have equal := claimed (pair fun _ => counting) counted (World.single defaultNames)
    [.opened, .called 0 .calm (.select "find" [.list [.integer 1, .integer 2]] .default)]
    0 _ .calm "find" _ [.integer 1, .integer 2] .default [[.integer 1]]
    assembled_defaultNames (plain_pair _) steady_counting rfl rfl scalars rfl
  have same : [[Value.integer 1]] = [[Value.integer 2]] := equal.trans page
  simp at same

end Application
end StatementCache
