import StatementCache.Proofs.Sessions.Application

/-! Units of work one after the other, each in a session of its own, over one cache. What a select
can rely on is told from the requests alone: what was selected in the unit of work, and what the
units before it have committed. -/
namespace StatementCache

def Lately {α : Type} (P Q : α → Prop) (events : List α) : Prop :=
  ∃ before e after, events = before ++ e :: after ∧ P e ∧ ∀ e' ∈ after, ¬Q e'

theorem not_lately_nil {α : Type} {P Q : α → Prop} : ¬Lately P Q [] := by
  rintro ⟨before, e, after, same, -⟩
  simp at same

theorem lately_concat {α : Type} {P Q : α → Prop} {events : List α} {e : α} :
    Lately P Q (events ++ [e]) ↔ P e ∨ Lately P Q events ∧ ¬Q e := by
  constructor
  · rintro ⟨before, e', after, same, happened, kept⟩
    rcases List.eq_nil_or_concat after with rfl | ⟨after, last, rfl⟩
    · obtain ⟨-, eq⟩ := List.append_inj' same rfl
      cases eq
      exact .inl happened
    · rw [List.concat_eq_append] at same kept
      rw [← List.cons_append, ← List.append_assoc] at same
      obtain ⟨eq, tail⟩ := List.append_inj' same rfl
      cases tail
      refine .inr ⟨⟨before, e', after, eq, happened, fun e'' mem => ?_⟩, ?_⟩
      · exact kept e'' (List.mem_append_left _ mem)
      · exact kept e (List.mem_append_right _ (List.mem_singleton_self _))
  · rintro (happened | ⟨⟨before, e', after, rfl, happened, kept⟩, stays⟩)
    · exact ⟨events, e, [], rfl, happened, fun _ mem => by cases mem⟩
    · refine ⟨before, e', after ++ [e], by simp, happened, fun e'' mem => ?_⟩
      rcases List.mem_append.mp mem with old | new
      · exact kept e'' old
      · rw [List.mem_singleton.mp new]
        exact stays

abbrev Request := Host × Call

def Request.Writes (r : Request) : Prop :=
  match r.2 with
  | .update _ _ => True
  | .select _ _ _ | .commit _ | .rollback _ | .clearCache | .close => False

def Wrote (requests : List Request) : Prop := ∃ r ∈ requests, r.Writes

theorem wrote_concat {requests : List Request} {r : Request} :
    Wrote (requests ++ [r]) ↔ Wrote requests ∨ r.Writes := by
  unfold Wrote
  constructor
  · rintro ⟨r', mem, writes⟩
    rcases List.mem_append.mp mem with old | new
    · exact .inl ⟨r', old, writes⟩
    · rw [List.mem_singleton.mp new] at writes
      exact .inr writes
  · rintro (⟨r', mem, writes⟩ | writes)
    · exact ⟨r', List.mem_append_left _ mem, writes⟩
    · exact ⟨r, List.mem_append_right _ (List.mem_singleton_self r), writes⟩

theorem not_wrote_nil : ¬Wrote [] := by
  rintro ⟨r, mem, -⟩
  cases mem

structure UnitOfWork where
  requests : List Request
  ending : Request

namespace UnitOfWork

def Commits (u : UnitOfWork) : Prop :=
  match u.ending.2 with
  | .commit _ => True
  | .close => ¬Wrote u.requests
  | .select _ _ _ | .update _ _ | .rollback _ | .clearCache => False

/-- The requests so far of a unit of work that is not ended. -/
def begun (requests : List Request) (session : Nat) : List Move :=
  .opened :: requests.map fun r => .called session r.1 r.2

def moves (u : UnitOfWork) (session : Nat) : List Move :=
  begun u.requests session ++ [.called session u.ending.1 u.ending.2]

/-- The session of each unit of work is opened after the unit before has ended. -/
def serial : Nat → List UnitOfWork → List Move
  | _, [] => []
  | session, u :: units => u.moves session ++ serial (session + 1) units

theorem serial_concat (session : Nat) (units : List UnitOfWork) (u : UnitOfWork) :
    serial session (units ++ [u]) = serial session units ++ u.moves (session + units.length) := by
  induction units generalizing session with
  | nil => simp [serial]
  | cons u' units ih =>
    rw [List.cons_append, serial, ih, serial, List.append_assoc, List.length_cons]
    congr 3
    omega

theorem begun_concat (requests : List Request) (r : Request) (session : Nat) :
    begun (requests ++ [r]) session = begun requests session ++ [.called session r.1 r.2] := by
  simp [begun]

end UnitOfWork

structure Statement.Reads (st : Statement) (ref : CacheRef) : Prop where
  bound : st.cache = some ref
  cached : st.useCache = true
  keeps : st.flushCacheRequired = false
  plain : st.mapper = none
  whole : ¬(st.kind = .callable ∧ st.hasOutParameters = true)

namespace Application

def Asks (a : Application) (key : CacheKey) (r : Request) : Prop :=
  match r.2 with
  | .select id parameters bounds => ∃ st, a.catalog.statement id = .ok st ∧
    a.keyOf st bounds (st.source parameters) = key
  | .update _ _ | .commit _ | .rollback _ | .clearCache | .close => False

def Uses (a : Application) (ref : CacheRef) (r : Request) : Prop :=
  match r.2 with
  | .select id _ _ => ∃ st, a.catalog.statement id = .ok st ∧ st.Reads ref
  | .update id _ => ∃ st, a.catalog.statement id = .ok st ∧ st.cache = some ref ∧
    st.flushCacheRequired = true
  | .commit _ | .rollback _ | .clearCache | .close => False

/-- The key was selected in the unit of work, with no write since. -/
def Selected (a : Application) (key : CacheKey) : List Request → Prop :=
  Lately (a.Asks key) Request.Writes

/-- A unit of work has committed that had selected the key after its own last write, and none that
has committed since has written. -/
def Shared (a : Application) (key : CacheKey) : List UnitOfWork → Prop :=
  Lately (fun u => u.Commits ∧ a.Selected key u.requests) fun u => u.Commits ∧ Wrote u.requests

/-- The requests use the cache, and the last operation ends the unit of work. -/
structure Fits (a : Application) (ref : CacheRef) (u : UnitOfWork) : Prop where
  uses : ∀ r ∈ u.requests, a.Uses ref r
  ends : u.ending.2.Ends

structure Unfailing (a : Application) : Prop where
  answers : ∀ session log sql parameters, ∃ rows,
    (a.connect session).query log sql parameters = .ok rows
  executes : ∀ session log sql parameters, ∃ count,
    (a.connect session).execute log sql parameters = .ok count
  ends : ∀ session b answer log, (a.connect session).boundary b = some answer → answer log = .ok ()

variable {a : Application} {key : CacheKey}

theorem selected_concat {requests : List Request} {r : Request} :
    a.Selected key (requests ++ [r]) ↔ a.Asks key r ∨ a.Selected key requests ∧ ¬r.Writes :=
  lately_concat

theorem shared_concat {units : List UnitOfWork} {u : UnitOfWork} :
    a.Shared key (units ++ [u]) ↔ u.Commits ∧ a.Selected key u.requests ∨
      a.Shared key units ∧ ¬(u.Commits ∧ Wrote u.requests) :=
  lately_concat

end Application
end StatementCache
