import StatementCache.Proofs.Contents.Maps
import StatementCache.Session
import Mathlib.Data.List.Induction

/-! Any number of sessions over one catalog and one set of shared caches. A run is a list of moves,
each of which opens a session or does one operation of a session as a whole, so every order of the
operations of all sessions is a run. -/
namespace StatementCache

inductive Call where
  | select (id : String) (parameters : List Value) (bounds : RowBounds)
  | update (id : String) (parameters : List Value)
  | commit (force : Bool)
  | rollback (force : Bool)
  | clearCache
  | close

def Call.Publishes : Call → Prop
  | .commit _ | .close => True
  | .select _ _ _ | .update _ _ | .rollback _ | .clearCache => False

def Call.Selects : Call → Prop
  | .select _ _ _ => True
  | .update _ _ | .commit _ | .rollback _ | .clearCache | .close => False

theorem Call.Publishes.not_selects {call : Call} (h : call.Publishes) : ¬call.Selects := by
  cases call with
  | commit _ => exact not_false
  | close => exact not_false
  | _ => exact h.elim

/-- The operations that may end a unit of work. -/
def Call.Ends : Call → Prop
  | .commit _ | .rollback _ | .close => True
  | .select _ _ _ | .update _ _ | .clearCache => False

theorem Call.Publishes.ends {call : Call} (h : call.Publishes) : call.Ends := by
  cases call with
  | commit _ => exact trivial
  | close => exact trivial
  | _ => exact h.elim

def Executor.overlays : Executor → Overlays
  | .alone _ => .empty
  | .coordinated c => c.overlays

def Executor.coordinates : Executor → Bool
  | .alone _ => false
  | .coordinated _ => true

namespace Session

def perform (ctx : Context) : Call → Run Unit
  | .select id parameters bounds => discard (selectList ctx id parameters bounds)
  | .update id parameters => discard (update ctx id parameters)
  | .commit force => commit ctx force
  | .rollback force => rollback ctx force
  | .clearCache => clearCache
  | .close => close ctx

def overlays (x : Session) : Overlays := x.executor.overlays

end Session

/-- A move of a run. Sessions are numbered in the order in which they are opened. -/
inductive Move where
  | opened
  | called (session : Nat) (host : Host) (call : Call)

structure Scene where
  sessions : List Session
  world : World

/-- What is the same for a whole run. Every session has a connection of its own. -/
structure Application where
  catalog : Catalog
  connect : Nat → Database
  nesting : Nat

namespace Application

def context (a : Application) (session : Nat) (host : Host) : Context :=
  ⟨host, a.connect session, a.catalog.statement, a.nesting⟩

def keyOf (a : Application) (st : Statement) (bounds : RowBounds) (bound : BoundSql) : CacheKey :=
  (Runner.ofSettings a.catalog.settings).keyOf st bounds bound

/-- A move of a session that was never opened does nothing. -/
def act (a : Application) (s : Scene) : Move → Scene
  | .opened => { s with sessions := s.sessions ++ [Session.opened a.catalog] }
  | .called i host call =>
    match s.sessions[i]? with
    | none => s
    | some x =>
      let o := Session.perform (a.context i host) call (x, s.world)
      ⟨s.sessions.set i o.state.1, o.state.2⟩

def resume (a : Application) (s : Scene) (moves : List Move) : Scene := moves.foldl a.act s

def run (a : Application) (w : World) (moves : List Move) : Scene := a.resume ⟨[], w⟩ moves

variable {a : Application} {s : Scene}

@[simp] theorem resume_nil : a.resume s [] = s := rfl

@[simp] theorem resume_cons (m : Move) (moves : List Move) :
    a.resume s (m :: moves) = a.resume (a.act s m) moves := rfl

theorem resume_append (first second : List Move) :
    a.resume s (first ++ second) = a.resume (a.resume s first) second := List.foldl_append ..

theorem resume_concat (moves : List Move) (m : Move) :
    a.resume s (moves ++ [m]) = a.act (a.resume s moves) m := resume_append moves [m]

theorem act_called {i : Nat} {x : Session} (found : s.sessions[i]? = some x) (host : Host)
    (call : Call) :
    a.act s (.called i host call) =
      ⟨s.sessions.set i (Session.perform (a.context i host) call (x, s.world)).state.1,
        (Session.perform (a.context i host) call (x, s.world)).state.2⟩ := by
  simp only [act, found]

theorem sessions_act_of_ne {i j : Nat} (other : j ≠ i) (host : Host) (call : Call) :
    (a.act s (.called j host call)).sessions[i]? = s.sessions[i]? := by
  cases found : s.sessions[j]? with
  | none => simp only [act, found]
  | some x =>
    rw [act_called found]
    exact List.getElem?_set_ne other

theorem found_opened {i : Nat} {x : Session} (there : (a.act s .opened).sessions[i]? = some x) :
    s.sessions[i]? = some x ∨ x = Session.opened a.catalog := by
  simp only [act, List.getElem?_append] at there
  split at there
  · exact .inl there
  · exact .inr (List.mem_singleton.mp (List.mem_of_getElem? there))

theorem found_called {i : Nat} {x : Session} {host : Host} {call : Call}
    (there : (a.act s (.called i host call)).sessions[i]? = some x) :
    ∃ y, s.sessions[i]? = some y ∧
      x = (Session.perform (a.context i host) call (y, s.world)).state.1 := by
  cases found : s.sessions[i]? with
  | none =>
    simp only [act, found] at there
    cases there
  | some y =>
    obtain ⟨bound, -⟩ := List.getElem?_eq_some_iff.mp found
    rw [act_called found, List.getElem?_set_self bound] at there
    exact ⟨y, rfl, (Option.some.inj there).symm⟩

/-- What holds at the start and is kept by every move holds after every run. -/
theorem resume_induction {I : Scene → Prop} (start : I s) (step : ∀ t m, I t → I (a.act t m))
    (moves : List Move) : I (a.resume s moves) := by
  induction moves using List.reverseRecOn with
  | nil => exact start
  | append_singleton moves m ih =>
    rw [resume_concat]
    exact step _ m ih

theorem length_act (m : Move) : s.sessions.length ≤ (a.act s m).sessions.length := by
  cases m with
  | opened => simp [act]
  | called i host call =>
    simp only [act]
    split <;> simp

theorem length_resume (moves : List Move) :
    s.sessions.length ≤ (a.resume s moves).sessions.length :=
  resume_induction (I := fun t => s.sessions.length ≤ t.sessions.length) (Nat.le_refl _)
    (fun _ m h => Nat.le_trans h (length_act m)) moves

def findNames : Statement :=
  { Statement.ofSql "find" .select "find" with cache := some ⟨0, "names"⟩ }

def renameNames : Statement :=
  { Statement.ofSql "rename" .update "rename" with cache := some ⟨0, "names"⟩ }

def pair (connect : Nat → Database) : Application where
  catalog := { Catalog.ofSettings .default .builtIn with
    statements := (Table.empty.insert "find" findNames).insert "rename" renameNames }
  connect := connect
  nesting := 0

def counted (_ : String) (parameters : List Value) : Rows :=
  [[.integer (Int64.ofNat parameters.length)]]

def counting : Database where
  query _ sql parameters := .ok (counted sql parameters)
  execute _ _ _ := .ok 0
  boundary _ := none

end Application

def World.single (c : Cache) : World :=
  { World.empty with caches := Table.empty.insert 0 c, nextSerial := 1 }

theorem World.mapped_base (id : String) : (World.single (Cache.base id)).Mapped := by
  intro serial c shaped
  simp only [World.single, World.shape, Table.get?_insert] at shaped
  split at shaped
  · cases shaped
    exact ⟨id, rfl⟩
  · cases shaped

def Host.calm : Host := ⟨0, 0, fun _ _ => false⟩

end StatementCache
