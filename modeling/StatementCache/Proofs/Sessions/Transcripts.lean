import StatementCache.Proofs.Overlay.Fanout
import StatementCache.Proofs.Sessions.Application

/-! What the users of an application and its databases notice of a run. Where a unit of work ends,
its overlays are walked, and the work of each of them, in an order that is not specified. So every
move of a run comes with an order, in which its session finds the overlays. -/
namespace StatementCache

structure Overlays.Walk where
  order : Overlays → Overlays
  rearranges : ∀ os, (order os).Rearranges os

def Executor.arranged (walk : Overlays.Walk) : Executor → Executor
  | .alone r => .alone r
  | .coordinated c => .coordinated { c with overlays := walk.order c.overlays }

/-- What a call hands back to its user. -/
inductive Returned where
  | rows (rows : Rows)
  /-- The number of rows that a write changed. -/
  | count (changed : UInt64)
  | nothing

namespace Session

open StatementCache.Action

def arranged (walk : Overlays.Walk) (x : Session) : Session :=
  { x with executor := x.executor.arranged walk }

def answer (ctx : Context) : Call → Run Returned
  | .select id parameters bounds => Returned.rows <$> selectList ctx id parameters bounds
  | .update id parameters => Returned.count <$> update ctx id parameters
  | .commit force => (fun _ => .nothing) <$> commit ctx force
  | .rollback force => (fun _ => .nothing) <$> rollback ctx force
  | .clearCache => (fun _ => .nothing) <$> clearCache
  | .close => (fun _ => .nothing) <$> close ctx

theorem state_answer (ctx : Context) (call : Call) (s : Session × World) :
    (answer ctx call s).state = (perform ctx call s).state := by
  have mapped {α β : Type} (f : α → β) (m : Run α) : ((f <$> m) s).state = (m s).state := by
    rw [map_eq_pure_bind, bind_apply]
    rcases m s with ⟨e | a, s'⟩
    · rfl
    · rfl
  cases call with
  | select id parameters bounds => rw [answer, mapped, perform, state_discard]
  | update id parameters => rw [answer, mapped, perform, state_discard]
  | commit force => exact mapped _ _
  | rollback force => exact mapped _ _
  | clearCache => exact mapped _ _
  | close => exact mapped _ _

end Session

/-- What the user of a session and its database notice of a call. -/
structure Exchange where
  session : Nat
  result : Except Fault Returned
  sent : List Event

def Move.isOf (session : Nat) : Move → Bool
  | .opened => false
  | .called i _ _ => i == session

structure OrderedMove where
  /-- How the session finds its overlays. -/
  walk : Overlays.Walk
  move : Move

def Scene.arranged (s : Scene) (i : Nat) (walk : Overlays.Walk) : Scene :=
  { s with sessions := s.sessions.modify i (·.arranged walk) }

def OrderedMove.arrange (m : OrderedMove) (s : Scene) : Scene :=
  match m.move with
  | .opened => s
  | .called i _ _ => s.arranged i m.walk

namespace Application

variable {a : Application} {i : Nat} {s : Scene} {host : Host} {call : Call}

def exchange (a : Application) (s : Scene) : Move → Option Exchange
  | .opened => none
  | .called i host call => s.sessions[i]?.map fun x =>
    let o := Session.answer (a.context i host) call (x, s.world)
    ⟨i, o.result, o.state.2.log.drop s.world.log.length⟩

theorem session_of_exchange {e : Exchange} (there : e ∈ a.exchange s (.called i host call)) :
    e.session = i := by
  obtain ⟨x, -, rfl⟩ := Option.map_eq_some_iff.mp there
  rfl

def transcript (a : Application) : Scene → List OrderedMove → List Exchange
  | _, [] => []
  | s, m :: moves => (a.exchange (m.arrange s) m.move).toList ++
    a.transcript (a.act (m.arrange s) m.move) moves

/-- What may come of a run, the overlays being found in one order or another. -/
def Possible (a : Application) (s : Scene) (moves : List Move) (seen : List Exchange) : Prop :=
  ∃ ordered : List OrderedMove, ordered.map (·.move) = moves ∧ a.transcript s ordered = seen

end Application

def Overlays.Walk.asKept : Walk where
  order os := os
  rearranges os i := by
    cases os.bySerial.get? i with
    | none => exact .none
    | some o => exact .some (.refl o)

namespace Overlay

def backwards (o : Overlay) : Overlay where
  target := o.target
  clearOnCommit := o.clearOnCommit
  pending := ⟨o.pending.entries.reverse, by
    rw [List.map_reverse]
    exact List.nodup_reverse.mpr o.pending.distinct⟩
  missed := o.missed.reverse

theorem reorders_backwards (o : Overlay) : o.backwards.Reorders o :=
  ⟨rfl, rfl, List.reverse_perm _, List.reverse_perm _⟩

end Overlay

def Overlays.Walk.backwards : Walk where
  order os := ⟨⟨os.bySerial.entries.map fun (i, o) => (i, o.backwards), by
    rw [List.map_map]
    exact os.bySerial.distinct⟩⟩
  rearranges os i := by
    have mapped (entries : List (Nat × Overlay)) :
        Table.find i (entries.map fun (i, o) => (i, o.backwards)) =
          (Table.find i entries).map Overlay.backwards := by
      induction entries with
      | nil => rfl
      | cons entry entries ih =>
        simp only [List.map_cons, Table.find, ih]
        split
        · rfl
        · rfl
    simp only [Table.get?, mapped]
    cases Table.find i os.bySerial.entries with
    | none => exact .none
    | some o => exact .some o.reorders_backwards

/-- An order of some moves is one of all moves, those that were left out finding what is kept. -/
theorem OrderedMove.exists_of_filter {keep : Move → Bool} {moves : List Move}
    {ordered : List OrderedMove} (left : ordered.map (·.move) = moves.filter keep) :
    ∃ all : List OrderedMove, all.map (·.move) = moves ∧ all.filter (keep ·.move) = ordered := by
  induction moves generalizing ordered with
  | nil =>
    cases List.map_eq_nil_iff.mp left
    exact ⟨[], rfl, rfl⟩
  | cons m moves ih =>
    by_cases kept : keep m
    · rw [List.filter_cons_of_pos kept] at left
      obtain ⟨first, rest, rfl, rfl, others⟩ := List.map_eq_cons_iff.mp left
      obtain ⟨all, same, filtered⟩ := ih others
      exact ⟨first :: all, by simp [same], by simp [kept, filtered]⟩
    · rw [List.filter_cons_of_neg kept] at left
      obtain ⟨all, same, filtered⟩ := ih left
      exact ⟨⟨.asKept, m⟩ :: all, by simp [same], by simp [kept, filtered]⟩

end StatementCache
