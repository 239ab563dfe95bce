import StatementCache.Cache.Setting
import StatementCache.Cache.Store

/-! A full clear at intervals. The first operation after an interval clears the inner cache before
it does its own work, and a lookup that has just cleared finds nothing. -/
namespace StatementCache

structure Schedule where
  interval : Nat
  lastClear : Nat

namespace Layer

variable {τ : Type}

/-- Clears when the interval has passed, and says so. A clear that fails is tried again by the
next operation. -/
def clearWhenStale (now : Nat) (inner : Store τ) : Action (Schedule × τ) Bool := do
  let (schedule, _) ← Action.get
  if now - schedule.lastClear < schedule.interval then pure false
  else
    Action.onSecond inner.clear
    Action.onFirst (Action.modify fun s => { s with lastClear := now })
    pure true

def scheduled (now : Nat) (inner : Store τ) : Store (Schedule × τ) where
  id := inner.id
  put k e := do
    discard (clearWhenStale now inner)
    Action.onSecond (inner.put k e)
  get k := do
    match ← clearWhenStale now inner with
    | true => pure none
    | false => Action.onSecond (inner.get k)
  remove k := do
    discard (clearWhenStale now inner)
    Action.onSecond (inner.remove k)
  clear := do
    Action.onSecond inner.clear
    Action.onFirst (Action.modify fun s => { s with lastClear := now })
  size := fun s => Store.below inner.size (clearWhenStale now inner s).state
  stats := fun s => (none, s)
  assign name value :=
    match name with
    | "clearInterval" => do
      let interval ← Action.ofExcept (Setting.word name value)
      Action.onFirst (Action.modify fun s => { s with interval := interval })
      pure true
    | _ => pure false

end Layer
end StatementCache
