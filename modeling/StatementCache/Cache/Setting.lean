import StatementCache.Fault
import StatementCache.Text.Blank

/-! Reading the value of a named setting. -/
namespace StatementCache.Setting

def word (name value : String) : Except Fault Nat :=
  match Text.natural? (Text.trim value.toList) with
  | some n => if n < UInt64.size then .ok n else invalid
  | none => invalid
where
  invalid : Except Fault Nat :=
    .error (.config ("invalid value '" ++ value ++ "' for cache property '" ++ name ++ "'"))

def capacity (name value : String) : Except Fault Nat := do
  let n ← word name value
  if n = 0 then .error (.config ("cache property '" ++ name ++ "' must be at least 1")) else .ok n

theorem one_le_capacity {name value : String} {n : Nat} (h : capacity name value = .ok n) :
    1 ≤ n := by
  unfold capacity at h
  cases asked : word name value with
  | error e => simp [asked, bind, Except.bind] at h
  | ok m =>
    simp only [asked, bind, Except.bind] at h
    split at h
    · cases h
    · cases h
      omega

def defaultCapacity : Nat := 1024

end StatementCache.Setting
