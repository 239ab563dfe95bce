import StatementCache.Statement

/-! Row mappers that call one statement for every row of a select. -/
namespace StatementCache.RowMapper

def forEach (work : Row → (Row → Hydration) → Hydration) : Rows → (Rows → Hydration) → Hydration
  | [], next => next []
  | row :: rest, next => work row fun row => forEach work rest fun rest => next (row :: rest)

def withStatement (id : String) (work : Hydration) : Hydration :=
  .find id fun
    | .ok () => work
    | .error e => .failed e

def parameter (column : Nat) (row : Row) : Value := (row[column]?).getD .null

def refused : Fault := .execution "mapper refused"

def failing : RowMapper := fun _ => .failed refused

def forgetting : RowMapper := fun rows => .clear (.done rows)

def nested (id : String) (column : Nat) : RowMapper := fun rows =>
  withStatement id (forEach (fun row next =>
    .load id [parameter column row] fun
      | .ok value => .keep value (next row)
      | .error e => .failed e) rows .done)

def appending (id : String) (column : Nat) : RowMapper := fun rows =>
  withStatement id (forEach (fun row next =>
    .query id [parameter column row] .default fun
      | .ok found => next (row ++ [.list (found.map .list)])
      | .error e => .failed e) rows .done)

def counting (id : String) (column : Nat) : RowMapper := fun rows =>
  withStatement id (forEach (fun row next =>
    .query id [parameter column row] .default fun
      | .ok found => next (row ++ [.integer (Int64.ofNat found.length)])
      | .error _ => next (row ++ [.integer (-1)])) rows .done)

def updating (id : String) (column : Nat) : RowMapper := fun rows =>
  withStatement id (forEach (fun row next =>
    .update id [parameter column row] fun
      | .ok changed => next (row ++ [.integer changed.toInt64])
      | .error e => .failed e) rows .done)

def thenFailing (id : String) (column : Nat) : RowMapper := fun rows =>
  withStatement id (forEach (fun row next =>
    .query id [parameter column row] .default fun
      | .ok _ => next row
      | .error e => .failed e) rows fun _ => .failed refused)

end StatementCache.RowMapper
