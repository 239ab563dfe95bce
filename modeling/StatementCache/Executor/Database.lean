import StatementCache.Statement

/-! The database behind an executor. It may answer by everything that was reported before. -/
namespace StatementCache

inductive Boundary where
  | commit
  | rollback
  | close
  deriving DecidableEq

def Boundary.event : Boundary → Event
  | .commit => .commit
  | .rollback => .rollback
  | .close => .close

def Boundary.operation : Boundary → Operation
  | .commit => .commit
  | .rollback => .rollback
  | .close => .close

/-- The answers of a database, given all events up to and with the call itself. -/
structure Database where
  query : List Event → String → List Value → Except Fault Rows
  /-- The number of rows that a write changed. -/
  execute : List Event → String → List Value → Except Fault UInt64
  /-- None when the database has nothing to do there; then nothing is reported either. -/
  boundary : Boundary → Option (List Event → Except Fault Unit)

namespace Database

def withoutBoundaries (db : Database) : Database := { db with boundary := fun _ => none }

def runQuery (db : Database) (bound : BoundSql) : Action World Rows := fun w =>
  let w := w.report (.query bound.sql bound.parameters)
  ⟨db.query w.log bound.sql bound.parameters, w⟩

def runExecute (db : Database) (bound : BoundSql) : Action World UInt64 := fun w =>
  let w := w.report (.execute bound.sql bound.parameters)
  ⟨db.execute w.log bound.sql bound.parameters, w⟩

def runBoundary (db : Database) (b : Boundary) : Action World Unit := fun w =>
  match db.boundary b with
  | none => ⟨.ok (), w⟩
  | some answer =>
    let w := w.report b.event
    ⟨answer w.log, w⟩

end Database
end StatementCache
