import Mathlib.Data.Set.Finite.List
import StatementCache.Catalog
import StatementCache.Mapper
import StatementCache.Proofs.Nesting.Course

/-! Row mappers that take the parameters of their selects from rows. From finitely many rows there
are finitely many parameters to take, and finitely many keys with them. -/
namespace StatementCache

/-- Parameters that come from rows of the tables. A statement has only so many places for them, so
no call has more than `arity`; calls with more and more would never run out of keys. -/
def Drawn (tables : List Rows) (arity : Nat) (parameters : List Value) : Prop :=
  parameters.length ≤ arity ∧ ∀ value ∈ parameters, ∃ table ∈ tables, ∃ row ∈ table, value ∈ row

theorem finite_drawn (tables : List Rows) (arity : Nat) :
    {parameters | Drawn tables arity parameters}.Finite := by
  have cells : Finite {value // value ∈ tables.flatten.flatten} := List.finite_toSet _
  have lists := List.finite_length_le {value // value ∈ tables.flatten.flatten} arity
  refine (lists.image (List.map Subtype.val)).subset ?_
  rintro parameters ⟨length, drawn⟩
  refine ⟨parameters.attachWith _ fun value mem => ?_, ?_, List.attachWith_map_subtype_val ..⟩
  · obtain ⟨table, known, row, there, held⟩ := drawn value mem
    exact List.mem_flatten.mpr ⟨row, List.mem_flatten.mpr ⟨table, known, there⟩, held⟩
  · simpa using length

instance : Finite RowBounds := by
  refine Finite.of_injective (fun b => (b.offset.toFin, b.limit.toFin)) ?_
  rintro ⟨offset, limit⟩ ⟨offset', limit'⟩ same
  simpa only [Prod.mk.injEq, UInt64.toFin_inj, RowBounds.mk.injEq] using same

def Runner.keysFrom (r : Runner) (catalog : Catalog) (tables : List Rows) (arity : Nat) :
    Set CacheKey :=
  {key | ∃ st ∈ catalog.statements.values, ∃ bounds parameters,
    Drawn tables arity parameters ∧ key = r.keyOf st bounds (st.source parameters)}

theorem Runner.finite_keysFrom (r : Runner) (catalog : Catalog) (tables : List Rows)
    (arity : Nat) : (r.keysFrom catalog tables arity).Finite := by
  have statements : {st | st ∈ catalog.statements.values}.Finite := List.finite_toSet _
  have bounded := statements.prod (Set.finite_univ (α := RowBounds))
  have calls := bounded.prod (finite_drawn tables arity)
  refine (calls.image fun call => r.keyOf call.1.1 call.1.2 (call.1.1.source call.2)).subset ?_
  rintro key ⟨st, known, bounds, parameters, drawn, rfl⟩
  exact ⟨((st, bounds), parameters), ⟨⟨known, trivial⟩, drawn⟩, rfl⟩

theorem Catalog.mem_values_of_statement {catalog : Catalog} {id : String} {st : Statement}
    (found : catalog.statement id = .ok st) : st ∈ catalog.statements.values := by
  unfold statement at found
  split at found
  · cases found
    have mem := (Table.get?_eq_some_iff ..).mp ‹_›
    exact List.mem_map_of_mem (f := Prod.snd) mem
  · cases found

/-- The next thing that a row mapper does leaves the results of the executor alone, and a select has
its parameters from the tables. -/
def Hydration.Reads (tables : List Rows) (arity : Nat) : Hydration → Prop
  | .load _ parameters _ | .query _ parameters _ _ => Drawn tables arity parameters
  | .update _ _ _ | .commit _ _ | .rollback _ _ | .clear _ => False
  | .done _ | .failed _ | .find _ _ | .cached _ _ _ _ | .keep _ _ => True

/-- The same of all that the work of the row mapper may come to, whatever it is told. -/
def Hydration.Draws (tables : List Rows) (arity : Nat) : Hydration → Prop
  | .done _ | .failed _ => True
  | .find _ next => ∀ reply, (next reply).Draws tables arity
  | .load _ parameters next =>
    Drawn tables arity parameters ∧ ∀ reply, (next reply).Draws tables arity
  | .query _ parameters _ next =>
    Drawn tables arity parameters ∧ ∀ reply, (next reply).Draws tables arity
  | .cached _ _ _ next => ∀ reply, (next reply).Draws tables arity
  | .update _ _ _ | .commit _ _ | .rollback _ _ | .clear _ => False
  | .keep _ next => next.Draws tables arity

theorem Hydration.Draws.reads {tables : List Rows} {arity : Nat} {work : Hydration}
    (h : work.Draws tables arity) : work.Reads tables arity := by
  cases work with
  | load id parameters next => exact h.1
  | query id parameters bounds next => exact h.1
  | update id parameters next => exact h
  | commit required next => exact h
  | rollback required next => exact h
  | clear next => exact h
  | _ => trivial

def Statement.Draws (tables : List Rows) (arity : Nat) (st : Statement) : Prop :=
  ∀ mapper, st.mapper = some mapper → ∀ rows : Rows, (∀ row ∈ rows, ∃ table ∈ tables, row ∈ table) →
    (mapper rows).Draws tables arity

/-- The database answers with rows of the tables, if at all. -/
def Database.Serves (tables : List Rows) (db : Database) : Prop :=
  ∀ bound w rows, (db.runQuery bound w).result = .ok rows → ∀ row ∈ rows, ∃ table ∈ tables,
    row ∈ table

namespace RowMapper

variable {tables : List Rows} {arity : Nat}

theorem drawn_parameter {column : Nat} {row : Row} (positive : 0 < arity)
    (known : ∃ table ∈ tables, row ∈ table) (wide : column < row.length) :
    Drawn tables arity [parameter column row] := by
  obtain ⟨table, there, mem⟩ := known
  refine ⟨positive, fun value there' => ⟨table, there, row, mem, ?_⟩⟩
  rw [List.mem_singleton.mp there', parameter, List.getElem?_eq_getElem wide]
  exact List.getElem_mem wide

theorem draws_forEach {work : Row → (Row → Hydration) → Hydration} {rows : Rows}
    (each : ∀ row ∈ rows, ∀ next : Row → Hydration, (∀ row, (next row).Draws tables arity) →
      (work row next).Draws tables arity)
    {next : Rows → Hydration} (last : ∀ rows, (next rows).Draws tables arity) :
    (forEach work rows next).Draws tables arity := by
  induction rows generalizing next with
  | nil => exact last []
  | cons row rest ih =>
    refine each row List.mem_cons_self _ fun row => ih (fun row mem => ?_) fun rest => last _
    exact each row (List.mem_cons_of_mem _ mem)

theorem draws_withStatement {id : String} {work : Hydration} (draws : work.Draws tables arity) :
    (withStatement id work).Draws tables arity := by
  intro reply
  cases reply with
  | ok known => exact draws
  | error e => trivial

variable {id : String} {column : Nat} {rows : Rows} (positive : 0 < arity)
  (known : ∀ row ∈ rows, ∃ table ∈ tables, row ∈ table) (wide : ∀ row ∈ rows, column < row.length)

include positive known wide

theorem draws_nested : (nested id column rows).Draws tables arity := by
  refine draws_withStatement (draws_forEach (fun row mem next draws => ?_) fun rows => trivial)
  refine ⟨drawn_parameter positive (known row mem) (wide row mem), fun reply => ?_⟩
  cases reply with
  | ok value => exact draws row
  | error e => trivial

theorem draws_appending : (appending id column rows).Draws tables arity := by
  refine draws_withStatement (draws_forEach (fun row mem next draws => ?_) fun rows => trivial)
  refine ⟨drawn_parameter positive (known row mem) (wide row mem), fun reply => ?_⟩
  cases reply with
  | ok found => exact draws _
  | error e => trivial

theorem draws_counting : (counting id column rows).Draws tables arity := by
  refine draws_withStatement (draws_forEach (fun row mem next draws => ?_) fun rows => trivial)
  refine ⟨drawn_parameter positive (known row mem) (wide row mem), fun reply => ?_⟩
  cases reply with
  | ok found => exact draws _
  | error e => exact draws _

end RowMapper

def Stage.Draws (tables : List Rows) (arity : Nat) : Stage → Prop
  | .looking st _ _ | .asking st _ _ => st.Draws tables arity
  | .mapping work => work.Draws tables arity
  | .selected _ | .answered _ | .ended _ => True

theorem Stage.draws_replied {tables : List Rows} {arity : Nat} {α : Type}
    {next : Except Fault α → Hydration} (draws : ∀ reply, (next reply).Draws tables arity)
    {reply : Except Fault α} : (Stage.replied next reply).Draws tables arity := by
  unfold replied
  split
  · trivial
  · exact draws _

end StatementCache
