import StatementCache.Proofs.Key.Separation
import StatementCache.Proofs.Nesting.Tasks
import StatementCache.Proofs.Sessions.Plain

/-! Calls made through the executors of one catalog. Their keys agree when the calls agree in
everything but the nesting of lists among their parameters. -/
namespace StatementCache

open StatementCache.Action

namespace Value

mutual

def shape : Value → Value
  | .scalar _ => .null
  | .list items => .list (shapes items)

def shapes : List Value → List Value
  | [] => []
  | v :: vs => shape v :: shapes vs

end

mutual

/-- The shape of a value tells where its scalars end in a sequence that goes on. -/
theorem eq_of_flatten_append {v v' : Value} {rest rest' : List Scalar} (shape : v.shape = v'.shape)
    (flat : v.flatten ++ rest = v'.flatten ++ rest') : v = v' ∧ rest = rest' := by
  match v, v' with
  | .scalar s, .scalar s' =>
    obtain ⟨same, rest⟩ := List.cons.inj flat
    exact ⟨congrArg _ same, rest⟩
  | .scalar s, .list items => cases shape
  | .list items, .scalar s => cases shape
  | .list items, .list items' =>
    obtain ⟨same, rest⟩ := eq_of_flattenItems_append (Value.list.inj shape) flat
    exact ⟨congrArg _ same, rest⟩

theorem eq_of_flattenItems_append {vs vs' : List Value} {rest rest' : List Scalar}
    (shape : shapes vs = shapes vs') (flat : flattenItems vs ++ rest = flattenItems vs' ++ rest') :
    vs = vs' ∧ rest = rest' := by
  match vs, vs' with
  | [], [] => exact ⟨rfl, flat⟩
  | [], v' :: vs' => cases shape
  | v :: vs, [] => cases shape
  | v :: vs, v' :: vs' =>
    obtain ⟨first, more⟩ := List.cons.inj shape
    simp only [flattenItems, List.append_assoc] at flat
    obtain ⟨rfl, later⟩ := eq_of_flatten_append first flat
    obtain ⟨rfl, last⟩ := eq_of_flattenItems_append more later
    exact ⟨rfl, last⟩

end

theorem eq_of_flattenItems {vs vs' : List Value} (shape : shapes vs = shapes vs')
    (flat : flattenItems vs = flattenItems vs') : vs = vs' := by
  have followed : flattenItems vs ++ [] = flattenItems vs' ++ [] := by rw [flat]
  exact (eq_of_flattenItems_append shape followed).1

def IsScalar : Value → Prop
  | .scalar _ => True
  | .list _ => False

theorem map_flattenItems {vs : List Value} (scalars : ∀ v ∈ vs, v.IsScalar) :
    (flattenItems vs).map Value.scalar = vs := by
  induction vs with
  | nil => rfl
  | cons v vs ih =>
    have first := scalars v List.mem_cons_self
    have more := ih fun v mem => scalars v (List.mem_cons_of_mem _ mem)
    cases v with
    | scalar s => simpa [flattenItems, flatten] using more
    | list items => cases first

end Value

namespace Runner

variable {environment : Option String}

theorem environment_of_make {r r' : Runner} (same : r'.make = r.make)
    (h : r.environmentId = environment) : r'.environmentId = environment :=
  (congrArg (·.2.1) same).trans h

theorem keeps_environment_defer (key : CacheKey) (slot : Slot) :
    Keeps (fun s => s.1.environmentId = environment) (defer key slot) := by
  have asked : Keeps (fun s => s.1.environmentId = environment) ensureOpen := by
    rintro ⟨r, w⟩ h
    rw [ensureOpen_apply]
    split
    · exact h
    · exact h
  refine asked.bind fun _ => Keeps.get.bind fun s => ?_
  split
  · exact fun _ h => h
  · exact fun _ h => h

theorem keeps_environment_perform (ctx : Context) (task : Task) :
    Keeps (fun s => s.1.runner.environmentId = environment) (Executor.perform ctx task) := by
  apply Executor.keeps_perform (I := fun r => r.environmentId = environment)
  · exact fun st bounds key bound s h =>
      environment_of_make (make_queryWithKey ctx st bounds key bound s.1 s.2) h
  · exact fun key slot s h _ => keeps_environment_defer key slot s h
  · exact fun r h => environment_of_make (make_clearResults r) h
  · exact fun _ h => h

end Runner

/-- The executor was made by the catalog, and has done something since. -/
def Catalog.Makes (c : Catalog) (e : Executor) : Prop :=
  ∃ past, e = Executor.after c.settings past

namespace Catalog

variable {c : Catalog} {e e' : Executor}

theorem Makes.environmentId (h : c.Makes e) :
    e.runner.environmentId = c.settings.environmentId := by
  obtain ⟨past, rfl⟩ := h
  exact Executor.of_after (I := fun r => r.environmentId = c.settings.environmentId) c.settings rfl
    (fun ctx task => Runner.keeps_environment_perform ctx task) past

theorem Makes.keyOf_eq (h : c.Makes e) (h' : c.Makes e') : e.keyOf = e'.keyOf := by
  funext st bounds bound
  exact Runner.keyOf_eq (h.environmentId.trans h'.environmentId.symm) st bounds bound

/-- Two calls have one key exactly when statement, bounds, text and the scalars of the parameters
are the same. Parameters that are nested alike are then the same themselves. -/
theorem keys_separate_calls (made : c.Makes e) (made' : c.Makes e') (st st' : Statement)
    (bounds bounds' : RowBounds) (bound bound' : BoundSql) :
    (e.keyOf st bounds bound = e'.keyOf st' bounds' bound' ↔
      st.id = st'.id ∧ bounds = bounds' ∧ bound.sql = bound'.sql ∧
        Value.flattenItems bound.parameters = Value.flattenItems bound'.parameters) ∧
    (e.keyOf st bounds bound = e'.keyOf st' bounds' bound' →
      Value.shapes bound.parameters = Value.shapes bound'.parameters ∨
        (∀ v ∈ bound.parameters ++ bound'.parameters, v.IsScalar) →
      bound.parameters = bound'.parameters) := by
  have separate : e.keyOf st bounds bound = e'.keyOf st' bounds' bound' →
      st.id = st'.id ∧ bounds = bounds' ∧ bound.sql = bound'.sql ∧
        Value.flattenItems bound.parameters = Value.flattenItems bound'.parameters := by
    rw [made.keyOf_eq made']
    exact Runner.keyOf_injective
  refine ⟨⟨separate, ?_⟩, fun same alike => ?_⟩
  · rintro ⟨id, rfl, sql, parameters⟩
    rw [made.keyOf_eq made']
    apply CacheKey.elements_injective
    simp only [Executor.keyOf, Runner.elements_keyOf, id, sql, parameters]
  · obtain ⟨-, -, -, flat⟩ := separate same
    rcases alike with shape | scalars
    · exact Value.eq_of_flattenItems shape flat
    · rw [← Value.map_flattenItems fun v mem => scalars v (List.mem_append_left _ mem), flat]
      exact Value.map_flattenItems fun v mem => scalars v (List.mem_append_right _ mem)

/-- A limit that is read as a negative number is another limit still. -/
theorem keys_separate_calls_of_limits :
    let c := Catalog.ofSettings .testing .builtIn
    let e := c.newExecutor
    let e' := (Executor.perform ⟨.calm, Application.counting, c.statement, 0⟩ .clear
      (e, World.empty)).state.1
    c.Makes e ∧ c.Makes e' ∧
      e.keyOf (Statement.ofSql "find" .select "find") ⟨0, 18446744073709551615⟩ ⟨"find", [.null]⟩ ≠
        e'.keyOf (Statement.ofSql "find" .select "find") ⟨0, 9223372036854775807⟩
          ⟨"find", [.null]⟩ := by
  intro c e e'
  have made : c.Makes e := ⟨[], rfl⟩
  have made' : c.Makes e' :=
    ⟨[(⟨.calm, Application.counting, c.statement, 0⟩, World.empty, .clear)], rfl⟩
  refine ⟨made, made', fun same => ?_⟩
  obtain ⟨-, limits, -⟩ := (keys_separate_calls made made' _ _ _ _ _ _).1.mp same
  exact absurd limits (by decide)

/-- Keys do not tell how the parameters of a call were nested. -/
theorem expanded_lists_share_keys :
    ¬∀ (c : Catalog) (e e' : Executor) (st st' : Statement) (bounds bounds' : RowBounds)
      (bound bound' : BoundSql), c.Makes e → c.Makes e' →
      e.keyOf st bounds bound = e'.keyOf st' bounds' bound' →
      st.id = st'.id ∧ bounds = bounds' ∧ bound.sql = bound'.sql ∧
        bound.parameters = bound'.parameters := by
  intro claimed
  let c := Catalog.ofSettings .default .builtIn
  have made : c.Makes c.newExecutor := ⟨[], rfl⟩
  let st := Statement.ofSql "find" .select "find"
  obtain ⟨-, -, -, same⟩ := claimed c _ _ st st .default .default
    ⟨"find", [.list [.integer 1, .integer 2]]⟩ ⟨"find", [.integer 1, .integer 2]⟩ made made rfl
  cases same

end Catalog
end StatementCache
