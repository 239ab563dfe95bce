import StatementCache.Executor.Runner

/-! What the keys of one executor tell apart: statement, bounds and text exactly, parameters up to
the nesting of lists. -/
namespace StatementCache.Runner

theorem elements_keyOf (r : Runner) (st : Statement) (bounds : RowBounds) (bound : BoundSql) :
    (r.keyOf st bounds bound).elements =
      [.text st.id, .integer bounds.offset.toInt64, .integer bounds.limit.toInt64,
        .text bound.sql] ++ Value.flattenItems bound.parameters ++
      (r.environmentId.map Scalar.text).toList := by
  have common : ((CacheKey.ofValues [.text st.id, .integer bounds.offset.toInt64,
      .integer bounds.limit.toInt64, .text bound.sql]).updateAll bound.parameters).elements =
      [.text st.id, .integer bounds.offset.toInt64, .integer bounds.limit.toInt64,
        .text bound.sql] ++ Value.flattenItems bound.parameters := by
    rw [CacheKey.elements_updateAll, CacheKey.elements_ofValues, Value.flattenItems_eq_flatMap]
    rfl
  unfold keyOf
  cases r.environmentId with
  | none => simpa using common
  | some environment =>
    dsimp only
    rw [CacheKey.elements_update, common]
    rfl

theorem toInt64_injective {m n : UInt64} (h : m.toInt64 = n.toInt64) : m = n := by
  have back := congrArg Int64.toUInt64 h
  rwa [UInt64.toUInt64_toInt64, UInt64.toUInt64_toInt64] at back

theorem keyOf_injective {r : Runner} {st st' : Statement} {bounds bounds' : RowBounds}
    {bound bound' : BoundSql} (h : r.keyOf st bounds bound = r.keyOf st' bounds' bound') :
    st.id = st'.id ∧ bounds = bounds' ∧ bound.sql = bound'.sql ∧
      Value.flattenItems bound.parameters = Value.flattenItems bound'.parameters := by
  have elements := congrArg CacheKey.elements h
  rw [elements_keyOf, elements_keyOf] at elements
  have front := List.append_cancel_right elements
  simp only [List.cons_append, List.nil_append, List.cons.injEq, Scalar.text.injEq,
    Scalar.integer.injEq] at front
  obtain ⟨id, offset, limit, sql, parameters⟩ := front
  refine ⟨id, ?_, sql, parameters⟩
  cases bounds
  cases bounds'
  rw [RowBounds.mk.injEq]
  exact ⟨toInt64_injective offset, toInt64_injective limit⟩

end StatementCache.Runner
