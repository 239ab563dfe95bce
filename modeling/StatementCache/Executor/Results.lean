import StatementCache.Key.Basic
import StatementCache.Table

/-! The results of one executor's own statements. A key is marked before its statement runs, so a
nested query of the same key does not run it again; the mark becomes the result, or goes away when
the statement fails. -/
namespace StatementCache

inductive ResultEntry where
  | inProgress
  | rows (result : Rows)

abbrev Results := Table CacheKey ResultEntry

namespace Results

def find? (c : Results) (k : CacheKey) : Option ResultEntry := Table.get? c k

def rows? (c : Results) (k : CacheKey) : Option Rows :=
  match c.find? k with
  | some (.rows r) => some r
  | _ => none

def mark (c : Results) (k : CacheKey) : Results := Table.insert c k .inProgress

def complete (c : Results) (k : CacheKey) (r : Rows) : Results := Table.insert c k (.rows r)

/-- A completed result stays. -/
def abort (c : Results) (k : CacheKey) : Results :=
  match c.find? k with
  | some .inProgress => Table.erase c k
  | _ => c

theorem find?_mark (c : Results) (k j : CacheKey) :
    (c.mark k).find? j = if k = j then some .inProgress else c.find? j := Table.get?_insert ..

theorem find?_complete (c : Results) (k j : CacheKey) (r : Rows) :
    (c.complete k r).find? j = if k = j then some (.rows r) else c.find? j :=
  Table.get?_insert ..

theorem find?_abort_of_ne (c : Results) {k j : CacheKey} (h : k ≠ j) :
    (c.abort k).find? j = c.find? j := by
  unfold abort
  split
  · exact (Table.get?_erase ..).trans (by simp [h]; rfl)
  · rfl

@[simp] theorem rows?_empty (k : CacheKey) : rows? .empty k = none := rfl

theorem rows?_mark (c : Results) (k j : CacheKey) :
    (c.mark k).rows? j = if k = j then none else c.rows? j := by
  simp only [rows?, find?_mark]
  by_cases same : k = j
  · simp only [same, if_true]
  · simp only [same, if_false]

theorem rows?_complete (c : Results) (k j : CacheKey) (r : Rows) :
    (c.complete k r).rows? j = if k = j then some r else c.rows? j := by
  simp only [rows?, find?_complete]
  by_cases same : k = j
  · simp only [same, if_true]
  · simp only [same, if_false]

theorem rows?_abort (c : Results) (k j : CacheKey) : (c.abort k).rows? j = c.rows? j := by
  by_cases same : k = j
  · subst same
    unfold abort
    split
    · rename_i marked
      have erased : (Table.erase c k).get? k = none := by simp [Table.get?_erase]
      simp only [rows?, find?] at marked ⊢
      rw [erased, marked]
    · rfl
  · simp only [rows?, find?_abort_of_ne c same]

end Results
end StatementCache
