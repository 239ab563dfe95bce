/-! Named settings of a cache, in the order of their names. -/
namespace StatementCache

/-- Each name occurs once, and the entries are sorted by name. -/
structure Properties where
  entries : List (String × String)
  sorted : entries.Pairwise fun a b => a.1 < b.1

namespace Properties

def empty : Properties := ⟨[], .nil⟩

def insertEntry (name value : String) : List (String × String) → List (String × String)
  | [] => [(name, value)]
  | (n, v) :: rest =>
    if name < n then (name, value) :: (n, v) :: rest
    else if name = n then (name, value) :: rest
    else (n, v) :: insertEntry name value rest

theorem mem_insertEntry {name value : String} {e : String × String}
    {entries : List (String × String)} (h : e ∈ insertEntry name value entries) :
    e = (name, value) ∨ e ∈ entries := by
  induction entries with
  | nil => simpa [insertEntry] using h
  | cons x rest ih =>
    obtain ⟨n, v⟩ := x
    simp only [insertEntry] at h
    split at h
    · simpa using h
    · split at h
      · rcases List.mem_cons.mp h with h | h
        · exact .inl h
        · exact .inr (List.mem_cons_of_mem _ h)
      · rcases List.mem_cons.mp h with h | h
        · exact .inr (h ▸ List.mem_cons_self)
        · exact (ih h).imp id (List.mem_cons_of_mem _)

theorem sorted_insertEntry (name value : String) {entries : List (String × String)}
    (h : entries.Pairwise fun a b => a.1 < b.1) :
    (insertEntry name value entries).Pairwise fun a b => a.1 < b.1 := by
  induction entries with
  | nil => simp [insertEntry]
  | cons x rest ih =>
    obtain ⟨n, v⟩ := x
    obtain ⟨least, tail⟩ := List.pairwise_cons.mp h
    simp only [insertEntry]
    split
    · rename_i before
      refine List.pairwise_cons.mpr ⟨fun e he => ?_, h⟩
      rcases List.mem_cons.mp he with rfl | he
      · exact before
      · exact String.lt_trans before (least e he)
    · rename_i notBefore
      split
      · rename_i same
        subst same
        exact List.pairwise_cons.mpr ⟨least, tail⟩
      · rename_i distinct
        refine List.pairwise_cons.mpr ⟨fun e he => ?_, ih tail⟩
        rcases mem_insertEntry he with rfl | he
        · exact String.not_le.mp fun le => distinct (String.le_antisymm le (String.not_lt.mp notBefore))
        · exact least e he

def insert (p : Properties) (name value : String) : Properties :=
  ⟨insertEntry name value p.entries, sorted_insertEntry name value p.sorted⟩

def names (p : Properties) : List String := p.entries.map (·.1)

end Properties
end StatementCache
