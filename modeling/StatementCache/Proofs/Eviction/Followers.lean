import StatementCache.Proofs.Eviction.Tower

/-! Layers that could as well be left out. Of several layers of use the innermost ones see the same
uses as the outermost, and when they are full they let go what it lets go. So only the outermost
counts, and no stack has more than two pairs of neighbours that disagree. -/
namespace StatementCache

namespace Shelf

variable {room : Nat} {q p : Shelf} {k : CacheKey} {gone : List CacheKey}

def Follows (q p : Shelf) : Prop :=
  q.keeping = .recency → p.keeping = .recency → p.line.Sublist q.line

theorem line_touch_of_recency (uses : q.keeping = .recency) (k : CacheKey) :
    (q.touch k).line = if k ∈ q.line then q.line.erase k ++ [k] else q.line := by
  simp [touch, uses]

theorem line_put_of_recency (uses : q.keeping = .recency) (room : Nat) (k : CacheKey) :
    (q.put room k).line =
      if k ∈ q.line then q.line.erase k ++ [k]
      else q.line.drop (q.leaving room k).length ++ [k] := by
  unfold put
  split
  · rename_i there
    rw [line_touch_of_recency uses, if_pos there]
  · rfl

namespace Follows

theorem touch (h : q.Follows p) (k : CacheKey) : (q.touch k).Follows (p.touch k) := by
  intro outer inner
  rw [keeping_touch] at outer inner
  have order := h outer inner
  rw [line_touch_of_recency outer, line_touch_of_recency inner]
  by_cases there : k ∈ p.line
  · rw [if_pos there, if_pos (order.subset there)]
    exact (order.erase k).append_right [k]
  · rw [if_neg there]
    split
    · have rest := order.erase k
      rw [List.erase_of_not_mem there] at rest
      exact rest.trans (List.sublist_append_left ..)
    · exact order

theorem without (h : q.Follows p) (gone : List CacheKey) :
    (q.without gone).Follows (p.without gone) :=
  fun outer inner => (h outer inner).filter _

theorem without_right (h : q.Follows p) (gone : List CacheKey) : q.Follows (p.without gone) :=
  fun outer inner => List.filter_sublist.trans (h outer inner)

theorem put (h : q.Follows p) (fits : q.Fits room) (k : CacheKey) :
    (q.put room k).Follows ((p.put room k).without (q.leaving room k)) := by
  intro outer inner
  rw [keeping_put] at outer
  rw [keeping_without, keeping_put] at inner
  have order := h outer inner
  change ((p.put room k).line.filter _).Sublist _
  rw [line_put_of_recency outer, line_put_of_recency inner]
  by_cases there : k ∈ p.line
  · rw [if_pos there, if_pos (order.subset there)]
    exact List.filter_sublist.trans ((order.erase k).append_right [k])
  · rw [if_neg there, List.filter_append]
    have behind := (List.drop_sublist (p.leaving room k).length p.line).trans order
    split
    · have rest := behind.erase k
      rw [List.erase_of_not_mem fun mem => there (List.mem_of_mem_drop mem)] at rest
      exact (List.filter_sublist.trans rest).append List.filter_sublist
    · rw [fits.drop_leaving]
      exact (behind.filter _).append List.filter_sublist

theorem leaving_subset (h : q.Follows p) (fits : q.Fits room) (fits' : p.Fits room)
    (positive : 1 ≤ room) (outer : q.keeping = .recency) (inner : p.keeping = .recency)
    (k : CacheKey) : p.leaving room k ⊆ q.leaving room k := by
  obtain ⟨none, -⟩ | ⟨-, -, full, -⟩ := fits'.leaving_cases positive k
  · rw [none]
    exact List.nil_subset _
  · have bounded := fits.bounded (by simp [outer])
    have line : p.line = q.line := (h outer inner).eq_of_length_le (full ▸ bounded)
    have shelf : p = q := by
      obtain ⟨_, _⟩ := q
      obtain ⟨_, _⟩ := p
      cases outer
      cases inner
      cases line
      rfl
    rw [shelf]
    exact List.Subset.refl _

end Follows
end Shelf

def sparse {α : Type} (keeping : α → Keeping) : List α → List α
  | [] => []
  | q :: below =>
    if keeping q = .recency then q :: below.filter (keeping · ≠ .recency)
    else q :: sparse keeping below

section

variable {α β : Type} {keeping : α → Keeping} {keeping' : β → Keeping}

theorem sparse_map {f : α → β} (same : ∀ q, keeping' (f q) = keeping q) (t : List α) :
    sparse keeping' (t.map f) = (sparse keeping t).map f := by
  induction t with
  | nil => rfl
  | cons q below ih =>
    simp only [List.map_cons, sparse, same]
    split
    · simp only [List.map_cons, List.filter_map, Function.comp_def, same]
    · rw [List.map_cons, ih]

theorem exists_sparse_cons (keeping : α → Keeping) (q : α) (below : List α) :
    ∃ rest, sparse keeping (q :: below) = q :: rest := by
  unfold sparse
  split
  · exact ⟨_, rfl⟩
  · exact ⟨_, rfl⟩

theorem sparse_sublist (keeping : α → Keeping) (t : List α) : (sparse keeping t).Sublist t := by
  induction t with
  | nil => exact .refl _
  | cons q below ih =>
    unfold sparse
    split
    · exact List.filter_sublist.cons_cons q
    · exact ih.cons_cons q

theorem sparse_concat {q : α} (other : keeping q ≠ .recency) (above : List α) :
    sparse keeping (above ++ [q]) = sparse keeping above ++ [q] := by
  induction above with
  | nil => simp [sparse, other]
  | cons p above ih =>
    simp only [List.cons_append, sparse]
    split
    · simp [other]
    · rw [ih, List.cons_append]

end

namespace Tower

variable {room : Nat} {q p : Shelf} {below t : Tower} {k : CacheKey} {gone : List CacheKey}

theorem filter_put (h : ∀ p ∈ t, p.keeping = .recency → p.leaving room k ⊆ gone) :
    ((put room k t).map (·.without gone)).filter (·.keeping ≠ .recency) =
      (put room k (t.filter (·.keeping ≠ .recency))).map (·.without gone) := by
  induction t generalizing gone with
  | nil => rfl
  | cons p below ih =>
    have rest := ih fun q mem => h q (List.mem_cons_of_mem _ mem)
    by_cases uses : p.keeping = .recency
    · have leaves := h p List.mem_cons_self uses
      have out (below : Tower) : (p :: below).filter (·.keeping ≠ .recency) =
          below.filter (·.keeping ≠ .recency) := List.filter_cons_of_neg (by simp [uses])
      have out' (below : Tower) : ((p.put room k).without gone :: below).filter
          (·.keeping ≠ .recency) = below.filter (·.keeping ≠ .recency) :=
        List.filter_cons_of_neg (by simp [uses])
      rw [out, put, List.map_cons, out', List.map_map, ← rest]
      simp only [Function.comp_def, Shelf.without_of_subset leaves]
    · have stays (below : Tower) : (p :: below).filter (·.keeping ≠ .recency) =
          p :: below.filter (·.keeping ≠ .recency) := List.filter_cons_of_pos (by simpa using uses)
      have stays' (below : Tower) : ((p.put room k).without gone :: below).filter
          (·.keeping ≠ .recency) =
            (p.put room k).without gone :: below.filter (·.keeping ≠ .recency) :=
        List.filter_cons_of_pos (by simpa using uses)
      -- what is taken away twice can be taken away in any order
      have swap (below : Tower) :
          (below.map (·.without (p.leaving room k))).map (·.without gone) =
            (below.map (·.without gone)).map (·.without (p.leaving room k)) := by
        simp only [List.map_map, Function.comp_def, Shelf.without_comm]
      rw [stays, put, put, List.map_cons, List.map_cons, stays', swap, swap, ← rest,
        List.filter_map]
      rfl

structure Ranked (room : Nat) (t : Tower) : Prop where
  fit : Fit room t
  follows : t.Pairwise Shelf.Follows

namespace Ranked

theorem touch (h : Ranked room t) (k : CacheKey) : Ranked room (t.map (·.touch k)) where
  fit := h.fit.touch k
  follows := List.pairwise_map.mpr (h.follows.imp fun order => order.touch k)

theorem put (h : Ranked room t) (positive : 1 ≤ room) (k : CacheKey) :
    Ranked room (put room k t) where
  fit := h.fit.put positive k
  follows := by
    obtain ⟨fit, follows⟩ := h
    induction follows with
    | nil => exact .nil
    | @cons q below first follows ih =>
      refine .cons (fun p mem => ?_) ?_
      · obtain ⟨inner, after, rfl⟩ := List.mem_map.mp mem
        obtain ⟨old, there, gone, rfl⟩ := mem_put after
        have order := (first old there).put (fit q List.mem_cons_self) k
        rw [Shelf.without_comm]
        exact order.without_right gone
      · exact List.pairwise_map.mpr ((ih fit.tail).imp fun order => order.without _)

/-- Only the outermost layer of use counts. -/
theorem sparse_put (h : Ranked room t) (positive : 1 ≤ room) (k : CacheKey) :
    sparse Shelf.keeping (Tower.put room k t) = Tower.put room k (sparse Shelf.keeping t) := by
  obtain ⟨fit, follows⟩ := h
  induction follows with
  | nil => rfl
  | @cons q below first follows ih =>
    simp only [Tower.put, sparse, Shelf.keeping_put]
    split
    · rename_i outer
      rw [filter_put fun p mem inner =>
        (first p mem).leaving_subset (fit q List.mem_cons_self) (fit p (List.mem_cons_of_mem _ mem))
          positive outer inner k]
      rfl
    · rw [sparse_map fun _ => Shelf.keeping_without, ih fit.tail]
      rfl

end Ranked
end Tower
end StatementCache
