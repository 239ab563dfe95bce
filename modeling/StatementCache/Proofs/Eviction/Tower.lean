import Mathlib.Data.Finset.Card
import StatementCache.Key.Basic

/-! Layers that evict, one above the other. A layer that lets a key go takes it from all below it,
and those above are not told. So a layer can go on listing keys that are gone, its ghosts; how many
they can be is decided by each two neighbours and by nothing else. -/
namespace StatementCache

inductive Keeping where
  /-- By latest use. -/
  | recency
  /-- By arrival. -/
  | arrival
  /-- Nothing ever has to leave. -/
  | everything
  deriving DecidableEq

structure Shelf where
  keeping : Keeping
  line : List CacheKey

namespace Shelf

variable {room : Nat} {q outer inner : Shelf} {j k : CacheKey} {gone : List CacheKey}

def leaving (room : Nat) (k : CacheKey) (q : Shelf) : List CacheKey :=
  if q.keeping = .everything ∨ k ∈ q.line then [] else q.line.take (q.line.length + 1 - room)

def touch (k : CacheKey) (q : Shelf) : Shelf :=
  { q with line := if q.keeping = .recency ∧ k ∈ q.line then q.line.erase k ++ [k] else q.line }

def put (room : Nat) (k : CacheKey) (q : Shelf) : Shelf :=
  if k ∈ q.line then q.touch k
  else { q with line := q.line.drop (q.leaving room k).length ++ [k] }

def without (gone : List CacheKey) (q : Shelf) : Shelf :=
  { q with line := q.line.filter (· ∉ gone) }

@[simp] theorem keeping_touch : (q.touch k).keeping = q.keeping := rfl

@[simp] theorem keeping_without : (q.without gone).keeping = q.keeping := rfl

@[simp] theorem keeping_put : (q.put room k).keeping = q.keeping := by
  unfold put
  split <;> rfl

@[simp] theorem without_nil : q.without [] = q := by simp [without]

theorem without_without (q : Shelf) (gone later : List CacheKey) :
    (q.without gone).without later = q.without (gone ++ later) := by
  simp [without, List.filter_filter, Bool.and_comm]

theorem without_comm (q : Shelf) (gone later : List CacheKey) :
    (q.without gone).without later = (q.without later).without gone := by
  simp [without, List.filter_filter, Bool.and_comm]

theorem without_of_subset {later : List CacheKey} (sub : gone ⊆ later) (q : Shelf) :
    (q.without gone).without later = q.without later := by
  simp only [without, List.filter_filter]
  congr 1
  refine List.filter_congr fun j _ => ?_
  simpa using fun stays leaves => absurd (sub leaves) stays

theorem mem_without : j ∈ (q.without gone).line ↔ j ∈ q.line ∧ j ∉ gone := by simp [without]

theorem touch_perm (k : CacheKey) (q : Shelf) : (q.touch k).line.Perm q.line := by
  simp only [touch]
  split
  · rename_i used
    exact (List.perm_append_singleton k _).trans (List.perm_cons_erase used.2).symm
  · exact .refl _

theorem not_mem_leaving (room : Nat) (k : CacheKey) (q : Shelf) : k ∉ q.leaving room k := by
  unfold leaving
  split
  · exact List.not_mem_nil
  · rename_i new
    exact fun leaves => new (.inr (List.mem_of_mem_take leaves))

theorem leaving_eq_take : q.leaving room k = q.line.take (q.leaving room k).length := by
  unfold leaving
  split
  · rfl
  · rw [List.length_take, List.take_eq_take_min]

structure Fits (room : Nat) (q : Shelf) : Prop where
  distinct : q.line.Nodup
  bounded : q.keeping ≠ .everything → q.line.length ≤ room

namespace Fits

theorem touch (h : q.Fits room) (k : CacheKey) : (q.touch k).Fits room where
  distinct := (touch_perm k q).nodup_iff.mpr h.distinct
  bounded evicts := (touch_perm k q).length_eq ▸ h.bounded evicts

theorem without (h : q.Fits room) (gone : List CacheKey) : (q.without gone).Fits room where
  distinct := h.distinct.filter _
  bounded evicts := (List.length_filter_le ..).trans (h.bounded evicts)

theorem drop_leaving (h : q.Fits room) (k : CacheKey) :
    q.line.drop (q.leaving room k).length = q.line.filter (· ∉ q.leaving room k) := by
  have apart := List.disjoint_take_drop h.distinct (Nat.le_refl (q.leaving room k).length)
  rw [← leaving_eq_take] at apart
  have front : (q.leaving room k).filter (· ∉ q.leaving room k) = [] :=
    List.filter_eq_nil_iff.mpr fun j leaves => by simpa using leaves
  have rest : (q.line.drop (q.leaving room k).length).filter (· ∉ q.leaving room k) =
      q.line.drop (q.leaving room k).length :=
    List.filter_eq_self.mpr fun j behind => by simpa using fun leaves => apart leaves behind
  conv_rhs => rw [← List.take_append_drop (q.leaving room k).length q.line, ← leaving_eq_take]
  rw [List.filter_append, front, rest, List.nil_append]

theorem mem_put (h : q.Fits room) :
    j ∈ (q.put room k).line ↔ (j = k ∨ j ∈ q.line) ∧ j ∉ q.leaving room k := by
  by_cases there : k ∈ q.line
  · have none : q.leaving room k = [] := if_pos (.inr there)
    rw [Shelf.put, if_pos there, (touch_perm k q).mem_iff, none]
    simpa using fun same : j = k => same ▸ there
  · have new := not_mem_leaving room k q
    simp only [Shelf.put, there, if_false, h.drop_leaving, List.mem_append, List.mem_filter,
      decide_eq_true_eq, List.mem_singleton]
    constructor
    · rintro (stays | rfl)
      · exact ⟨.inr stays.1, stays.2⟩
      · exact ⟨.inl rfl, new⟩
    · rintro ⟨rfl | old, stays⟩
      · exact .inr rfl
      · exact .inl ⟨old, stays⟩

theorem leaving_cases (h : q.Fits room) (positive : 1 ≤ room) (k : CacheKey) :
    q.leaving room k = [] ∧ (q.keeping = .everything ∨ k ∈ q.line ∨ q.line.length < room) ∨
      q.keeping ≠ .everything ∧ k ∉ q.line ∧ q.line.length = room ∧
        ∃ first rest, q.line = first :: rest ∧ q.leaving room k = [first] := by
  unfold leaving
  split
  · rename_i stays
    exact .inl ⟨rfl, stays.elim .inl fun there => .inr (.inl there)⟩
  · rename_i new
    simp only [not_or] at new
    obtain free | full := Nat.lt_or_eq_of_le (h.bounded new.1)
    · have none : q.line.length + 1 - room = 0 := by omega
      exact .inl ⟨by rw [none, List.take_zero], .inr (.inr free)⟩
    · have one : q.line.length + 1 - room = 1 := by omega
      refine .inr ⟨new.1, new.2, full, ?_⟩
      rw [one]
      cases line : q.line with
      | nil => rw [line, List.length_nil] at full; omega
      | cons first rest => exact ⟨first, rest, rfl, rfl⟩

theorem put (h : q.Fits room) (positive : 1 ≤ room) (k : CacheKey) : (q.put room k).Fits room := by
  unfold Shelf.put
  split
  · exact h.touch k
  · rename_i new
    refine ⟨?_, fun evicts => ?_⟩
    · rw [← List.concat_eq_append]
      exact (h.distinct.sublist (List.drop_sublist ..)).concat fun behind =>
        new (List.mem_of_mem_drop behind)
    · have bounded := h.bounded evicts
      rw [List.length_append, List.length_drop, List.length_singleton]
      obtain ⟨none, all | there | free⟩ | ⟨-, -, full, first, rest, -, one⟩ :=
        h.leaving_cases positive k
      · exact absurd all evicts
      · exact absurd there new
      · omega
      · rw [one, List.length_singleton]
        omega

theorem length_put (h : q.Fits room) (positive : 1 ≤ room) (full : q.line.length = room)
    (evicts : q.keeping ≠ .everything) (k : CacheKey) : (q.put room k).line.length = room := by
  unfold Shelf.put
  split
  · exact (touch_perm k q).length_eq.trans full
  · rename_i new
    rw [List.length_append, List.length_drop, List.length_singleton]
    obtain ⟨none, all | there | free⟩ | ⟨-, -, -, first, rest, -, one⟩ := h.leaving_cases positive k
    · exact absurd all evicts
    · exact absurd there new
    · omega
    · rw [one, List.length_singleton]
      omega

end Fits

/-- How many ghosts a layer can have of the next one. A map drops nothing, and layers of one kind
agree on what they drop. -/
def lag (outer inner : Keeping) : Nat := if inner = .everything ∨ outer = inner then 0 else 1

structure Above (outer inner : Shelf) : Prop where
  evicts : outer.keeping ≠ .everything
  lists : inner.line ⊆ outer.line
  ghosts : (outer.line.toFinset \ inner.line.toFinset).card ≤ lag outer.keeping inner.keeping
  agrees : outer.keeping = inner.keeping → outer.line = inner.line

namespace Above

theorem touch (h : outer.Above inner) (k : CacheKey) : (outer.touch k).Above (inner.touch k) where
  evicts := h.evicts
  lists := by
    intro j mem
    exact (touch_perm k outer).mem_iff.mpr (h.lists ((touch_perm k inner).mem_iff.mp mem))
  ghosts := by
    rw [List.toFinset_eq_of_perm _ _ (touch_perm k outer),
      List.toFinset_eq_of_perm _ _ (touch_perm k inner)]
    exact h.ghosts
  agrees same := by
    simp only [keeping_touch] at same
    simp only [Shelf.touch, same, h.agrees same]

theorem without (h : outer.Above inner) (gone : List CacheKey) :
    (outer.without gone).Above (inner.without gone) where
  evicts := h.evicts
  lists := by
    intro j mem
    rw [mem_without] at mem ⊢
    exact ⟨h.lists mem.1, mem.2⟩
  ghosts := by
    refine (Finset.card_le_card fun j mem => ?_).trans h.ghosts
    simp only [Finset.mem_sdiff, List.mem_toFinset, mem_without] at mem ⊢
    exact ⟨mem.1.1, fun there => mem.2 ⟨there, mem.1.2⟩⟩
  agrees same := by
    simp only [keeping_without] at same
    simp only [Shelf.without, h.agrees same]

theorem full_perm (h : outer.Above inner) (fits : outer.Fits room) (fits' : inner.Fits room)
    (full : inner.line.length = room) : inner.line.Perm outer.line :=
  (List.subperm_of_subset fits'.distinct h.lists).perm_of_length_le
    (full ▸ fits.bounded h.evicts)

theorem put_agrees (h : outer.Above inner) (fits : outer.Fits room)
    (same : outer.keeping = inner.keeping) (k : CacheKey) :
    ((inner.put room k).without (outer.leaving room k)).line = (outer.put room k).line := by
  have line := h.agrees same
  have shelf : inner = outer := by
    obtain ⟨_, _⟩ := outer
    obtain ⟨_, _⟩ := inner
    cases same
    cases line
    rfl
  subst shelf
  refine List.filter_eq_self.mpr fun j mem => ?_
  simpa using (fits.mem_put.mp mem).2

theorem put (h : outer.Above inner) (fits : outer.Fits room) (fits' : inner.Fits room)
    (positive : 1 ≤ room) (k : CacheKey) :
    (outer.put room k).Above ((inner.put room k).without (outer.leaving room k)) where
  evicts := by simpa using h.evicts
  lists := by
    intro j mem
    rw [mem_without, fits'.mem_put] at mem
    exact fits.mem_put.mpr ⟨mem.1.1.imp_right (h.lists ·), mem.2⟩
  agrees same := (h.put_agrees fits (by simpa using same) k).symm
  ghosts := by
    simp only [keeping_put, keeping_without]
    -- a ghost is one from before or what the layer below has let go
    have ghost {j : CacheKey} (mem : j ∈ (outer.put room k).line.toFinset \
        ((inner.put room k).without (outer.leaving room k)).line.toFinset) :
        j ∈ outer.line ∧ (j ∉ inner.line ∨ j ∈ inner.leaving room k) := by
      simp only [Finset.mem_sdiff, List.mem_toFinset, mem_without, fits.mem_put, fits'.mem_put] at mem
      have new : j ≠ k := by
        rintro rfl
        exact mem.2 ⟨⟨.inl rfl, not_mem_leaving room j inner⟩, mem.1.2⟩
      refine ⟨mem.1.1.resolve_left new, ?_⟩
      by_contra kept
      simp only [not_or, not_not] at kept
      exact mem.2 ⟨⟨.inr kept.1, kept.2⟩, mem.1.2⟩
    obtain ⟨none, -⟩ | ⟨evicts, -, full, first, rest, -, one⟩ := fits'.leaving_cases positive k
    · refine (Finset.card_le_card fun j mem => ?_).trans h.ghosts
      obtain ⟨listed, gone | leaves⟩ := ghost mem
      · simp [listed, gone]
      · simp [none] at leaves
    · by_cases same : outer.keeping = inner.keeping
      · rw [h.put_agrees fits same, Finset.sdiff_self]
        exact Nat.zero_le _
      · rw [lag, if_neg (not_or.mpr ⟨evicts, same⟩)]
        have only (j : CacheKey) (listed : j ∈ outer.line)
            (lost : j ∉ inner.line ∨ j ∈ inner.leaving room k) : j = first := by
          obtain gone | leaves := lost
          · exact absurd ((h.full_perm fits fits' full).mem_iff.mpr listed) gone
          · exact List.mem_singleton.mp (one ▸ leaves)
        refine Finset.card_le_one.mpr fun i memi j memj => ?_
        rw [only i (ghost memi).1 (ghost memi).2, only j (ghost memj).1 (ghost memj).2]

end Above
end Shelf

abbrev Tower := List Shelf

namespace Tower

variable {room : Nat} {q p : Shelf} {below t : Tower} {j k : CacheKey} {gone : List CacheKey}

/-- What each layer lets go is taken from all below it. -/
def put (room : Nat) (k : CacheKey) : Tower → Tower
  | [] => []
  | q :: below => q.put room k :: (put room k below).map (·.without (q.leaving room k))

def held (t : Tower) : List CacheKey := t.getLast?.elim [] (·.line)

@[simp] theorem held_cons_cons (q p : Shelf) (below : Tower) :
    held (q :: p :: below) = held (p :: below) := by
  simp [held]

@[simp] theorem held_concat (above : Tower) (q : Shelf) : held (above ++ [q]) = q.line := by
  simp [held]

theorem held_without (gone : List CacheKey) (t : Tower) :
    held (t.map (·.without gone)) = (held t).filter (· ∉ gone) := by
  rw [held, List.getLast?_map, held]
  cases t.getLast? <;> rfl

theorem held_touch_perm (k : CacheKey) (t : Tower) :
    (held (t.map (·.touch k))).Perm (held t) := by
  rw [held, List.getLast?_map, held]
  cases t.getLast? with
  | none => exact .refl _
  | some q => exact q.touch_perm k

theorem held_put (q p : Shelf) (below : Tower) :
    held (put room k (q :: p :: below)) =
      (held (put room k (p :: below))).filter (· ∉ q.leaving room k) := by
  rw [← held_without]
  exact held_cons_cons ..

@[simp] theorem keeping_put (room : Nat) (k : CacheKey) (t : Tower) :
    (put room k t).map (·.keeping) = t.map (·.keeping) := by
  induction t with
  | nil => rfl
  | cons q below ih => simpa [put, Function.comp_def] using ih

theorem mem_put (mem : p ∈ put room k t) : ∃ q ∈ t, ∃ gone, p = (q.put room k).without gone := by
  induction t generalizing p with
  | nil => cases mem
  | cons q below ih =>
    obtain rfl | mem := List.mem_cons.mp mem
    · exact ⟨q, List.mem_cons_self, [], Shelf.without_nil.symm⟩
    · obtain ⟨inner, after, rfl⟩ := List.mem_map.mp mem
      obtain ⟨old, there, gone, rfl⟩ := ih after
      exact ⟨old, List.mem_cons_of_mem _ there, _, Shelf.without_without ..⟩

def Fit (room : Nat) (t : Tower) : Prop := ∀ q ∈ t, q.Fits room

namespace Fit

theorem tail (h : Fit room (q :: below)) : Fit room below :=
  fun p mem => h p (List.mem_cons_of_mem _ mem)

theorem put (h : Fit room t) (positive : 1 ≤ room) (k : CacheKey) : Fit room (put room k t) := by
  intro p mem
  obtain ⟨q, there, gone, rfl⟩ := mem_put mem
  exact ((h q there).put positive k).without gone

theorem touch (h : Fit room t) (k : CacheKey) : Fit room (t.map (·.touch k)) := by
  intro p mem
  obtain ⟨q, there, rfl⟩ := List.mem_map.mp mem
  exact (h q there).touch k

theorem without (h : Fit room t) (gone : List CacheKey) : Fit room (t.map (·.without gone)) := by
  intro p mem
  obtain ⟨q, there, rfl⟩ := List.mem_map.mp mem
  exact (h q there).without gone

theorem distinct_held (h : Fit room t) : (held t).Nodup := by
  unfold held
  cases last : t.getLast? with
  | none => exact .nil
  | some q => exact (h q (List.mem_of_getLast? last)).distinct

theorem mem_held_put (h : Fit room (q :: below)) (k : CacheKey) :
    k ∈ held (Tower.put room k (q :: below)) := by
  induction below generalizing q with
  | nil => exact (h q List.mem_cons_self).mem_put.mpr ⟨.inl rfl, q.not_mem_leaving room k⟩
  | cons p below ih =>
    rw [held_put]
    exact List.mem_filter.mpr ⟨ih h.tail, by simpa using q.not_mem_leaving room k⟩

theorem held_put_subset (h : Fit room t) : held (Tower.put room k t) ⊆ k :: held t := by
  induction t with
  | nil => exact List.nil_subset _
  | cons q below ih =>
    cases below with
    | nil =>
      intro j there
      exact List.mem_cons.mpr ((h q List.mem_cons_self).mem_put.mp there).1
    | cons p below =>
      rw [held_put]
      exact List.Subset.trans (List.filter_subset_self _) (ih h.tail)

theorem not_mem_held_put (h : Fit room t) (mem : q ∈ t) (leaves : j ∈ q.leaving room k) :
    j ∉ held (Tower.put room k t) := by
  induction t with
  | nil => cases mem
  | cons first below ih =>
    cases below with
    | nil =>
      obtain rfl := List.mem_singleton.mp mem
      exact fun there => ((h q mem).mem_put.mp there).2 leaves
    | cons second below =>
      rw [held_put, List.mem_filter, decide_eq_true_eq]
      rintro ⟨there, stays⟩
      obtain rfl | mem := List.mem_cons.mp mem
      · exact stays leaves
      · exact ih h.tail mem there

end Fit

def lag : List Keeping → Nat
  | outer :: inner :: below => Shelf.lag outer inner + lag (inner :: below)
  | _ => 0

inductive Sound (room : Nat) : Tower → Prop where
  | floor {q : Shelf} : q.Fits room → Sound room [q]
  | above {q p : Shelf} {below : Tower} :
    q.Fits room → q.Above p → Sound room (p :: below) → Sound room (q :: p :: below)

namespace Sound

theorem fits (h : Sound room (q :: below)) : q.Fits room := by
  cases h with
  | floor fits => exact fits
  | above fits => exact fits

theorem touch (h : Sound room t) (k : CacheKey) : Sound room (t.map (·.touch k)) := by
  induction h with
  | floor fits => exact .floor (fits.touch k)
  | above fits above _ ih => exact .above (fits.touch k) (above.touch k) ih

theorem without (h : Sound room t) (gone : List CacheKey) : Sound room (t.map (·.without gone)) := by
  induction h with
  | floor fits => exact .floor (fits.without gone)
  | above fits above _ ih => exact .above (fits.without gone) (above.without gone) ih

theorem put (h : Sound room t) (positive : 1 ≤ room) (k : CacheKey) : Sound room (put room k t) := by
  induction h with
  | floor fits => exact .floor (fits.put positive k)
  | above fits above sound ih =>
    exact .above (fits.put positive k) (above.put fits sound.fits positive k) (ih.without _)

theorem held_subset (h : Sound room (q :: below)) : held (q :: below) ⊆ q.line := by
  generalize same : q :: below = t at h
  induction h generalizing q below with
  | floor => cases same; exact List.Subset.refl _
  | above _ above _ ih =>
    cases same
    rw [held_cons_cons]
    exact List.Subset.trans (ih rfl) above.lists

theorem card_le (h : Sound room (q :: below)) :
    q.line.toFinset.card ≤
      (held (q :: below)).length + lag ((q :: below).map (·.keeping)) := by
  generalize same : q :: below = t at h
  induction h generalizing q below with
  | floor =>
    cases same
    exact List.toFinset_card_le _
  | @above q p below _ above _ ih =>
    cases same
    have below := ih rfl
    have split := Finset.card_le_card_sdiff_add_card (s := q.line.toFinset) (t := p.line.toFinset)
    have ghosts := above.ghosts
    simp only [List.map_cons, lag, held_cons_cons] at below ⊢
    omega

end Sound
end Tower
end StatementCache
