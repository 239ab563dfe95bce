import StatementCache.Proofs.Eviction.Capacity

/-! Runs in which the layers get in each other's way. They show that towers of layers really lose
what they can lose. -/
namespace StatementCache

theorem CacheKey.exists_distinct (n : Nat) :
    ∃ keys : List CacheKey, keys.Nodup ∧ keys.length = n := by
  let key (i : Nat) : CacheKey := ⟨List.replicate i .null, _, rfl⟩
  refine ⟨(List.range n).map key, List.nodup_range.map fun i j same => ?_, by simp⟩
  have lengths := congrArg (·.elements.length) same
  simpa [key] using lengths

namespace Shelf

variable {room : Nat} {k first : CacheKey} {line : List CacheKey} {c : Keeping}

theorem leaving_of_full (evicts : c ≠ .everything) (full : line.length + 1 = room)
    (new : k ∉ first :: line) : leaving room k ⟨c, first :: line⟩ = [first] := by
  have one : line.length + 1 + 1 - room = 1 := by omega
  rw [leaving, if_neg (not_or.mpr ⟨evicts, new⟩), List.length_cons, one]
  rfl

theorem put_of_full (evicts : c ≠ .everything) (full : line.length + 1 = room)
    (new : k ∉ first :: line) : put room k ⟨c, first :: line⟩ = ⟨c, line ++ [k]⟩ := by
  rw [put, if_neg new, leaving_of_full evicts full new]
  rfl

theorem leaving_of_free (free : line.length < room) (c : Keeping) :
    leaving room k ⟨c, line⟩ = [] := by
  have none : line.length + 1 - room = 0 := by omega
  simp [leaving, none]

theorem put_of_leaving {q : Shelf} (stay : q.leaving room k = []) (new : k ∉ q.line) :
    q.put room k = ⟨q.keeping, q.line ++ [k]⟩ := by
  rw [put, if_neg new, stay]
  rfl

end Shelf

namespace Tower

variable {room : Nat} {kinds : List Keeping} {t : Tower} {k : CacheKey} {q : Shelf}
  {gone : List CacheKey}

/-- When everything that leaves is taken away from all layers, no layer is in the way of another. -/
theorem map_without_put (h : ∀ p ∈ t, p.leaving room k ⊆ gone) :
    (put room k t).map (·.without gone) = t.map fun p => (p.put room k).without gone := by
  induction t with
  | nil => rfl
  | cons p below ih =>
    rw [put, List.map_cons, List.map_map, List.map_cons,
      ← ih fun q mem => h q (List.mem_cons_of_mem _ mem)]
    simp only [Function.comp_def, Shelf.without_of_subset (h p List.mem_cons_self)]

theorem put_of_leaving (h : ∀ p ∈ t, p.leaving room k = []) :
    put room k t = t.map (·.put room k) := by
  have apart : (put room k t).map (·.without []) = t.map fun p => (p.put room k).without [] :=
    map_without_put fun p mem => by rw [h p mem]; exact List.Subset.refl _
  simpa using apart

theorem put_replicate (fits : q.Fits room) (n : Nat) (t : Tower) :
    put room k (List.replicate (n + 1) q ++ t) =
      List.replicate (n + 1) (q.put room k) ++
        (put room k t).map (·.without (q.leaving room k)) := by
  have own : (q.put room k).without (q.leaving room k) = q.put room k := by
    refine congrArg (Shelf.mk _) (List.filter_eq_self.mpr fun j mem => ?_)
    simpa using (fits.mem_put.mp mem).2
  induction n with
  | zero => rfl
  | succ n ih =>
    rw [List.replicate_succ, List.cons_append, put, ih, List.map_append, List.map_replicate, own,
      List.map_map]
    simp only [Function.comp_def, Shelf.without_of_subset (List.Subset.refl _)]
    rfl

theorem Fit.length_add_le (h : Fit room t) (positive : 1 ≤ room) (nonempty : t ≠ [])
    (new : k ∉ held t) (distinct : gone.Nodup)
    (leave : ∀ j ∈ gone, j ∈ held t ∧ ∃ q ∈ t, j ∈ q.leaving room k) :
    (held (t.put room k)).length + gone.length ≤ (held t).length + 1 := by
  rw [← h.length_held_put positive nonempty new]
  refine Nat.add_le_add_left (distinct.subperm fun j mem => ?_).length_le _
  obtain ⟨there, q, mem, leaves⟩ := leave j mem
  exact List.mem_filter.mpr ⟨there, by simpa using h.not_mem_held_put mem leaves⟩

def puts (keys : List CacheKey) : List Demand := keys.map (.put · .placeholder)

def mixed (kinds : List Keeping) (used arrived : List CacheKey) : Tower :=
  (kinds ++ [Keeping.everything]).map fun c => ⟨c, if c = .recency then used else arrived⟩

section

variable {used arrived : List CacheKey}

@[simp] theorem held_append_mixed (above : Tower) (kinds : List Keeping)
    (used arrived : List CacheKey) : held (above ++ mixed kinds used arrived) = arrived := by
  rw [mixed, List.map_append, ← List.append_assoc]
  exact held_concat ..

@[simp] theorem held_mixed (kinds : List Keeping) (used arrived : List CacheKey) :
    held (mixed kinds used arrived) = arrived :=
  held_append_mixed [] kinds used arrived

theorem mem_mixed {c : Keeping} (mem : c ∈ kinds) : ⟨c, used⟩ ∈ mixed kinds used used :=
  List.mem_map.mpr ⟨c, List.mem_append_left _ mem, by simp⟩

theorem recency_mem_mixed (uses : .recency ∈ kinds) : ⟨.recency, used⟩ ∈ mixed kinds used arrived :=
  List.mem_map.mpr ⟨.recency, List.mem_append_left _ uses, by simp⟩

theorem arrival_mem_mixed (arrives : .arrival ∈ kinds) :
    ⟨.arrival, arrived⟩ ∈ mixed kinds used arrived :=
  List.mem_map.mpr ⟨.arrival, List.mem_append_left _ arrives, by simp⟩

theorem touch_mixed (there : k ∈ used) :
    (mixed kinds used arrived).map (·.touch k) = mixed kinds (used.erase k ++ [k]) arrived := by
  rw [mixed, List.map_map]
  refine List.map_congr_left fun c _ => ?_
  by_cases uses : c = .recency <;> simp [Shelf.touch, uses, there]

theorem put_mixed_of_free (free : used.length < room) (free' : arrived.length < room)
    (new : k ∉ used) (new' : k ∉ arrived) :
    put room k (mixed kinds used arrived) = mixed kinds (used ++ [k]) (arrived ++ [k]) := by
  have stay (c : Keeping) :
      Shelf.leaving room k ⟨c, if c = .recency then used else arrived⟩ = [] := by
    split
    · exact Shelf.leaving_of_free free c
    · exact Shelf.leaving_of_free free' c
  rw [put_of_leaving]
  · rw [mixed, List.map_map]
    refine List.map_congr_left fun c _ => ?_
    by_cases uses : c = .recency
    · subst uses
      exact Shelf.put_of_leaving (stay .recency) new
    · have stay := stay c
      rw [if_neg uses] at stay
      simpa [uses] using Shelf.put_of_leaving stay new'
  · intro p mem
    obtain ⟨c, -, rfl⟩ := List.mem_map.mp mem
    exact stay c

end

theorem served_puts (kinds : List Keeping) (keys : List CacheKey) (distinct : keys.Nodup) (room : Nat)
    (bounded : keys.length ≤ room) :
    (puts keys).foldl (serve room) (fresh kinds) = mixed kinds keys keys := by
  induction keys using List.reverseRecOn with
  | nil => simp [mixed, puts, fresh]
  | append_singleton keys k ih =>
    rw [List.length_append, List.length_singleton] at bounded
    obtain ⟨distinct, -, new⟩ := List.nodup_append.mp distinct
    have new : k ∉ keys := fun there => new k there k List.mem_cons_self rfl
    rw [puts, List.map_append, List.map_singleton, List.foldl_concat, ← puts,
      ih distinct (Nat.le_of_succ_le bounded)]
    exact put_mixed_of_free bounded bounded new new

theorem length_le_card_puts {keys : List CacheKey} (distinct : keys.Nodup) (later : List Demand) :
    keys.length ≤ (Demand.keysPut (puts keys ++ later)).card := by
  have own : (puts keys).filterMap Demand.putKey? = keys := by
    simp [puts, List.filterMap_map, Function.comp_def, Demand.putKey?]
  rw [Demand.keysPut, List.filterMap_append, own, ← List.toFinset_card_of_nodup distinct]
  exact Finset.card_le_card fun j mem => by simp_all

theorem putsOrGets_puts (keys : List CacheKey) : ∀ d ∈ puts keys, d.PutsOrGets := by
  intro d mem
  obtain ⟨k, -, rfl⟩ := List.mem_map.mp mem
  exact .inl ⟨k, _, rfl⟩

/-- Some run fills the tower, and then a new key costs it as much of its room. -/
def Crowded (room : Nat) (kinds : List Keeping) (loss : Nat) : Prop :=
  ∃ past k, (∀ d ∈ past, d.PutsOrGets) ∧ room ≤ (Demand.keysPut past).card ∧
    (held (past.foldl (serve room) (fresh kinds))).length = room ∧
    k ∉ held (past.foldl (serve room) (fresh kinds)) ∧
    (held ((past.foldl (serve room) (fresh kinds)).put room k)).length + loss ≤ room

section

variable (positive : 1 ≤ room) (nonempty : kinds ≠ []) (evicts : ∀ c ∈ kinds, c ≠ .everything)

include positive nonempty evicts

theorem crowded_of_leaving {keys line : List CacheKey} (distinct : keys.Nodup)
    (length : keys.length = room) {later : List Demand} (runs : ∀ d ∈ later, d.PutsOrGets)
    (same : (puts keys ++ later).foldl (serve room) (fresh kinds) = t) (there : held t = line)
    (full : line.length = room) (new : k ∉ line) {first : CacheKey} (apart : (first :: gone).Nodup)
    (leave : ∀ j ∈ first :: gone, j ∈ line ∧ ∃ q ∈ t, j ∈ q.leaving room k) :
    Crowded room kinds gone.length := by
  subst there
  have healthy := (kept_served positive nonempty evicts (puts keys ++ later)).healthy
  rw [same] at healthy
  have count := healthy.ranked.fit.length_add_le positive healthy.ne_nil new apart leave
  refine ⟨puts keys ++ later, k, fun d mem => ?_, ?_, ?_⟩
  · exact (List.mem_append.mp mem).elim (putsOrGets_puts keys d) (runs d)
  · exact length ▸ length_le_card_puts distinct later
  · rw [same]
    rw [List.length_cons] at count
    exact ⟨full, new, by omega⟩

theorem crowded_zero : Crowded room kinds 0 := by
  obtain ⟨keys, distinct, length⟩ := CacheKey.exists_distinct (room + 1)
  obtain ⟨k, first, rest, rfl⟩ : ∃ k first rest, keys = k :: first :: rest := by
    match keys, length with
    | k :: first :: rest, _ => exact ⟨k, first, rest, rfl⟩
    | [_], length => exact absurd length (by simp; omega)
  obtain ⟨new, distinct⟩ := List.nodup_cons.mp distinct
  replace length : (first :: rest).length = room := Nat.succ.inj length
  have same := served_puts kinds (first :: rest) distinct room length.le
  rw [← List.append_nil (puts _)] at same
  obtain ⟨outer, mem⟩ := List.exists_mem_of_ne_nil kinds nonempty
  have leaves := Shelf.leaving_of_full (evicts outer mem) length new
  refine crowded_of_leaving positive nonempty evicts distinct length (by simp) same
    (held_mixed ..) length new (List.nodup_singleton first) fun j there => ?_
  obtain rfl := List.mem_singleton.mp there
  exact ⟨List.mem_cons_self, _, mem_mixed mem, leaves ▸ List.mem_cons_self⟩

end

section

variable {first second : CacheKey} {rest : List CacheKey}

theorem served_crossed (kinds : List Keeping) (distinct : (first :: second :: rest).Nodup)
    (bounded : rest.length + 2 ≤ room) :
    (puts (first :: second :: rest) ++ [Demand.get first]).foldl (serve room) (fresh kinds) =
      mixed kinds (second :: rest ++ [first]) (first :: second :: rest) := by
  rw [List.foldl_concat, served_puts kinds _ distinct room bounded]
  have there : first ∈ first :: second :: rest := List.mem_cons_self
  have used : (mixed kinds _ (first :: second :: rest)).map (·.touch first) = _ :=
    touch_mixed there
  rwa [List.erase_cons_head] at used

theorem crowded_one (roomy : 2 ≤ room) (evicts : ∀ c ∈ kinds, c ≠ .everything)
    (uses : .recency ∈ kinds) (arrives : .arrival ∈ kinds) : Crowded room kinds 1 := by
  obtain ⟨keys, distinct, length⟩ := CacheKey.exists_distinct (room + 1)
  obtain ⟨k, first, second, rest, rfl⟩ : ∃ k first second rest, keys = k :: first :: second :: rest := by
    match keys, length with
    | k :: first :: second :: rest, _ => exact ⟨k, first, second, rest, rfl⟩
    | [_], length | [_, _], length => exact absurd length (by simp; omega)
  obtain ⟨new, distinct⟩ := List.nodup_cons.mp distinct
  replace length : (first :: second :: rest).length = room := Nat.succ.inj length
  have full : (second :: rest).length + 1 = room := length
  have full' : (rest ++ [first]).length + 1 = room := by simpa using length
  have apart : [first, second].Nodup :=
    distinct.sublist (List.nil_sublist rest |>.cons_cons second |>.cons_cons first)
  have arrived := Shelf.leaving_of_full (by simp : Keeping.arrival ≠ .everything) full new
  have used : Shelf.leaving room k ⟨.recency, second :: rest ++ [first]⟩ = [second] :=
    Shelf.leaving_of_full (by simp) full' fun mem =>
      new ((List.perm_append_singleton first (second :: rest)).mem_iff.mp mem)
  refine crowded_of_leaving (by omega) (List.ne_nil_of_mem uses) evicts distinct length
    (fun d mem => .inr ⟨first, List.mem_singleton.mp mem⟩) (served_crossed kinds distinct length.le)
    (held_mixed ..) length new apart fun j mem => ?_
  obtain rfl | mem := List.mem_cons.mp mem
  · exact ⟨List.mem_cons_self, _, arrival_mem_mixed arrives, arrived ▸ List.mem_cons_self⟩
  · obtain rfl := List.mem_singleton.mp mem
    exact ⟨List.mem_cons_of_mem _ List.mem_cons_self, _, recency_mem_mixed uses,
      used ▸ List.mem_cons_self⟩

theorem leaving_crossed (distinct : (k :: first :: second :: rest).Nodup)
    (full : rest.length + 2 = room) (c : Keeping) :
    Shelf.leaving room k
      ⟨c, if c = .recency then second :: rest ++ [first] else first :: second :: rest⟩ =
        if c = .recency then [second] else if c = .arrival then [first] else [] := by
  have new := (List.nodup_cons.mp distinct).1
  cases c with
  | recency =>
    refine Shelf.leaving_of_full (by simp) (by simpa using full) fun mem => new ?_
    exact (List.perm_append_singleton first (second :: rest)).mem_iff.mp mem
  | arrival => exact Shelf.leaving_of_full (by simp) full new
  | everything => rfl

/-- What leaves here or there is gone everywhere, and then the layers agree again. -/
theorem put_crossed (distinct : (k :: first :: second :: rest).Nodup)
    (full : rest.length + 2 = room) (below : List Keeping) :
    (put room k (mixed (.recency :: below) (second :: rest ++ [first])
      (first :: second :: rest))).map (·.without [first]) =
        mixed (.recency :: below) (rest ++ [k]) (rest ++ [k]) := by
  have leaves := leaving_crossed distinct full
  have new := (List.nodup_cons.mp distinct).1
  simp only [List.nodup_cons, List.mem_cons, not_or] at distinct
  obtain ⟨⟨apart, apart', -⟩, ⟨-, out⟩, out', -⟩ := distinct
  have stays : ∀ j ∈ rest, j ≠ second ∧ j ≠ first := fun j mem =>
    ⟨ne_of_mem_of_not_mem mem out', ne_of_mem_of_not_mem mem out⟩
  have shelf (c : Keeping) : (Shelf.put room k
      ⟨c, if c = .recency then second :: rest ++ [first] else first :: second :: rest⟩).without
        [second, first] = ⟨c, rest ++ [k]⟩ := by
    have absent : k ∉ if c = .recency then second :: rest ++ [first] else first :: second :: rest := by
      split
      · exact fun mem => new ((List.perm_append_singleton first (second :: rest)).mem_iff.mp mem)
      · exact new
    rw [Shelf.put, if_neg absent, leaves]
    cases c <;> simpa [Shelf.without, apart, apart'] using stays
  have inner : ((put room k (mixed below (second :: rest ++ [first])
      (first :: second :: rest))).map (·.without [second])).map (·.without [first]) =
        mixed below (rest ++ [k]) (rest ++ [k]) := by
    simp only [List.map_map, Function.comp_def, Shelf.without_without, List.singleton_append]
    rw [map_without_put, mixed, mixed, List.map_map]
    · refine List.map_congr_left fun c _ => ?_
      simpa using shelf c
    · intro p mem
      obtain ⟨c, -, rfl⟩ := List.mem_map.mp mem
      rw [leaves]
      cases c <;> simp
  have leaves : Shelf.leaving room k ⟨.recency, second :: rest ++ [first]⟩ = [second] :=
    leaves .recency
  have outer : (Shelf.put room k ⟨.recency, second :: rest ++ [first]⟩).without [first] =
      ⟨.recency, rest ++ [k]⟩ := by
    have absent : k ∉ second :: rest ++ [first] := fun mem =>
      new ((List.perm_append_singleton first (second :: rest)).mem_iff.mp mem)
    rw [Shelf.put, if_neg absent, leaves]
    simpa [Shelf.without, apart] using fun j mem => (stays j mem).2
  rw [← leaves] at inner
  have whole := congr (congrArg List.cons outer) inner
  exact whole

theorem mixed_append (n : Nat) (kinds : List Keeping) (used arrived : List CacheKey) :
    mixed (List.replicate n .arrival ++ kinds) used arrived =
      List.replicate n ⟨.arrival, arrived⟩ ++ mixed kinds used arrived := by
  simp [mixed]

section

variable {n : Nat} {below : List Keeping} {line : List CacheKey}

theorem fits_of_length {c : Keeping} (distinct : line.Nodup) (full : line.length = room) :
    Shelf.Fits room ⟨c, line⟩ := ⟨distinct, fun _ => full.le⟩

theorem put_crossed_below (distinct : (k :: first :: second :: rest).Nodup)
    (full : rest.length + 2 = room) :
    put room k (mixed (List.replicate (n + 1) .arrival ++ .recency :: below)
      (second :: rest ++ [first]) (first :: second :: rest)) =
        List.replicate (n + 1) ⟨.arrival, second :: (rest ++ [k])⟩ ++
          mixed (.recency :: below) (rest ++ [k]) (rest ++ [k]) := by
  obtain ⟨new, distinct'⟩ := List.nodup_cons.mp distinct
  have length : (second :: rest).length + 1 = room := full
  rw [mixed_append, put_replicate (fits_of_length distinct' full),
    Shelf.put_of_full (by simp) length new, Shelf.leaving_of_full (by simp) length new,
    put_crossed distinct full, List.cons_append]

theorem put_back (distinct : (k :: line).Nodup) (full : line.length + 1 = room)
    (kinds : List Keeping) :
    put room k (List.replicate (n + 1) ⟨.arrival, k :: line⟩ ++ mixed kinds line line) =
      List.replicate (n + 1) ⟨.arrival, k :: line⟩ ++
        mixed kinds (line ++ [k]) (line ++ [k]) := by
  have new := (List.nodup_cons.mp distinct).1
  have stay : Shelf.leaving room k ⟨.arrival, k :: line⟩ = [] := by simp [Shelf.leaving]
  have same : Shelf.put room k ⟨.arrival, k :: line⟩ = ⟨.arrival, k :: line⟩ := by
    simp [Shelf.put, Shelf.touch]
  rw [put_replicate (fits_of_length distinct full), stay, same,
    put_mixed_of_free (by omega) (by omega) new new]
  simp

theorem touch_below (there : k ∈ line) (outer : List CacheKey) :
    (List.replicate n (⟨.arrival, outer⟩ : Shelf) ++ mixed kinds line line).map (·.touch k) =
      List.replicate n ⟨.arrival, outer⟩ ++ mixed kinds (line.erase k ++ [k]) line := by
  rw [List.map_append, touch_mixed there]
  simp [Shelf.touch]

end

/-- A key that has gone from all layers but the outermost ones comes back, and now the layers of
arrival do not agree either. -/
theorem served_twice_crossed {third : CacheKey} (n : Nat) (below : List Keeping)
    (distinct : (k :: first :: second :: third :: rest).Nodup)
    (back : (second :: third :: (rest ++ [k])).Nodup) (full : rest.length + 3 = room) :
    (puts (first :: second :: third :: rest) ++
      ([.get first, .put k .placeholder, .put second .placeholder, .get third] : List Demand)).foldl
        (serve room) (fresh (List.replicate (n + 1) .arrival ++ .recency :: below)) =
      List.replicate (n + 1) ⟨.arrival, second :: third :: (rest ++ [k])⟩ ++
        mixed (.recency :: below) (rest ++ [k] ++ [second] ++ [third])
          (third :: (rest ++ [k] ++ [second])) := by
  have crossed := served_crossed (List.replicate (n + 1) .arrival ++ .recency :: below)
    (List.nodup_cons.mp distinct).2 full.le
  have there : third ∈ third :: (rest ++ [k]) ++ [second] := List.mem_cons_self
  calc
    _ = (((((puts (first :: second :: third :: rest) ++ [Demand.get first]).foldl (serve room)
          (fresh (List.replicate (n + 1) .arrival ++ .recency :: below))).put room k).put room
            second).map (·.touch third)) := by simp [serve]
    _ = _ := by
      rw [crossed, put_crossed_below distinct full, List.cons_append,
        put_back back (by simpa using full), touch_below there]
      simp

theorem leaving_twice_crossed {third fourth : CacheKey}
    (distinct : (k :: second :: third :: fourth :: rest).Nodup) (full : rest.length + 3 = room) :
    k ∉ third :: fourth :: (rest ++ [second]) ∧
      Shelf.leaving room k ⟨.arrival, second :: third :: fourth :: rest⟩ = [second] ∧
      Shelf.leaving room k ⟨.arrival, third :: fourth :: (rest ++ [second])⟩ = [third] ∧
      Shelf.leaving room k ⟨.recency, fourth :: (rest ++ [second] ++ [third])⟩ = [fourth] := by
  have new := (List.nodup_cons.mp distinct).1
  have once : (third :: fourth :: (rest ++ [second])).Perm (second :: third :: fourth :: rest) :=
    List.perm_append_singleton second (third :: fourth :: rest)
  have twice : (fourth :: (rest ++ [second] ++ [third])).Perm
      (third :: fourth :: (rest ++ [second])) :=
    List.perm_append_singleton third (fourth :: (rest ++ [second]))
  have new' : k ∉ third :: fourth :: (rest ++ [second]) := fun mem => new (once.mem_iff.mp mem)
  refine ⟨new', Shelf.leaving_of_full (by simp) full new,
    Shelf.leaving_of_full (by simp) (by simpa using full) new', ?_⟩
  exact Shelf.leaving_of_full (by simp) (by simpa using full) fun mem => new' (twice.mem_iff.mp mem)

theorem crowded_two {n : Nat} {below : List Keeping} (roomy : 3 ≤ room)
    (evicts : ∀ c ∈ below, c ≠ .everything) (arrives : .arrival ∈ below) :
    Crowded room (List.replicate (n + 1) .arrival ++ .recency :: below) 2 := by
  obtain ⟨keys, distinct, length⟩ := CacheKey.exists_distinct (room + 2)
  obtain ⟨last, k, first, second, third, rest, rfl⟩ :
      ∃ last k first second third rest, keys = last :: k :: first :: second :: third :: rest := by
    have five : 5 ≤ keys.length := by omega
    obtain _ | ⟨last, _ | ⟨k, _ | ⟨first, _ | ⟨second, _ | ⟨third, rest⟩⟩⟩⟩⟩ := keys
    · simp at five
    · simp at five
    · simp at five
    · simp at five
    · simp at five
    · exact ⟨last, k, first, second, third, rest, rfl⟩
  obtain ⟨new, distinct⟩ := List.nodup_cons.mp distinct
  replace length : rest.length + 3 = room := by simpa using length
  -- the keys that are there when the last one comes
  have perm : (second :: third :: (rest ++ [k])).Perm (k :: second :: third :: rest) :=
    List.perm_append_singleton k (second :: third :: rest)
  have others : (k :: second :: third :: rest).Sublist (k :: first :: second :: third :: rest) :=
    (List.sublist_cons_self first _).cons_cons k
  have back := perm.nodup_iff.mpr (distinct.sublist others)
  have absent : last ∉ second :: third :: (rest ++ [k]) := fun mem =>
    new (others.subset (perm.mem_iff.mp mem))
  have served := served_twice_crossed n below distinct back length
  have count : (rest ++ [k]).length = rest.length + 1 := List.length_append
  obtain ⟨fourth, tail, front⟩ : ∃ fourth tail, rest ++ [k] = fourth :: tail :=
    List.exists_cons_of_ne_nil (by simp)
  rw [front] at served back absent count
  simp only [List.cons_append, List.length_cons, Nat.add_right_cancel_iff] at served count
  rw [← count] at length
  have apart : [second, third, fourth].Nodup := back.sublist (by simp)
  obtain ⟨absent', outermost, inner, between⟩ :=
    leaving_twice_crossed (List.nodup_cons.mpr ⟨absent, back⟩) length
  refine crowded_of_leaving (by omega) (by simp) ?_ (List.nodup_cons.mp distinct).2
    (by simp; omega) ?_ served (held_append_mixed ..) (by simpa using length) absent' apart
    fun j mem => ?_
  · intro c mem
    obtain mem | mem := List.mem_append.mp mem
    · simp [List.eq_of_mem_replicate mem]
    · obtain rfl | mem := List.mem_cons.mp mem
      · simp
      · exact evicts c mem
  · intro d mem
    simp only [List.mem_cons, List.not_mem_nil, or_false] at mem
    obtain rfl | rfl | rfl | rfl := mem
    · exact .inr ⟨first, rfl⟩
    · exact .inl ⟨k, _, rfl⟩
    · exact .inl ⟨second, _, rfl⟩
    · exact .inr ⟨third, rfl⟩
  · simp only [List.mem_cons, List.not_mem_nil, or_false] at mem
    obtain rfl | rfl | rfl := mem
    · refine ⟨by simp, _, List.mem_append_left _ (List.mem_replicate.mpr ⟨by simp, rfl⟩), ?_⟩
      rw [outermost]
      exact List.mem_cons_self
    · refine ⟨by simp, _, List.mem_append_right _ (arrival_mem_mixed (by simp [arrives])), ?_⟩
      rw [inner]
      exact List.mem_cons_self
    · refine ⟨by simp, _, List.mem_append_right _ (recency_mem_mixed (by simp)), ?_⟩
      rw [between]
      exact List.mem_cons_self

end

/-- How many entries a tower can lack: one if layers of arrival are above the first layer of use, and
one if there are some below it. -/
def shortfall (kinds : List Keeping) : Nat :=
  (if kinds.head? = some .arrival ∧ .recency ∈ kinds then 1 else 0) +
    if [.recency, .arrival].Sublist kinds then 1 else 0

theorem lag_of_arrivals (arrivals : ∀ c ∈ kinds, c = .arrival) : lag kinds = 0 := by
  induction kinds using lag.induct with
  | case1 outer inner below ih =>
    have first := arrivals outer List.mem_cons_self
    have second := arrivals inner (List.mem_cons_of_mem _ List.mem_cons_self)
    rw [lag, ih fun c mem => arrivals c (List.mem_cons_of_mem _ mem), first, second]
    rfl
  | case2 kinds short => rw [lag]; exact short

theorem sublist_arrival_iff {below : List Keeping} :
    [.recency, .arrival].Sublist (Keeping.arrival :: below) ↔
      [.recency, .arrival].Sublist below := by
  simp [List.sublist_cons_iff]

theorem sublist_recency_iff {below : List Keeping} :
    [.recency, .arrival].Sublist (Keeping.recency :: below) ↔ .arrival ∈ below := by
  simp

theorem shortfall_le (kinds : List Keeping) : shortfall kinds ≤ 2 := by
  unfold shortfall
  split <;> split <;> omega

theorem mem_of_shortfall (some : shortfall kinds ≠ 0) : .recency ∈ kinds ∧ .arrival ∈ kinds := by
  unfold shortfall at some
  split at some
  · rename_i outer
    exact ⟨outer.2, List.mem_of_head? outer.1⟩
  · split at some
    · rename_i upon
      exact ⟨upon.subset (by simp), upon.subset (by simp)⟩
    · exact absurd rfl some

theorem of_shortfall_eq_two (both : shortfall kinds = 2) :
    kinds.head? = some .arrival ∧ [.recency, .arrival].Sublist kinds := by
  unfold shortfall at both
  split at both
  · rename_i outer
    split at both
    · rename_i upon
      exact ⟨outer.1, upon⟩
    · omega
  · split at both <;> omega

variable (only : ∀ c ∈ kinds, c = .recency ∨ c = .arrival)

include only

theorem lag_sparse : lag (sparse id kinds) = shortfall kinds := by
  induction kinds with
  | nil => rfl
  | cons c below ih =>
    obtain ⟨first, rest⟩ := List.forall_mem_cons.mp only
    obtain rfl | rfl := first
    · generalize others : below.filter (id · ≠ .recency) = inner
      have mem (c : Keeping) : c ∈ inner ↔ c ∈ below ∧ c ≠ .recency := by simp [← others]
      have arrivals : ∀ c ∈ inner, c = .arrival := fun c there =>
        (rest c ((mem c).mp there).1).resolve_left ((mem c).mp there).2
      have whole : sparse id (.recency :: below) = .recency :: inner := by simp [sparse, ← others]
      simp only [whole, shortfall, sublist_recency_iff]
      cases inner with
      | nil =>
        have none : .arrival ∉ below := fun there => by
          cases (mem .arrival).mpr ⟨there, by simp⟩
        simp [lag, none]
      | cons c inner =>
        obtain rfl := arrivals c List.mem_cons_self
        have some : .arrival ∈ below := ((mem .arrival).mp List.mem_cons_self).1
        simp [lag, lag_of_arrivals arrivals, Shelf.lag, some]
    · have whole : sparse id (.arrival :: below) = .arrival :: sparse id below := by simp [sparse]
      rw [whole]
      cases below with
      | nil => rfl
      | cons inner below =>
        obtain ⟨more, same⟩ := exists_sparse_cons id inner below
        rw [same, lag, ← same, ih rest]
        simp only [shortfall, sublist_arrival_iff]
        obtain rfl | rfl := rest inner List.mem_cons_self
        · simp [Shelf.lag]
        · simp [Shelf.lag]

theorem exists_below (upon : [.recency, .arrival].Sublist kinds) :
    ∃ n below, kinds = List.replicate n .arrival ++ .recency :: below ∧ .arrival ∈ below := by
  induction kinds with
  | nil => cases upon
  | cons c below ih =>
    obtain ⟨first, rest⟩ := List.forall_mem_cons.mp only
    obtain rfl | rfl := first
    · exact ⟨0, below, rfl, sublist_recency_iff.mp upon⟩
    · obtain ⟨n, inner, rfl, there⟩ := ih rest (sublist_arrival_iff.mp upon)
      exact ⟨n + 1, inner, rfl, there⟩

/-- A tower loses what it can lose, as long as it has room for it. -/
theorem crowded (positive : 1 ≤ room) (nonempty : kinds ≠ []) :
    Crowded room kinds (min (shortfall kinds) (room - 1)) := by
  have evicts : ∀ c ∈ kinds, c ≠ .everything := fun c mem => by
    obtain rfl | rfl := only c mem <;> simp
  have most := shortfall_le kinds
  by_cases none : min (shortfall kinds) (room - 1) = 0
  · rw [none]
    exact crowded_zero positive nonempty evicts
  by_cases one : min (shortfall kinds) (room - 1) = 1
  · rw [one]
    have some : shortfall kinds ≠ 0 := by omega
    obtain ⟨uses, arrives⟩ := mem_of_shortfall some
    exact crowded_one (by omega) evicts uses arrives
  · have two : min (shortfall kinds) (room - 1) = 2 := by omega
    rw [two]
    have both : shortfall kinds = 2 := by omega
    obtain ⟨first, upon⟩ := of_shortfall_eq_two both
    obtain ⟨n, below, rfl, arrives⟩ := exists_below only upon
    cases n with
    | zero => cases first
    | succ n =>
      refine crowded_two (by omega) (fun c mem => evicts c ?_) arrives
      exact List.mem_append_right _ (List.mem_cons_of_mem _ mem)

end Tower
end StatementCache
