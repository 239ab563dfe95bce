import StatementCache.Proofs.Contents.Retention

/-! Layers that have room for every key that is ever put do what a plain map does. Such a layer
never lets an entry go on its own; what it keeps beside the entries is invisible. -/
namespace StatementCache

open StatementCache.Action

namespace Table

variable {κ μ ν : Type} [DecidableEq κ] {f : ν → μ}

theorem find_map (k : κ) (entries : List (κ × ν)) :
    find k (entries.map fun e => (e.1, f e.2)) = (find k entries).map f := by
  induction entries with
  | nil => rfl
  | cons e rest ih =>
    simp only [List.map_cons, find, ih]
    split <;> rfl

theorem put_map (k : κ) (v : ν) (entries : List (κ × ν)) :
    put k (f v) (entries.map fun e => (e.1, f e.2)) =
      (put k v entries).map fun e => (e.1, f e.2) := by
  induction entries with
  | nil => rfl
  | cons e rest ih =>
    simp only [List.map_cons, put, ih]
    split <;> rfl

theorem drop_map (k : κ) (entries : List (κ × ν)) :
    drop k (entries.map fun e => (e.1, f e.2)) = (drop k entries).map fun e => (e.1, f e.2) := by
  induction entries with
  | nil => rfl
  | cons e rest ih =>
    simp only [List.map_cons, drop, ih]
    split <;> rfl

def mapValues (f : ν → μ) (t : Table κ ν) : Table κ μ where
  entries := t.entries.map fun e => (e.1, f e.2)
  distinct := by
    rw [List.map_map]
    exact t.distinct

theorem get?_mapValues (t : Table κ ν) (k : κ) : (t.mapValues f).get? k = (t.get? k).map f :=
  find_map k t.entries

theorem insert_mapValues (t : Table κ ν) (k : κ) (v : ν) :
    (t.mapValues f).insert k (f v) = (t.insert k v).mapValues f := by
  simp only [insert, mapValues, put_map]

theorem erase_mapValues (t : Table κ ν) (k : κ) :
    (t.mapValues f).erase k = (t.erase k).mapValues f := by
  simp only [erase, mapValues, drop_map]

omit [DecidableEq κ] in
theorem size_mapValues (t : Table κ ν) : (t.mapValues f).size = t.size := List.length_map ..

end Table

namespace Store

variable {σ τ : Type}

/-- The store answers what a map would that its states show. Only what is `allowed` may be put. -/
structure Mirrors (store : Store σ) (shows : σ → Entries → Prop)
    (allowed : CacheKey → Entry → Prop) : Prop where
  put : ∀ k e s m, allowed k e → shows s m →
    ∃ s', store.put k e s = ⟨.ok (), s'⟩ ∧ shows s' (m.insert k e)
  get : ∀ k s m, shows s m → ∃ s', store.get k s = ⟨.ok (m.get? k), s'⟩ ∧ shows s' m
  remove : ∀ k s m, shows s m →
    ∃ s', store.remove k s = ⟨.ok (m.get? k), s'⟩ ∧ shows s' (m.erase k)
  clear : ∀ s m, shows s m → ∃ s', store.clear s = ⟨.ok (), s'⟩ ∧ shows s' .empty
  size : ∀ s m, shows s m → ∃ s', store.size s = (m.size, s') ∧ shows s' m

variable {shows : σ → Entries → Prop} {allowed allowed' : CacheKey → Entry → Prop}

theorem Mirrors.mono {store : Store σ} (h : store.Mirrors shows allowed)
    (stronger : ∀ k e, allowed' k e → allowed k e) : store.Mirrors shows allowed' :=
  { h with put := fun k e s m may => h.put k e s m (stronger k e may) }

theorem Mirrors.beside {store : Store σ} (h : store.Mirrors shows allowed) :
    (store.beside : Store (σ × τ)).Mirrors (fun s => shows s.1) allowed where
  put k e s m may hs := by
    obtain ⟨s', run, shown⟩ := h.put k e s.1 m may hs
    exact ⟨(s', s.2), by simp [Store.beside, onFirst, run], shown⟩
  get k s m hs := by
    obtain ⟨s', run, shown⟩ := h.get k s.1 m hs
    exact ⟨(s', s.2), by simp [Store.beside, onFirst, run], shown⟩
  remove k s m hs := by
    obtain ⟨s', run, shown⟩ := h.remove k s.1 m hs
    exact ⟨(s', s.2), by simp [Store.beside, onFirst, run], shown⟩
  clear s m hs := by
    obtain ⟨s', run, shown⟩ := h.clear s.1 m hs
    exact ⟨(s', s.2), by simp [Store.beside, onFirst, run], shown⟩
  size s m hs := by
    obtain ⟨s', run, shown⟩ := h.size s.1 m hs
    exact ⟨(s', s.2), by simp [Store.beside, run], shown⟩

theorem Mirrors.regroup {store : Store σ} (h : store.Mirrors shows allowed) (split : τ → σ)
    (join : σ → τ) (inverse : ∀ s, split (join s) = s) :
    (store.regroup split join).Mirrors (fun t => shows (split t)) allowed where
  put k e t m may ht := by
    obtain ⟨s, run, shown⟩ := h.put k e (split t) m may ht
    exact ⟨join s, by simp [Store.regroup, run], by rwa [inverse]⟩
  get k t m ht := by
    obtain ⟨s, run, shown⟩ := h.get k (split t) m ht
    exact ⟨join s, by simp [Store.regroup, run], by rwa [inverse]⟩
  remove k t m ht := by
    obtain ⟨s, run, shown⟩ := h.remove k (split t) m ht
    exact ⟨join s, by simp [Store.regroup, run], by rwa [inverse]⟩
  clear t m ht := by
    obtain ⟨s, run, shown⟩ := h.clear (split t) m ht
    exact ⟨join s, by simp [Store.regroup, run], by rwa [inverse]⟩
  size t m ht := by
    obtain ⟨s, run, shown⟩ := h.size (split t) m ht
    exact ⟨join s, by simp [Store.regroup, run], by rwa [inverse]⟩

end Store

theorem length_le_of_roomy {index ks : List CacheKey} (distinct : index.Nodup)
    (known : index ⊆ ks) {capacity : Nat} (room : ks.length ≤ capacity) :
    index.length ≤ capacity :=
  Nat.le_trans (List.subperm_of_subset distinct known).length_le room

namespace Recency

structure Roomy (ks : List CacheKey) (r : Recency) : Prop where
  known : r.keys ⊆ ks
  distinct : r.keys.Nodup
  room : ks.length ≤ r.capacity

variable {ks : List CacheKey} {r : Recency} {k : CacheKey}

theorem Roomy.front (h : r.Roomy ks) (there : k ∈ ks) :
    ({ r with keys := k :: r.keys.erase k } : Recency).Roomy ks where
  known := List.cons_subset.mpr ⟨there, fun _ mem => h.known (List.mem_of_mem_erase mem)⟩
  distinct := List.nodup_cons.mpr ⟨h.distinct.not_mem_erase, h.distinct.erase k⟩
  room := h.room

theorem Roomy.touch (h : r.Roomy ks) : (r.touch k).Roomy ks := by
  unfold Recency.touch
  split
  · rename_i mem
    exact h.front (h.known mem)
  · exact h

theorem Roomy.push (h : r.Roomy ks) (there : k ∈ ks) :
    (r.push k).1 = none ∧ (r.push k).2.Roomy ks := by
  unfold Recency.push
  split
  · exact ⟨rfl, h.front there⟩
  · rename_i new
    have entered : (k :: r.keys).Nodup := List.nodup_cons.mpr ⟨new, h.distinct⟩
    have known : k :: r.keys ⊆ ks := List.cons_subset.mpr ⟨there, h.known⟩
    have fits : r.keys.length < r.capacity := length_le_of_roomy entered known h.room
    rw [if_pos fits]
    exact ⟨rfl, known, entered, h.room⟩

theorem Roomy.forget (h : r.Roomy ks) : (r.forget k).Roomy ks :=
  ⟨fun _ mem => h.known (List.mem_of_mem_erase mem), h.distinct.erase k, h.room⟩

end Recency

namespace Arrivals

structure Roomy (ks : List CacheKey) (a : Arrivals) : Prop where
  known : a.queue ⊆ ks
  distinct : a.queue.Nodup
  members : ∀ k, k ∈ a.members ↔ k ∈ a.queue
  single : a.members.Nodup
  room : ks.length ≤ a.capacity

variable {ks : List CacheKey} {a : Arrivals} {k : CacheKey}

theorem Roomy.trim (h : a.Roomy ks) : a.trim.1 = [] ∧ a.trim.2.Roomy ks := by
  have fits : a.queue.length - a.capacity = 0 :=
    Nat.sub_eq_zero_of_le (length_le_of_roomy h.distinct h.known h.room)
  simp only [Arrivals.trim, fits, List.take_zero, List.drop_zero]
  refine ⟨trivial, h.known, h.distinct, fun k => ?_, ?_, h.room⟩
  · simpa [List.removeAll] using h.members k
  · simpa [List.removeAll] using h.single

theorem Roomy.enqueue (h : a.Roomy ks) (there : k ∈ ks) :
    (a.enqueue k).1 = [] ∧ (a.enqueue k).2.Roomy ks := by
  unfold Arrivals.enqueue
  split
  · exact h.trim
  · rename_i new
    have absent : k ∉ a.queue := fun mem => new ((h.members k).mpr mem)
    refine Roomy.trim
      ⟨fun j mem => ?_, ?_, fun j => ?_, List.nodup_cons.mpr ⟨new, h.single⟩, h.room⟩
    · obtain mem | mem := List.mem_append.mp mem
      · exact h.known mem
      · exact List.mem_singleton.mp mem ▸ there
    · exact List.nodup_append.mpr ⟨h.distinct, by simp, fun j mem i same => by
        rintro rfl
        exact absent (List.mem_singleton.mp same ▸ mem)⟩
    · simp only [List.mem_cons, List.mem_append, h.members j, List.not_mem_nil, or_false]
      exact or_comm

theorem Roomy.forget (h : a.Roomy ks) : (a.forget k).Roomy ks := by
  unfold Arrivals.forget
  split
  · refine ⟨fun j mem => h.known (List.mem_filter.mp mem).1, h.distinct.filter _, fun j => ?_,
      h.single.erase k, h.room⟩
    simp only [h.single.mem_erase_iff, h.members j, List.mem_filter, decide_eq_true_eq]
    exact and_comm
  · exact h

end Arrivals

namespace Tiers

/-- The warm tier has room for all of `ks`, no key is in it but these, and no key grows too old
for it. Every key of the map is warm. -/
structure Roomy (ks : List CacheKey) (t : Tiers) (m : Entries) : Prop where
  known : t.warm.map (·.1) ⊆ ks
  distinct : (t.warm.map (·.1)).Nodup
  hot : t.hot ⊆ t.warm.map (·.1)
  held : ∀ k, m.get? k ≠ none → k ∈ t.warm.map (·.1)
  ageless : t.timeToLive = none
  drained : t.reclaimed = []
  room : ks.length ≤ t.warmCapacity

variable {ks : List CacheKey} {t : Tiers} {m : Entries} {k : CacheKey} {now : Nat}

theorem map_withoutWarm (t : Tiers) (k : CacheKey) :
    (t.withoutWarm k).map (·.1) = (t.warm.map (·.1)).filter (· ≠ k) := by
  rw [List.filter_map]
  rfl

theorem Roomy.renewed (h : t.Roomy ks m) (there : k ∈ ks) {m' : Entries}
    (kept : ∀ j, m'.get? j ≠ none → j = k ∨ m.get? j ≠ none) (since : Nat) :
    ({ t with warm := (k, since) :: t.withoutWarm k } : Tiers).Roomy ks m' where
  known := by
    rw [List.map_cons, map_withoutWarm]
    exact List.cons_subset.mpr ⟨there, fun _ mem => h.known (List.mem_filter.mp mem).1⟩
  distinct := by
    rw [List.map_cons, map_withoutWarm]
    exact List.nodup_cons.mpr ⟨by simp, h.distinct.filter _⟩
  hot j mem := mem_renewed.mpr (.inr (h.hot mem))
  held j there := mem_renewed.mpr ((kept j there).imp_right (h.held j))
  ageless := h.ageless
  drained := h.drained
  room := h.room

theorem Roomy.enter (h : t.Roomy ks m) (there : k ∈ ks) {m' : Entries}
    (kept : ∀ j, m'.get? j ≠ none → j = k ∨ m.get? j ≠ none) :
    (t.enter now k).Roomy ks m' := by
  unfold Tiers.enter
  split
  · exact h.renewed there kept now
  · rename_i new
    rw [isWarm_iff] at new
    have entered : (k :: t.warm.map (·.1)).Nodup := List.nodup_cons.mpr ⟨new, h.distinct⟩
    have known : k :: t.warm.map (·.1) ⊆ ks := List.cons_subset.mpr ⟨there, h.known⟩
    have fits := length_le_of_roomy entered known h.room
    rw [List.length_cons, List.length_map, Nat.succ_le_iff] at fits
    rw [if_pos fits]
    exact ⟨known, entered, fun j mem => List.mem_cons_of_mem _ (h.hot mem),
      fun j there => List.mem_cons.mpr ((kept j there).imp_right (h.held j)), h.ageless, h.drained,
      h.room⟩

theorem Roomy.use (h : t.Roomy ks m) (now : Nat) (there : m.get? k ≠ none) :
    (t.use now k).1 = true ∧ (t.use now k).2.Roomy ks m := by
  have warm := h.held k there
  obtain ⟨⟨j, since⟩, found⟩ := Option.ne_none_iff_exists'.mp
    (show t.warm.find? (fun e => e.1 = k) ≠ none by simpa using warm)
  simp only [Tiers.use, found]
  exact ⟨by rw [h.ageless]; rfl, h.renewed (h.known warm) (fun _ => .inr) since⟩

theorem demote_of_warm (now count : Nat) {t : Tiers} (warm : t.hot ⊆ t.warm.map (·.1)) :
    ∃ hot, hot ⊆ t.hot ∧
      t.demote now (fun t k => !t.isWarm k) count = { t with hot := hot } := by
  induction count generalizing t with
  | zero => exact ⟨t.hot, List.Subset.refl _, rfl⟩
  | succ count ih =>
    unfold demote
    cases last : t.hot.getLast? with
    | none => exact ⟨t.hot, List.Subset.refl _, rfl⟩
    | some k =>
      have fewer : t.hot.dropLast ⊆ t.hot := List.dropLast_subset _
      have still : ({ t with hot := t.hot.dropLast } : Tiers).isWarm k = true :=
        isWarm_iff.mpr (warm (List.mem_of_getLast? last))
      obtain ⟨hot, sub, demoted⟩ := @ih { t with hot := t.hot.dropLast }
        (List.Subset.trans fewer warm)
      refine ⟨hot, List.Subset.trans sub fewer, ?_⟩
      simp only [still, Bool.not_true, Bool.false_eq_true, if_false, demoted]

theorem Roomy.promote (h : t.Roomy ks m) (there : m.get? k ≠ none) :
    (t.promote now k).Roomy ks m := by
  have warm : k :: t.hot ⊆ t.warm.map (·.1) := List.cons_subset.mpr ⟨h.held k there, h.hot⟩
  obtain ⟨hot, sub, demoted⟩ :=
    demote_of_warm now ((k :: t.hot).length - t.hotSize) (t := { t with hot := k :: t.hot })
      warm
  unfold Tiers.promote
  rw [demoted]
  exact { h with hot := List.Subset.trans sub warm }

theorem Roomy.forget (h : t.Roomy ks m) : (t.forget k).Roomy ks (m.erase k) where
  known := by
    simp only [Tiers.forget, map_withoutWarm]
    exact fun _ mem => h.known (List.mem_filter.mp mem).1
  distinct := by
    simp only [Tiers.forget, map_withoutWarm]
    exact h.distinct.filter _
  hot j mem := by
    simp only [Tiers.forget, map_withoutWarm]
    obtain ⟨mem, other⟩ := List.mem_filter.mp mem
    exact List.mem_filter.mpr ⟨h.hot mem, other⟩
  held j there := by
    rw [Table.get?_erase] at there
    simp only [Tiers.forget, map_withoutWarm]
    split at there
    · exact absurd rfl there
    · rename_i other
      exact List.mem_filter.mpr ⟨h.held j there, decide_eq_true (Ne.symm other)⟩
  ageless := h.ageless
  drained := h.drained
  room := h.room

theorem Roomy.clear (h : t.Roomy ks m) : t.clear.Roomy ks .empty :=
  ⟨List.nil_subset _, .nil, List.nil_subset _, fun _ there => absurd (Table.get?_empty _) there,
    h.ageless, rfl, h.room⟩

end Tiers

namespace Locks

def Private (thread : Thread) (l : Locks) : Prop :=
  ∀ k owner, l.owner? k = some owner → owner = thread

variable {l : Locks} {thread : Thread} {k : CacheKey}

theorem Private.claimed (h : l.Private thread) (k : CacheKey) : (l.claim thread k).1 = true :=
  (claim_fst ..).mpr (h k)

theorem Private.claim (h : l.Private thread) : (l.claim thread k).2.Private thread := by
  intro j owner own
  rw [owner?_claim (h.claimed k)] at own
  split at own
  · exact (Option.some.inj own).symm
  · exact h j owner own

theorem Private.release (h : l.Private thread) : (l.release thread k).Private thread := by
  intro j owner own
  rw [owner?_release] at own
  split at own
  · cases own
  · exact h j owner own

end Locks

namespace Layer

variable {τ : Type} {inner : Store τ} {shows : τ → Entries → Prop} {ks : List CacheKey}
  {allowed : CacheKey → Entry → Prop}

theorem mirrors_base (name : String) : (base name).Mirrors Eq allowed where
  put k e _ m _ same := ⟨m.insert k e, by rw [same]; rfl, rfl⟩
  get _ _ m same := ⟨m, by rw [same]; rfl, rfl⟩
  remove k _ m same := ⟨m.erase k, by rw [same]; rfl, rfl⟩
  clear _ _ _ := ⟨.empty, rfl, rfl⟩
  size _ m same := ⟨m, by rw [same]; rfl, rfl⟩

theorem mirrors_lru (h : inner.Mirrors shows allowed) (known : ∀ k e, allowed k e → k ∈ ks) :
    (lru inner).Mirrors (fun s m => s.1.Roomy ks ∧ shows s.2 m) allowed where
  put k e s m may hs := by
    obtain ⟨t, run, shown⟩ := h.put k e s.2 m may hs.2
    obtain ⟨stays, roomy⟩ := hs.1.push (known k e may)
    exact ⟨((s.1.push k).2, t), by simp [lru, bind_apply, onFirst, onSecond, run, stays],
      roomy, shown⟩
  get k s m hs := by
    obtain ⟨t, run, shown⟩ := h.get k s.2 m hs.2
    exact ⟨(s.1.touch k, t), by simp [lru, bind_apply, onFirst, onSecond, run], hs.1.touch, shown⟩
  remove k s m hs := by
    obtain ⟨t, run, shown⟩ := h.remove k s.2 m hs.2
    exact ⟨(s.1.forget k, t), by simp [lru, bind_apply, onFirst, onSecond, run], hs.1.forget, shown⟩
  clear s m hs := by
    obtain ⟨t, run, shown⟩ := h.clear s.2 m hs.2
    exact ⟨({ s.1 with keys := [] }, t), by simp [lru, bind_apply, onFirst, onSecond, run],
      ⟨List.nil_subset _, .nil, hs.1.room⟩, shown⟩
  size s m hs := by
    obtain ⟨t, run, shown⟩ := h.size s.2 m hs.2
    exact ⟨(s.1, t), by simp [lru, Store.below, run], hs.1, shown⟩

theorem mirrors_fifo (h : inner.Mirrors shows allowed) (known : ∀ k e, allowed k e → k ∈ ks) :
    (fifo inner).Mirrors (fun s m => s.1.Roomy ks ∧ shows s.2 m) allowed where
  put k e s m may hs := by
    obtain ⟨t, run, shown⟩ := h.put k e s.2 m may hs.2
    obtain ⟨stays, roomy⟩ := hs.1.enqueue (known k e may)
    exact ⟨((s.1.enqueue k).2, t),
      by simp [fifo, bind_apply, onFirst, onSecond, run, stays, removeEach], roomy, shown⟩
  get k s m hs := by
    obtain ⟨t, run, shown⟩ := h.get k s.2 m hs.2
    exact ⟨(s.1, t), by simp [fifo, onSecond, run], hs.1, shown⟩
  remove k s m hs := by
    obtain ⟨t, run, shown⟩ := h.remove k s.2 m hs.2
    exact ⟨(s.1.forget k, t), by simp [fifo, bind_apply, onFirst, onSecond, run], hs.1.forget,
      shown⟩
  clear s m hs := by
    obtain ⟨t, run, shown⟩ := h.clear s.2 m hs.2
    exact ⟨({ s.1 with queue := [], members := [] }, t),
      by simp [fifo, bind_apply, onFirst, onSecond, run],
      ⟨List.nil_subset _, .nil, fun _ => Iff.rfl, .nil, hs.1.room⟩, shown⟩
  size s m hs := by
    obtain ⟨t, run, shown⟩ := h.size s.2 m hs.2
    exact ⟨(s.1, t), by simp [fifo, Store.below, run], hs.1, shown⟩

theorem drain_of_roomy {s : Tiers × τ} {m : Entries} (h : s.1.Roomy ks m) :
    drain inner s = ⟨.ok 0, s⟩ := by
  simp only [drain, bind_apply, get_apply, h.drained, drainEach, pure_apply]

theorem mirrors_tiered (now : Nat) (h : inner.Mirrors shows allowed)
    (known : ∀ k e, allowed k e → k ∈ ks) :
    (tiered now inner).Mirrors (fun s m => s.1.Roomy ks m ∧ shows s.2 m) allowed where
  put k e s m may hs := by
    obtain ⟨t, run, shown⟩ := h.put k e s.2 m may hs.2
    refine ⟨(s.1.enter now k, t), by simp [tiered, bind_apply, drain_of_roomy hs.1, onFirst,
      onSecond, run, Except.map], hs.1.enter (known k e may) fun j there => ?_, shown⟩
    rw [Table.get?_insert] at there
    split at there
    · rename_i same
      exact .inl same.symm
    · exact .inr there
  get k s m hs := by
    obtain ⟨t, run, shown⟩ := h.get k s.2 m hs.2
    cases found : m.get? k with
    | none =>
      exact ⟨(s.1, t), by simp [tiered, bind_apply, drain_of_roomy hs.1, onSecond, run, found,
        Except.map], hs.1, shown⟩
    | some e =>
      have there : m.get? k ≠ none := by simp [found]
      by_cases hot : k ∈ s.1.hot
      · exact ⟨(s.1, t), by simp [tiered, bind_apply, drain_of_roomy hs.1, onSecond, run, found,
          Except.map, hot], hs.1, shown⟩
      · obtain ⟨young, used⟩ := hs.1.use now there
        exact ⟨((s.1.use now k).2.promote now k, t),
          by simp [tiered, bind_apply, drain_of_roomy hs.1, onFirst, onSecond, run, found,
            Except.map, hot, young], used.promote there, shown⟩
  remove k s m hs := by
    obtain ⟨t, run, shown⟩ := h.remove k s.2 m hs.2
    exact ⟨(s.1.forget k, t), by simp [tiered, bind_apply, drain_of_roomy hs.1, onFirst, onSecond,
      run, Except.map], hs.1.forget, shown⟩
  clear s m hs := by
    obtain ⟨t, run, shown⟩ := h.clear s.2 m hs.2
    exact ⟨(s.1.clear, t), by simp [tiered, bind_apply, onFirst, onSecond, run], hs.1.clear, shown⟩
  size s m hs := by
    obtain ⟨t, run, shown⟩ := h.size s.2 m hs.2
    exact ⟨(s.1, t), by simp [tiered, drain_of_roomy hs.1, Store.below, run], hs.1, shown⟩

theorem mirrors_counted (h : inner.Mirrors shows allowed) :
    (counted inner).Mirrors (fun s => shows s.2) allowed where
  put k e s m may hs := by
    obtain ⟨t, run, shown⟩ := h.put k e s.2 m may hs
    exact ⟨(s.1, t), by simp [counted, onSecond, run], shown⟩
  get k s m hs := by
    obtain ⟨t, run, shown⟩ := h.get k s.2 m hs
    cases hit : isHit (m.get? k) with
    | true =>
      exact ⟨(s.1.request.hit, t),
        by simp [counted, bind_apply, onFirst, onSecond, run, hit, Except.map], shown⟩
    | false =>
      exact ⟨(s.1.request, t), by simp [counted, bind_apply, onFirst, onSecond, run, hit], shown⟩
  remove k s m hs := by
    obtain ⟨t, run, shown⟩ := h.remove k s.2 m hs
    exact ⟨(s.1, t), by simp [counted, onSecond, run], shown⟩
  clear s m hs := by
    obtain ⟨t, run, shown⟩ := h.clear s.2 m hs
    exact ⟨(s.1, t), by simp [counted, onSecond, run], shown⟩
  size s m hs := by
    obtain ⟨t, run, shown⟩ := h.size s.2 m hs
    exact ⟨(s.1, t), by simp [counted, Store.below, run], shown⟩

theorem mirrors_synchronized (h : inner.Mirrors shows allowed) :
    (synchronized inner).Mirrors shows allowed := { h with }

theorem mirrors_blocking (thread : Thread) (h : inner.Mirrors shows allowed) :
    (blocking thread inner).Mirrors (fun s m => s.1.Private thread ∧ shows s.2 m) allowed where
  put k e s m may hs := by
    obtain ⟨t, run, shown⟩ := h.put k e s.2 m may hs.2
    exact ⟨(s.1.release thread k, t), by simp [blocking, releasing, run], hs.1.release, shown⟩
  get k s m hs := by
    obtain ⟨t, run, shown⟩ := h.get k s.2 m hs.2
    refine ⟨_, (blocking_get_of_claimed thread inner k s.1 s.2 (hs.1.claimed k)).trans
      (by rw [run]), ?_, shown⟩
    dsimp only
    split
    · exact hs.1.claim
    · exact hs.1.claim.release
  remove k s m hs := by
    obtain ⟨t, run, shown⟩ := h.remove k s.2 m hs.2
    exact ⟨(s.1.release thread k, t), by simp [blocking, releasing, run], hs.1.release, shown⟩
  clear s m hs := by
    obtain ⟨t, run, shown⟩ := h.clear s.2 m hs.2
    exact ⟨(s.1, t), by simp [blocking, onSecond, run], hs.1, shown⟩
  size s m hs := by
    obtain ⟨t, run, shown⟩ := h.size s.2 m hs.2
    exact ⟨(s.1, t), by simp [blocking, Store.below, run], hs.1, shown⟩

theorem decodeFound_image (id : String) {found : Option Entry}
    (plain : ∀ e, found = some e → e.Plain) :
    decodeFound id (found.map Entry.image) = .ok found := by
  cases found with
  | none => rfl
  | some e => simp [decodeFound, Entry.decode_image id (plain e rfl)]

theorem mirrors_serialized (h : inner.Mirrors shows fun k _ => k ∈ ks) :
    (serialized inner).Mirrors
      (fun s m => (∀ k e, m.get? k = some e → e.Plain) ∧ shows s (m.mapValues Entry.image))
      (fun k e => k ∈ ks ∧ e.Plain) where
  put k e s m may hs := by
    obtain ⟨t, run, shown⟩ := h.put k e.image s _ may.1 hs.2
    rw [Table.insert_mapValues] at shown
    refine ⟨t, by simp [serialized, bind_apply, Entry.encode_of_plain inner.id may.2, run],
      fun j x there => ?_, shown⟩
    rw [Table.get?_insert] at there
    split at there
    · exact Option.some.inj there ▸ may.2
    · exact hs.1 j x there
  get k s m hs := by
    obtain ⟨t, run, shown⟩ := h.get k s _ hs.2
    rw [Table.get?_mapValues] at run
    exact ⟨t, by simp [serialized, bind_apply, run, decodeFound_image inner.id (hs.1 k)], hs.1,
      shown⟩
  remove k s m hs := by
    obtain ⟨t, run, shown⟩ := h.remove k s _ hs.2
    rw [Table.get?_mapValues] at run
    rw [Table.erase_mapValues] at shown
    refine ⟨t, by simp [serialized, bind_apply, run, decodeFound_image inner.id (hs.1 k)],
      fun j x there => ?_, shown⟩
    rw [Table.get?_erase] at there
    split at there
    · cases there
    · exact hs.1 j x there
  clear s m hs := by
    obtain ⟨t, run, shown⟩ := h.clear s _ hs.2
    have vacant : ∀ k e, Table.get? (Table.empty : Entries) k = some e → e.Plain :=
      fun _ _ there => by cases there
    exact ⟨t, run, vacant, shown⟩
  size s m hs := by
    obtain ⟨t, run, shown⟩ := h.size s _ hs.2
    rw [Table.size_mapValues] at run
    exact ⟨t, run, hs.1, shown⟩

end Layer
end StatementCache
