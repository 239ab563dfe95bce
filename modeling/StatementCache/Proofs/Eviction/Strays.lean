import StatementCache.Proofs.Eviction.Line

/-! Keys that an index has lost. An index and the map below it are changed one after the other, and
where the index comes first and the map then refuses, the map keeps a key that the index does not
have any more. No eviction finds such a stray again. -/
namespace StatementCache

open StatementCache.Action

variable {ω : Type}

/-- The operation takes the key out of an index whose keys stand in a line. -/
def Demand.Frees (d : Demand) (line : List CacheKey) (room : Nat) (k : CacheKey) : Prop :=
  d = .remove k ∨ d = .clear ∨ k ∈ d.leaving line room

namespace Policy

variable {β : Type} (p : Policy β)

/-- The keys that the map has and the index has not. -/
def strays (s : β × Entries × ω) : List CacheKey := s.2.1.keys.filter (· ∉ p.line s.1)

theorem mem_strays {s : β × Entries × ω} {k : CacheKey} :
    k ∈ p.strays s ↔ k ∈ s.2.1.keys ∧ k ∉ p.line s.1 := by
  simp [strays]

variable (layer : Store (β × Entries × ω))

/-- The operation fails when it has taken the key out of the index, and the map still has it. -/
def Strands (k : CacheKey) (d : Demand) (s : β × Entries × ω) : Prop :=
  k ∈ p.line s.1 ∧ d.Frees (p.line s.1) (p.capacity s.1) k ∧
    (∃ fault, (d.on layer s).result = .error fault) ∧ k ∈ p.strays (d.on layer s).state

/-- The key is put, which may fail once it is in the index, or it is removed without a failure. -/
def Settles (k : CacheKey) (d : Demand) (s : β × Entries × ω) : Prop :=
  (∃ e, d = .put k e ∧ k ∈ p.line (d.on layer s).state.1) ∨
    (d = .remove k ∨ d = .clear) ∧ ∃ answer, (d.on layer s).result = .ok answer

structure Sane (b : β) : Prop where
  distinct : (p.line b).Nodup
  bounded : (p.line b).length ≤ p.capacity b
  positive : 1 ≤ p.capacity b
  fits : p.fits b

/-- What an operation does to the keys. One may come into the index and the map, some leave both,
and some are lost, which is to say that they leave the index only. -/
structure Course (refuses : Prop) (d : Demand) (s : β × Entries × ω) (came : Option CacheKey)
    (gone lost : List CacheKey) : Prop where
  sane : p.Sane (d.on layer s).state.1
  room : p.capacity (d.on layer s).state.1 = p.capacity s.1 ∨
    d.capacity? "size" = some (p.capacity (d.on layer s).state.1)
  index : ∀ k, k ∈ p.line (d.on layer s).state.1 ↔
    (came = some k ∨ k ∈ p.line s.1) ∧ k ∉ gone ∧ k ∉ lost
  map : ∀ k, k ∈ (d.on layer s).state.2.1.keys ↔ (came = some k ∨ k ∈ s.2.1.keys) ∧ k ∉ gone
  put : ∀ k, came = some k → (∃ e, d = .put k e) ∧ k ∉ gone ∧ k ∉ lost
  /-- What the index does not have is removed by name only. -/
  named : ∀ k ∈ gone, k ∈ p.line s.1 ∨ p.Settles layer k d s
  failed : ∀ k ∈ lost, d.Frees (p.line s.1) (p.capacity s.1) k ∧
    (∃ fault, (d.on layer s).result = .error fault) ∧ refuses
  swept : ∀ k, d = .remove k ∨ d = .clear → (∃ answer, (d.on layer s).result = .ok answer) →
    k ∉ (d.on layer s).state.2.1.keys

def Charts (refuses : Prop) (d : Demand) (s : β × Entries × ω) : Prop :=
  ∃ came gone lost, p.Course layer refuses d s came gone lost

/-- Every operation of the layer does, and leaves the index fit for the next one. -/
def Copes (refuses : Prop) : Prop := ∀ d s, p.Sane s.1 → p.Charts layer refuses d s

variable {p} {layer}

section

variable {refuses : Prop} {d : Demand} {s : β × Entries × ω} {came : Option CacheKey}
  {gone lost : List CacheKey} (h : p.Course layer refuses d s came gone lost)
include h

theorem Course.held (held : ∀ k ∈ p.line s.1, k ∈ s.2.1.keys) :
    ∀ k ∈ p.line (d.on layer s).state.1, k ∈ (d.on layer s).state.2.1.keys := by
  intro k there
  obtain ⟨source, stays, -⟩ := (h.index k).mp there
  exact (h.map k).mpr ⟨source.imp_right (held k), stays⟩

theorem Course.lost_or_stray {k : CacheKey} (stray : k ∈ p.strays (d.on layer s).state) :
    k ∈ p.line s.1 ∧ k ∈ lost ∨ k ∈ p.strays s := by
  obtain ⟨there, unindexed⟩ := p.mem_strays.mp stray
  obtain ⟨source, stays⟩ := (h.map k).mp there
  have old : came ≠ some k := fun now => by
    obtain ⟨-, -, kept⟩ := h.put k now
    exact unindexed ((h.index k).mpr ⟨.inl now, stays, kept⟩)
  by_cases indexed : k ∈ p.line s.1
  · refine .inl ⟨indexed, ?_⟩
    by_contra kept
    exact unindexed ((h.index k).mpr ⟨.inr indexed, stays, kept⟩)
  · exact .inr (p.mem_strays.mpr ⟨source.resolve_left old, indexed⟩)

theorem Course.strays_iff {k : CacheKey} : k ∈ p.strays (d.on layer s).state ↔
    (p.Strands layer k d s ∨ k ∈ p.strays s) ∧ ¬p.Settles layer k d s := by
  constructor
  · intro stray
    obtain ⟨there, unindexed⟩ := p.mem_strays.mp stray
    constructor
    · refine (h.lost_or_stray stray).imp_left ?_
      rintro ⟨indexed, lost⟩
      obtain ⟨frees, failed, -⟩ := h.failed k lost
      exact ⟨indexed, frees, failed, stray⟩
    · rintro (⟨-, -, indexed⟩ | ⟨named, done⟩)
      · exact unindexed indexed
      · exact h.swept k named done there
  · rintro ⟨⟨-, -, -, stray⟩ | stray, unsettled⟩
    · exact stray
    · obtain ⟨there, unindexed⟩ := p.mem_strays.mp stray
      have stays : k ∉ gone := fun leaves => (h.named k leaves).elim unindexed unsettled
      refine p.mem_strays.mpr ⟨(h.map k).mpr ⟨.inr there, stays⟩, fun indexed => ?_⟩
      obtain now | before := ((h.index k).mp indexed).1
      · obtain ⟨e, put⟩ := (h.put k now).1
        exact unsettled (.inl ⟨e, put, indexed⟩)
      · exact unindexed before

end

/-- The entries are those of the index and the strays. -/
theorem size_eq_add_strays {s : β × Entries × ω} (distinct : (p.line s.1).Nodup)
    (held : ∀ k ∈ p.line s.1, k ∈ s.2.1.keys) :
    s.2.1.size = (p.line s.1).length + (p.strays s).length := by
  have indexed : (s.2.1.keys.filter (· ∈ p.line s.1)).Perm (p.line s.1) := by
    refine (List.perm_ext_iff_of_nodup (s.2.1.distinct.filter _) distinct).mpr fun k => ?_
    rw [List.mem_filter, decide_eq_true_eq]
    exact ⟨(·.2), fun there => ⟨held k there, there⟩⟩
  have parts := (List.filter_append_perm (fun k => decide (k ∈ p.line s.1)) s.2.1.keys).length_eq
  rw [List.length_append, indexed.length_eq] at parts
  calc
    s.2.1.size = s.2.1.keys.length := (List.length_map ..).symm
    _ = (p.line s.1).length + (p.strays s).length := by rw [← parts]; simp [strays]

structure Accounts (p : Policy β) (layer : Store (β × Entries × ω)) (refuses : Prop)
    (start : β × Entries × ω) (past : List Demand) (s : β × Entries × ω) : Prop where
  distinct : (p.line s.1).Nodup
  bounded : (p.line s.1).length ≤ p.capacity s.1
  /-- The capacity is the first one, or one that was set. -/
  room : p.capacity s.1 = p.capacity start.1 ∨
    ∃ d ∈ past, d.capacity? "size" = some (p.capacity s.1)
  held : ∀ k ∈ p.line s.1, k ∈ s.2.1.keys
  /-- The map has no key besides, but those that a failure has stranded. -/
  strays : ∀ k, k ∈ p.strays s ↔
    Later (Demand.on layer) start (p.Strands layer k) (p.Settles layer k) past
  intact : ¬refuses → p.strays s = []
  size : s.2.1.size ≤ p.capacity s.1 + (p.strays s).length

theorem Copes.accounts_played {refuses : Prop} (h : p.Copes layer refuses) {b : β} (sane : p.Sane b)
    (empty : p.line b = []) (w : ω) (past : List Demand) :
    let start := (b, (Table.empty, w))
    let s := played (Demand.on layer) past start
    p.Sane s.1 ∧ p.Accounts layer refuses start past s := by
  intro start
  induction past using List.reverseRecOn with
  | nil =>
    refine ⟨sane, sane.distinct, sane.bounded, .inl rfl, ?_, fun k => ⟨fun stray => ?_, ?_⟩,
      fun _ => rfl, Nat.zero_le _⟩
    · simp [start, empty]
    · cases stray
    · rintro ⟨n, ⟨d, none, -⟩, -⟩
      cases none
  | append_singleton past d ih =>
    obtain ⟨sane, before⟩ := ih
    obtain ⟨came, gone, lost, course⟩ := h d _ sane
    have held := course.held before.held
    simp only [played_concat]
    refine ⟨course.sane, course.sane.distinct, course.sane.bounded, ?_, held, fun k => ?_,
      fun calm => ?_, ?_⟩
    · obtain same | set := course.room
      · rw [same]
        exact before.room.imp_right fun ⟨d, there, set⟩ => ⟨d, List.mem_append_left _ there, set⟩
      · exact .inr ⟨d, List.mem_append_right _ List.mem_cons_self, set⟩
    · rw [course.strays_iff, before.strays, later_concat_iff]
    · refine List.eq_nil_iff_forall_not_mem.mpr fun k stray => ?_
      obtain ⟨-, lost⟩ | stray := course.lost_or_stray stray
      · exact calm (course.failed k lost).2.2
      · rw [before.intact calm] at stray
        cases stray
    · rw [size_eq_add_strays course.sane.distinct held]
      exact Nat.add_le_add_right course.sane.bounded _

/-! What one operation does, read off what becomes of the index and of the map. -/

section

variable {refuses : Prop} {d : Demand} {k : CacheKey} {b b' : β} {m m' : Entries} {w w' : ω}
  {r : Except Fault Response} (run : d.on layer (b, (m, w)) = ⟨r, (b', (m', w'))⟩)
  (sane : p.Sane b')
include run sane

theorem charts_of_leaving {came : Option CacheKey} {gone lost : List CacheKey}
    (unnamed : ∀ k, d ≠ .remove k ∧ d ≠ .clear)
    (room : p.capacity b' = p.capacity b ∨ d.capacity? "size" = some (p.capacity b'))
    (index : ∀ k, k ∈ p.line b' ↔ (came = some k ∨ k ∈ p.line b) ∧ k ∉ gone ++ lost)
    (map : ∀ k, k ∈ m'.keys ↔ (came = some k ∨ k ∈ m.keys) ∧ k ∉ gone)
    (put : ∀ k, came = some k → ∃ e, d = .put k e)
    (leaves : ∀ k ∈ gone ++ lost, k ∈ d.leaving (p.line b) (p.capacity b))
    (failed : lost = [] ∨ (∃ fault, r = .error fault) ∧ refuses) :
    p.Charts layer refuses d (b, (m, w)) := by
  refine ⟨came, gone, lost, ?_⟩
  constructor
  · rwa [run]
  · rwa [run]
  · intro k
    rw [run, index, List.mem_append, not_or]
  · intro k
    rw [run, map]
  · intro k now
    obtain ⟨e, rfl⟩ := put k now
    have stays : k ∉ gone ++ lost := fun leaving =>
      Demand.not_mem_leaving_put (p.line b) (p.capacity b) k e (leaves k leaving)
    rw [List.mem_append, not_or] at stays
    exact ⟨⟨e, rfl⟩, stays⟩
  · intro k leaving
    have front := leaves k (List.mem_append_left _ leaving)
    rw [Demand.leaving_eq_take] at front
    exact .inl (List.mem_of_mem_take front)
  · intro k leaving
    have frees := leaves k (List.mem_append_right _ leaving)
    obtain rfl | ⟨error, refuses⟩ := failed
    · cases leaving
    · rw [run]
      exact ⟨.inr (.inr frees), error, refuses⟩
  · intro k named
    exact (named.elim (unnamed k).1 (unnamed k).2).elim

theorem charts_of_idle (unnamed : ∀ k, d ≠ .remove k ∧ d ≠ .clear)
    (room : p.capacity b' = p.capacity b) (index : ∀ k, k ∈ p.line b' ↔ k ∈ p.line b)
    (map : m' = m) : p.Charts layer refuses d (b, (m, w)) :=
  have index (k : CacheKey) : k ∈ p.line b' ↔ (none = some k ∨ k ∈ p.line b) ∧ k ∉ [] ++ [] := by
    simp [index]
  charts_of_leaving run sane unnamed (.inl room) index (by simp [map]) (by simp) (by simp) (.inl rfl)

end

theorem charts_of_naming {refuses : Prop} {d : Demand} {b b' : β} {m m' : Entries} {w w' : ω}
    {r : Except Fault Response} {keys : List CacheKey}
    (run : d.on layer (b, (m, w)) = ⟨r, (b', (m', w'))⟩) (sane : p.Sane b')
    (room : p.capacity b' = p.capacity b) (named : ∀ k ∈ keys, d = .remove k ∨ d = .clear)
    (index : ∀ k, k ∈ p.line b' ↔ k ∈ p.line b ∧ k ∉ keys)
    (swept : ∀ k, d = .remove k ∨ d = .clear → k ∈ m.keys → k ∈ keys)
    (did : (∃ answer, r = .ok answer) ∧ (∀ k, k ∈ m'.keys ↔ k ∈ m.keys ∧ k ∉ keys) ∨
      ((∃ fault, r = .error fault) ∧ m' = m) ∧ refuses) :
    p.Charts layer refuses d (b, (m, w)) := by
  obtain ⟨done, map⟩ | ⟨⟨failed, rfl⟩, refuses⟩ := did
  · refine ⟨none, keys, [], ?_⟩
    constructor
    · rwa [run]
    · rw [run]; exact .inl room
    · simp [run, index]
    · simp [run, map]
    · simp
    · exact fun k leaves => .inr (.inr ⟨named k leaves, by rwa [run]⟩)
    · simp
    · intro k asked _ there
      rw [run] at there
      obtain ⟨there, stays⟩ := (map k).mp there
      exact stays (swept k asked there)
  · refine ⟨none, [], keys, ?_⟩
    constructor
    · rwa [run]
    · rw [run]; exact .inl room
    · simp [run, index]
    · simp [run]
    · simp
    · simp
    · intro k leaves
      rw [run]
      exact ⟨(named k leaves).imp_right .inl, failed, refuses⟩
    · obtain ⟨fault, rfl⟩ := failed
      rintro k - ⟨answer, done⟩
      rw [run] at done
      cases done

end Policy
end StatementCache
