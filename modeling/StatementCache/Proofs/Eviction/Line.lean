import StatementCache.Proofs.Contents.Invisible
import StatementCache.Proofs.Eviction.Order

/-! Layers that keep the keys of a map in a line and let them go from its front. Which entries leave
is told by the order in which the run has marked their keys; what a layer marks is all that tells
one policy from another. -/
namespace StatementCache

open StatementCache.Action

theorem mem_drop_iff {κ : Type} {line : List κ} (distinct : line.Nodup) {n : Nat} {k : κ} :
    k ∈ line.drop n ↔ k ∈ line ∧ k ∉ line.take n := by
  have apart := List.disjoint_take_drop distinct (Nat.le_refl n)
  constructor
  · exact fun behind => ⟨List.mem_of_mem_drop behind, fun ahead => apart ahead behind⟩
  · rintro ⟨there, stays⟩
    rw [← List.take_append_drop n line] at there
    exact (List.mem_append.mp there).resolve_left stays

namespace Demand

def Drops (d : Demand) (k : CacheKey) : Prop := (∃ e, d = .put k e) ∨ d = .remove k ∨ d = .clear

def LatestPut (past : List Demand) (k : CacheKey) (e : Entry) : Prop :=
  Action.Since (· = .put k e) (·.Drops k) past

theorem LatestPut.unique {past : List Demand} {k : CacheKey} {e x : Entry}
    (h : LatestPut past k e) (h' : LatestPut past k x) : e = x := by
  induction past using List.reverseRecOn with
  | nil =>
    obtain ⟨before, d, after, split, -⟩ := h
    exact absurd split (by simp)
  | append_singleton past d ih =>
    obtain now | ⟨before, stays⟩ := Action.since_concat.mp h
    · obtain now' | ⟨-, stays⟩ := Action.since_concat.mp h'
      · cases now.symm.trans now'
        rfl
      · exact absurd (.inl ⟨e, now⟩) stays
    · obtain now' | ⟨before', -⟩ := Action.since_concat.mp h'
      · exact absurd (.inl ⟨x, now'⟩) stays
      · exact ih before before'

def capacity? (name : String) : Demand → Option Nat
  | .assign other value => if other = name then (Setting.capacity name value).toOption else none
  | .put _ _ | .get _ | .remove _ | .clear | .size => none

/-- The capacity set last, or the first one. -/
def room (first : Nat) (past : List Demand) : Nat :=
  past.foldl (fun n d => (d.capacity? "size").getD n) first

theorem room_concat (first : Nat) (past : List Demand) (d : Demand) :
    room first (past ++ [d]) = (d.capacity? "size").getD (room first past) := by
  simp only [room, List.foldl_append, List.foldl_cons, List.foldl_nil]

def Overfills (d : Demand) (room : Nat) (held : Entries) : Prop :=
  ∃ k e, d = .put k e ∧ k ∉ held.keys ∧ held.size = room

def Shrinks (d : Demand) (n : Nat) (held : Entries) : Prop :=
  d.capacity? "size" = some n ∧ n < held.size

structure Evicts (d : Demand) (room : Nat) (precedes : CacheKey → CacheKey → Prop)
    (held left : Entries) : Prop where
  put : ∀ k e, d = .put k e → left.get? k = some e
  /-- Nothing comes but what is put, and what is dropped does not stay. -/
  came : ∀ k e, left.get? k = some e → d = .put k e ∨ held.get? k = some e ∧ ¬d.Drops k
  gone : ∀ k ∈ held.keys, k ∉ left.keys →
    d = .remove k ∨ d = .clear ∨ d.Overfills room held ∨ ∃ n, d.Shrinks n held
  /-- One entry leaves for a new one, the first of all. -/
  overfull : d.Overfills room held → ∃ victim ∈ held.keys, victim ∉ left.keys ∧
    ∀ k ∈ held.keys, k ≠ victim → k ∈ left.keys ∧ precedes victim k
  /-- As many stay as there is room for, and the others were before them. -/
  shrunk : ∀ n, d.Shrinks n held → left.size = n ∧
    ∀ j ∈ held.keys, j ∉ left.keys → ∀ k ∈ left.keys, precedes j k

def leaving (line : List CacheKey) (room : Nat) (d : Demand) : List CacheKey :=
  match d with
  | .put k _ => if k ∈ line then [] else line.take (line.length + 1 - room)
  | .assign _ _ =>
    match d.capacity? "size" with
    | some n => line.take (line.length - n)
    | none => []
  | .get _ | .remove _ | .clear | .size => []

/-- The keys of all entries stand in a line, each once and no more than there is room for. -/
structure Lined (line : List CacheKey) (room : Nat) (held : Entries) : Prop where
  keys : ∀ k, k ∈ line ↔ k ∈ held.keys
  distinct : line.Nodup
  bounded : line.length ≤ room
  positive : 1 ≤ room

variable {line : List CacheKey} {room : Nat} {held left : Entries} {d : Demand} {k : CacheKey}
  {precedes : CacheKey → CacheKey → Prop}

theorem Lined.size_eq (h : Lined line room held) : held.size = line.length :=
  Table.size_eq_length h.distinct h.keys

theorem Lined.leaving_put (h : Lined line room held) {e : Entry} (new : k ∉ held.keys)
    (j : CacheKey) : j ∈ (Demand.put k e).leaving line room ↔
      held.size = room ∧ line.head? = some j := by
  have absent : k ∉ line := fun there => new ((h.keys k).mp there)
  have bounded := h.bounded
  have positive := h.positive
  rw [h.size_eq]
  simp only [leaving, absent, if_false]
  obtain full | free := Nat.eq_or_lt_of_le bounded
  · have one : line.length + 1 - room = 1 := by omega
    rw [one]
    cases line with
    | nil => simp
    | cons first rest => simp [full, eq_comm]
  · have none : line.length + 1 - room = 0 := by omega
    simp [none, Nat.ne_of_lt free]

theorem not_mem_leaving_put (line : List CacheKey) (room : Nat) (k : CacheKey) (e : Entry) :
    k ∉ (Demand.put k e).leaving line room := by
  by_cases there : k ∈ line
  · simp [leaving, there]
  · simp only [leaving, there, if_false]
    exact fun leaves => there (List.mem_of_mem_take leaves)

theorem mem_leaving_assign {name value : String} :
    k ∈ (Demand.assign name value).leaving line room ↔
      ∃ n, (Demand.assign name value).capacity? "size" = some n ∧
        k ∈ line.take (line.length - n) := by
  unfold leaving
  cases (Demand.assign name value).capacity? "size" <;> simp

theorem came_of_advance {e : Entry} (there : (Visit.advance held d).get? k = some e) :
    d = .put k e ∨ held.get? k = some e ∧ ¬d.Drops k := by
  cases d with
  | put j x =>
    rw [Visit.advance, Table.get?_insert] at there
    split at there
    · rename_i same
      cases there
      exact .inl (by rw [same])
    · rename_i other
      exact .inr ⟨there, by simpa [Drops] using other⟩
  | remove j =>
    rw [Visit.advance, Table.get?_erase] at there
    split at there
    · cases there
    · rename_i other
      exact .inr ⟨there, by simpa [Drops] using other⟩
  | clear => cases there
  | get _ | size | assign _ _ => exact .inr ⟨there, by simp [Drops]⟩

theorem Lined.gone (h : Lined line room held)
    (became : left = (Visit.advance held d).eraseAll (d.leaving line room))
    (there : k ∈ held.keys) (absent : k ∉ left.keys) :
    d = .remove k ∨ d = .clear ∨ d.Overfills room held ∨ ∃ n, d.Shrinks n held := by
  rw [became, Table.mem_keys_eraseAll, not_and_not_right] at absent
  cases d with
  | put j e =>
    have leaves := absent (Table.mem_keys_insert.mpr (.inr there))
    by_cases old : j ∈ held.keys
    · simp [leaving, (h.keys j).mpr old] at leaves
    · exact .inr (.inr (.inl ⟨j, e, rfl, old, ((h.leaving_put old k).mp leaves).1⟩))
  | remove j =>
    by_cases same : k = j
    · exact .inl (same ▸ rfl)
    · have stays : k ∈ (held.erase j).keys :=
        Table.keys_erase held j ▸ (List.mem_erase_of_ne same).mpr there
      exact absurd (absent stays) (by simp [leaving])
  | clear => exact .inr (.inl rfl)
  | get _ | size => exact absurd (absent there) (by simp [leaving])
  | assign name value =>
    obtain ⟨n, asked, leaves⟩ := mem_leaving_assign.mp (absent there)
    have := List.length_pos_of_mem leaves
    rw [List.length_take] at this
    exact .inr (.inr (.inr ⟨n, asked, by rw [h.size_eq]; omega⟩))

theorem Lined.overfull (h : Lined line room held) (order : line.Pairwise precedes)
    (became : left = (Visit.advance held d).eraseAll (d.leaving line room))
    (full : d.Overfills room held) : ∃ victim ∈ held.keys, victim ∉ left.keys ∧
      ∀ k ∈ held.keys, k ≠ victim → k ∈ left.keys ∧ precedes victim k := by
  obtain ⟨k, e, rfl, new, full⟩ := full
  have leaves := h.leaving_put (e := e) new
  have keys := h.keys
  have positive := h.positive
  have count := h.size_eq
  cases line with
  | nil => rw [List.length_nil] at count; omega
  | cons victim rest =>
    refine ⟨victim, (keys victim).mp List.mem_cons_self, ?_, fun j there other => ⟨?_, ?_⟩⟩
    · rw [became, Table.mem_keys_eraseAll]
      exact fun stays => stays.2 ((leaves victim).mpr ⟨full, rfl⟩)
    · rw [became, Table.mem_keys_eraseAll, leaves]
      exact ⟨Table.mem_keys_insert.mpr (.inr there), fun first =>
        other (Option.some.inj first.2).symm⟩
    · have behind := (List.mem_cons.mp ((keys j).mpr there)).resolve_left other
      exact (List.pairwise_cons.mp order).1 j behind

theorem Lined.shrunk (h : Lined line room held) (order : line.Pairwise precedes)
    (became : left = (Visit.advance held d).eraseAll (d.leaving line room)) {n : Nat}
    (less : d.Shrinks n held) : left.size = n ∧
      ∀ j ∈ held.keys, j ∉ left.keys → ∀ k ∈ left.keys, precedes j k := by
  obtain ⟨asked, less⟩ := less
  have same : left = held.eraseAll (line.take (line.length - n)) := by
    cases d with
    | assign name value => rw [became, leaving, asked]; rfl
    | _ => cases asked
  have stays : ∀ k, k ∈ line.drop (line.length - n) ↔ k ∈ left.keys := fun k => by
    rw [same, Table.mem_keys_eraseAll, ← h.keys k, mem_drop_iff h.distinct]
  refine ⟨?_, fun j there absent k kept => ?_⟩
  · rw [Table.size_eq_length (h.distinct.sublist (List.drop_sublist ..)) stays, List.length_drop,
      ← h.size_eq]
    omega
  · rw [same, Table.mem_keys_eraseAll, not_and_not_right] at absent
    rw [← List.take_append_drop (line.length - n) line] at order
    exact (List.pairwise_append.mp order).2.2 j (absent there) k ((stays k).mpr kept)

theorem evicts_of_lined (h : Lined line room held) (order : line.Pairwise precedes)
    (became : left = (Visit.advance held d).eraseAll (d.leaving line room)) :
    d.Evicts room precedes held left where
  put k e asked := by
    subst asked
    rw [became, Table.get?_eraseAll, if_neg (not_mem_leaving_put line room k e), Visit.advance,
      Table.get?_insert, if_pos rfl]
  came k e there := by
    rw [became] at there
    exact came_of_advance (Table.get?_of_eraseAll there)
  gone _ := h.gone became
  overfull := h.overfull order became
  shrunk _ := h.shrunk order became

def remaining (line : List CacheKey) (room : Nat) (d : Demand) : List CacheKey :=
  match d with
  | .remove k => line.erase k
  | .clear => []
  | .put _ _ | .get _ | .size | .assign _ _ => line.drop (d.leaving line room).length

def relined (line : List CacheKey) (room : Nat) (d : Demand) : Option CacheKey → List CacheKey
  | none => d.remaining line room
  | some k => (d.remaining line room).erase k ++ [k]

theorem remaining_sublist (line : List CacheKey) (room : Nat) (d : Demand) :
    (d.remaining line room).Sublist line := by
  cases d with
  | remove k => exact List.erase_sublist
  | clear => exact List.nil_sublist line
  | _ => exact List.drop_sublist ..

theorem leaving_eq_take (line : List CacheKey) (room : Nat) (d : Demand) :
    d.leaving line room = line.take (d.leaving line room).length := by
  refine List.prefix_iff_eq_take.mp ?_
  cases d with
  | put k e =>
    simp only [leaving]
    split
    · exact List.nil_prefix
    · exact List.take_prefix ..
  | assign name value =>
    simp only [leaving]
    split
    · exact List.take_prefix ..
    · exact List.nil_prefix
  | _ => exact List.nil_prefix

section Assign

variable {name value : String} {n : Nat}

theorem leaving_of_unset (unset : (Demand.assign name value).capacity? "size" = none) :
    (Demand.assign name value).leaving line room = [] := by
  rw [leaving, unset]

theorem leaving_of_set (set : (Demand.assign name value).capacity? "size" = some n) :
    (Demand.assign name value).leaving line room = line.take (line.length - n) := by
  rw [leaving, set]

theorem relined_of_unset (unset : (Demand.assign name value).capacity? "size" = none) :
    (Demand.assign name value).relined line room none = line := by
  rw [relined, remaining, leaving_of_unset unset, List.length_nil, List.drop_zero]

theorem relined_of_set (set : (Demand.assign name value).capacity? "size" = some n) :
    (Demand.assign name value).relined line room none = line.drop (line.length - n) := by
  rw [relined, remaining, leaving_of_set set, List.length_take, Nat.min_eq_left (Nat.sub_le ..)]

end Assign

theorem Lined.mem_remaining (h : Lined line room held) :
    k ∈ d.remaining line room ↔
      k ∈ line ∧ k ∉ d.leaving line room ∧ d ≠ .remove k ∧ d ≠ .clear := by
  have dropped := mem_drop_iff h.distinct (n := (d.leaving line room).length) (k := k)
  rw [← leaving_eq_take] at dropped
  cases d with
  | remove j =>
    simp only [remaining, h.distinct.mem_erase_iff, leaving]
    simp [and_comm, eq_comm]
  | clear => simp [remaining]
  | _ => simpa [remaining] using dropped

theorem Lined.mem_left (h : Lined line room held)
    (became : left = (Visit.advance held d).eraseAll (d.leaving line room)) :
    k ∈ left.keys ↔ (∃ e, d = .put k e) ∨ k ∈ d.remaining line room := by
  rw [became, Table.mem_keys_eraseAll, h.mem_remaining, h.keys k]
  cases d with
  | put j e =>
    rw [Visit.advance, Table.mem_keys_insert]
    by_cases same : j = k
    · subst same
      simp [not_mem_leaving_put]
    · simp [same, Ne.symm same]
  | remove j =>
    have distinct : held.keys.Nodup := held.distinct
    rw [Visit.advance, Table.keys_erase, distinct.mem_erase_iff]
    simp [leaving, and_comm, eq_comm]
  | clear => simp [Visit.advance, Table.keys, Table.empty]
  | _ => simp [Visit.advance]

theorem Lined.length_remaining_put (h : Lined line room held) (e : Entry)
    (new : k ∉ held.keys) : ((Demand.put k e).remaining line room).length + 1 ≤ room := by
  have absent : k ∉ line := fun there => new ((h.keys k).mp there)
  have bounded := h.bounded
  have positive := h.positive
  simp only [remaining, leaving, absent, if_false, List.length_drop, List.length_take]
  omega

theorem Lined.length_remaining_le (h : Lined line room held) (d : Demand) :
    (d.remaining line room).length ≤ (d.capacity? "size").getD room := by
  cases asked : d.capacity? "size" with
  | none => exact Nat.le_trans (d.remaining_sublist line room).length_le h.bounded
  | some n =>
    cases d with
    | assign name value =>
      simp only [remaining, leaving, asked, List.length_drop, List.length_take, Option.getD_some]
      omega
    | _ => cases asked

theorem one_le_capacity? {name : String} {n : Nat} (asked : d.capacity? name = some n) :
    1 ≤ n := by
  cases d with
  | assign other value =>
    simp only [capacity?] at asked
    split at asked
    · cases valid : Setting.capacity name value with
      | error e => rw [valid] at asked; cases asked
      | ok m =>
        rw [valid] at asked
        cases asked
        exact Setting.one_le_capacity valid
    · cases asked
  | _ => cases asked

theorem lined_relined (h : Lined line room held)
    (became : left = (Visit.advance held d).eraseAll (d.leaving line room))
    {marked : Option CacheKey}
    (known : ∀ k, marked = some k → (∃ e, d = .put k e) ∨ d = .get k ∧ k ∈ held.keys)
    (new : ∀ k e, d = .put k e → k ∉ held.keys → marked = some k) :
    Lined (relined line room d marked) ((d.capacity? "size").getD room) left := by
  have old : ∀ j e, d = .put j e → j ∈ held.keys → j ∈ d.remaining line room := by
    rintro j e rfl there
    exact h.mem_remaining.mpr
      ⟨(h.keys j).mpr there, not_mem_leaving_put line room j e, by simp, by simp⟩
  have distinct := h.distinct.sublist (d.remaining_sublist line room)
  have positive : 1 ≤ (d.capacity? "size").getD room := by
    cases asked : d.capacity? "size" with
    | none => exact h.positive
    | some n => exact one_le_capacity? asked
  have fits := h.length_remaining_le d
  cases marked with
  | none =>
    refine ⟨fun j => ?_, distinct, fits, positive⟩
    rw [h.mem_left became]
    refine ⟨.inr, fun there => there.elim ?_ id⟩
    rintro ⟨e, put⟩
    by_cases there : j ∈ held.keys
    · exact old j e put there
    · cases new j e put there
  | some k =>
    have moved : ∀ j, j ∈ (d.remaining line room).erase k ++ [k] ↔
        j = k ∨ j ∈ d.remaining line room := fun j => by
      by_cases same : j = k
      · simp [same]
      · simp [same, List.mem_erase_of_ne same]
    refine ⟨fun j => ?_, ?_, ?_, positive⟩
    · rw [h.mem_left became, relined, moved]
      constructor
      · rintro (rfl | there)
        · obtain put | ⟨rfl, there⟩ := known j rfl
          · exact .inl put
          · exact .inr (h.mem_remaining.mpr ⟨(h.keys j).mpr there, by simp [leaving]⟩)
        · exact .inr there
      · rintro (⟨e, put⟩ | there)
        · by_cases there : j ∈ held.keys
          · exact .inr (old j e put there)
          · exact .inl (Option.some.inj (new j e put there)).symm
        · exact .inr there
    · refine List.nodup_append.mpr ⟨distinct.erase k, by simp, fun j there l last same => ?_⟩
      rw [List.mem_singleton.mp last] at same
      exact distinct.not_mem_erase (same ▸ there)
    · rw [relined, List.length_append, List.length_singleton]
      by_cases there : k ∈ d.remaining line room
      · have := List.length_pos_of_mem there
        rw [List.length_erase_of_mem there]
        omega
      · rw [List.erase_of_not_mem there]
        obtain ⟨e, rfl⟩ | ⟨rfl, held⟩ := known k rfl
        · exact h.length_remaining_put e fun held => there (old k e rfl held)
        · exact absurd (h.mem_remaining.mpr ⟨(h.keys k).mpr held, by simp [leaving]⟩) there

end Demand

/-- What a layer lets entries go by. It keeps the keys in a line, and operations mark keys. -/
structure Policy (β : Type) where
  line : β → List CacheKey
  capacity : β → Nat
  /-- The key that an operation marks, told from what is held. -/
  mark : Demand → Entries → Option CacheKey
  /-- What else is kept in step with the line. -/
  fits : β → Prop

namespace Policy

variable {β : Type} (p : Policy β)

def Marks (k : CacheKey) (d : Demand) (s : β × Entries) : Prop := p.mark d s.2 = some k

structure Keeps (b : β) (held : Entries) : Prop where
  lined : Demand.Lined (p.line b) (p.capacity b) held
  fits : p.fits b

/-- Every operation of the layer acts on the map and on the line as the policy says. -/
structure Governs (layer : Store (β × Entries)) : Prop where
  known : ∀ d m k, p.mark d m = some k → (∃ e, d = .put k e) ∨ d = .get k ∧ k ∈ m.keys
  new : ∀ k e m, k ∉ m.keys → p.mark (.put k e) m = some k
  step : ∀ d b m, p.Keeps b m → ∃ b', (d.on layer (b, m)).state =
      (b', (Visit.advance m d).eraseAll (d.leaving (p.line b) (p.capacity b))) ∧
    p.capacity b' = (d.capacity? "size").getD (p.capacity b) ∧
    p.line b' = d.relined (p.line b) (p.capacity b) (p.mark d m) ∧ p.fits b'

variable {p} {layer : Store (β × Entries)} (h : p.Governs layer) {b : β}
  (fresh : p.Keeps b .empty)

include h in
theorem Governs.keeps_step {m : Entries} (keeps : p.Keeps b m) (d : Demand) :
    ∃ b', (d.on layer (b, m)).state =
        (b', (Visit.advance m d).eraseAll (d.leaving (p.line b) (p.capacity b))) ∧
      p.capacity b' = (d.capacity? "size").getD (p.capacity b) ∧
      p.line b' = d.relined (p.line b) (p.capacity b) (p.mark d m) ∧
      p.Keeps b' (d.on layer (b, m)).state.2 := by
  obtain ⟨b', run, capacity, line, fits⟩ := h.step d b m keeps
  refine ⟨b', run, capacity, line, ?_, fits⟩
  rw [line, capacity, run]
  refine Demand.lined_relined keeps.lined rfl (h.known d m) ?_
  rintro k e rfl new
  exact h.new k e m new

theorem order_relined {start s : β × Entries} {past : List Demand} {line : List CacheKey}
    (room : Nat) (d : Demand) (at_s : played (Demand.on layer) past start = s)
    (distinct : line.Nodup)
    (order : line.Pairwise (Precedes (Demand.on layer) start p.Marks past)) :
    (d.relined line room (p.mark d s.2)).Pairwise
      (Precedes (Demand.on layer) start p.Marks (past ++ [d])) := by
  subst at_s
  have shorter := d.remaining_sublist line room
  cases marked : p.mark d (played (Demand.on layer) past start).2 with
  | none =>
    refine ordered_concat order shorter fun j _ mark => ?_
    cases marked.symm.trans mark
  | some k =>
    refine ordered_concat_marked order (List.erase_sublist.trans shorter) (fun j there mark => ?_)
      marked
    cases marked.symm.trans mark
    exact (distinct.sublist shorter).not_mem_erase there

include h fresh in
/-- Over a run the line has the keys of all entries, in the order in which they were marked. -/
theorem Governs.keeps_played (past : List Demand) :
    let s := played (Demand.on layer) past (b, .empty)
    p.Keeps s.1 s.2 ∧ p.capacity s.1 = Demand.room (p.capacity b) past ∧
      (p.line s.1).Pairwise (Precedes (Demand.on layer) (b, .empty) p.Marks past) := by
  induction past using List.reverseRecOn with
  | nil =>
    have empty : p.line b = [] := List.eq_nil_iff_forall_not_mem.mpr fun k there => by
      cases (fresh.lined.keys k).mp there
    refine ⟨fresh, rfl, ?_⟩
    rw [played_nil, empty]
    exact .nil
  | append_singleton past d ih =>
    obtain ⟨keeps, room, order⟩ := ih
    obtain ⟨b', run, capacity, line, kept⟩ := h.keeps_step keeps d
    have order := order_relined (p.capacity (played (Demand.on layer) past (b, .empty)).1) d rfl
      keeps.lined.distinct order
    simp only [played_concat]
    rw [← line] at order
    rw [room] at capacity
    rw [Demand.room_concat, ← capacity]
    rw [run] at kept ⊢
    exact ⟨kept, rfl, order⟩

include h fresh in
theorem Governs.evicts_played (past : List Demand) (d : Demand) :
    let s := played (Demand.on layer) past (b, .empty)
    d.Evicts (Demand.room (p.capacity b) past)
      (Precedes (Demand.on layer) (b, .empty) p.Marks past) s.2 (d.on layer s).state.2 := by
  obtain ⟨keeps, room, order⟩ := h.keeps_played fresh past
  obtain ⟨b', run, -⟩ := h.step d _ _ keeps
  rw [← room]
  exact Demand.evicts_of_lined keeps.lined order (congrArg Prod.snd run)

include h fresh in
theorem Governs.latest_put (past : List Demand) {k : CacheKey} {e : Entry}
    (there : (played (Demand.on layer) past (b, .empty)).2.get? k = some e) :
    Demand.LatestPut past k e := by
  refine since_of_run (Demand.on layer) (b, .empty) (fun s => s.2.get? k = some e)
    (fun held => by cases held) (fun past d held => ?_) past there
  rw [played_concat] at held
  exact (h.evicts_played fresh past d).came k e held

end Policy
end StatementCache
