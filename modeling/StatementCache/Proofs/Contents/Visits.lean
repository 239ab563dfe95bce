import StatementCache.Proofs.Contents.Demand
import StatementCache.Proofs.Contents.Layering

/-! Runs of operations on a chain from its assembly on. What comes out is what was put last, and
never more than the layers allow. -/
namespace StatementCache

open StatementCache.Action Store

inductive Wrapping where
  | lru (capacity : Nat)
  | fifo (capacity : Nat)
  | tiered (hotSize warmCapacity : Nat) (timeToLive : Option Nat)
  /-- The interval, and the time at which the layer is made. -/
  | scheduled (interval now : Nat)
  | serialized
  | counted
  | synchronized
  | blocking (timeout : Option Nat)
  deriving DecidableEq

namespace Wrapping

def around : Wrapping → Cache → Cache
  | .lru capacity => Cache.lru capacity
  | .fifo capacity => Cache.fifo capacity
  | .tiered hotSize warmCapacity timeToLive => Cache.tiered hotSize warmCapacity timeToLive
  | .scheduled interval now => Cache.scheduled interval now
  | .serialized => Cache.serialized
  | .counted => Cache.counted
  | .synchronized => Cache.synchronized
  | .blocking timeout => Cache.blocking timeout

def cache (name : String) (wrappings : List Wrapping) : Cache :=
  wrappings.foldr around (Cache.base name)

variable (name : String) (wrappings : List Wrapping)

theorem builtIn_cache : (cache name wrappings).chain.BuiltIn := by
  induction wrappings with
  | nil => trivial
  | cons wrapping rest ih => cases wrapping <;> exact ih

theorem copies_cache (h : .serialized ∉ wrappings) :
    (cache name wrappings).chain.copies = false := by
  induction wrappings with
  | nil => rfl
  | cons wrapping rest ih =>
    simp only [List.mem_cons, not_or] at h
    cases wrapping with
    | serialized => exact absurd rfl h.1
    | _ => exact ih h.2

theorem copiesOnce_cache (once : wrappings.count .serialized ≤ 1) :
    (cache name wrappings).chain.CopiesOnce := by
  induction wrappings with
  | nil => trivial
  | cons wrapping rest ih =>
    cases wrapping with
    | serialized =>
      rw [List.count_cons_self] at once
      exact copies_cache name rest (List.count_eq_zero.mp (by omega))
    | _ => exact ih (by simpa using once)

theorem sound_cache :
    (cache name wrappings).chain.sound (cache name wrappings).state ∧
      ∀ k, (cache name wrappings).chain.held (cache name wrappings).state k = none := by
  induction wrappings with
  | nil => exact ⟨trivial, Table.get?_empty⟩
  | cons wrapping rest ih =>
    obtain ⟨sound, none⟩ := ih
    have vacant : ∀ {p : CacheKey → Entry → Prop} (k e),
        (cache name rest).chain.held (cache name rest).state k = some e → p k e := fun k e he => by
      cases (none k).symm.trans he
    cases wrapping with
    | lru capacity =>
      exact ⟨⟨⟨vacant, Nat.zero_le _, Nat.le_max_right ..⟩, sound⟩, none⟩
    | fifo capacity =>
      exact ⟨⟨⟨⟨vacant, List.Subset.refl _, .nil⟩, Nat.zero_le _⟩, sound⟩, none⟩
    | tiered hotSize warmCapacity timeToLive =>
      exact ⟨⟨⟨⟨Nat.zero_le _, Nat.zero_le _, Nat.le_max_right ..⟩, vacant⟩, sound⟩, none⟩
    | serialized =>
      refine ⟨⟨vacant, sound⟩, fun k => ?_⟩
      change ((cache name rest).chain.held (cache name rest).state k).bind _ = _
      rw [none k]
      rfl
    | _ => exact ⟨sound, none⟩

end Wrapping

structure Visit (ω : Type) where
  site : Site ω
  demand : Demand

namespace Visit

variable {ω : Type}

def perform (c : Chain) (visit : Visit ω) : Action (c.State × ω) Response :=
  visit.demand.on (c.store visit.site)

def Plain (visit : Visit ω) : Prop := ∀ k e, visit.demand = .put k e → e.Plain

def Drops (visit : Visit ω) (k : CacheKey) : Prop :=
  (∃ e, visit.demand = .put k e) ∨ visit.demand = .remove k ∨ visit.demand = .clear

/-- The operation comes when the interval of a scheduled layer that it can reach has passed. A
setting is offered to the outermost layer and at most reaches those below it. -/
def Overdue (c : Chain) (visit : Visit ω) (s : c.State × ω) : Prop :=
  match visit.demand with
  | .assign _ _ => c.late visit.site.now s.1
  | _ => c.due visit.site.now s.1

def Forward (visits : List (Visit ω)) : Prop :=
  (visits.map fun visit => visit.site.now).Pairwise (· ≤ ·)

theorem forward_concat {visits : List (Visit ω)} {visit : Visit ω}
    (h : Forward (visits ++ [visit])) :
    Forward visits ∧ ∀ v ∈ visits, v.site.now ≤ visit.site.now := by
  rw [Forward, List.map_append, List.pairwise_append] at h
  exact ⟨h.1, fun v hv => h.2.2 _ (List.mem_map_of_mem hv) _ (List.mem_map_of_mem (by simp))⟩

/-- No operation of the run is overdue, so no scheduled layer clears anything in it. -/
def Timely (c : Chain) : List (Visit ω) → c.State × ω → Prop
  | [], _ => True
  | visit :: rest, s => ¬visit.Overdue c s ∧ Timely c rest (visit.perform c s).state

theorem timely_concat (c : Chain) (visits : List (Visit ω)) (visit : Visit ω) (s : c.State × ω) :
    Timely c (visits ++ [visit]) s ↔
      Timely c visits s ∧ ¬visit.Overdue c (played (perform c) visits s) := by
  induction visits generalizing s with
  | nil => simp [Timely]
  | cons first rest ih => simp only [List.cons_append, Timely, ih, played_cons, and_assoc]

variable {c : Chain} {visit : Visit ω} {s : c.State × ω}

theorem overdue_of_late (h : c.late visit.site.now s.1) : visit.Overdue c s := by
  unfold Overdue
  split
  · exact h
  · exact Chain.due_of_late h

/-- What one operation makes of what is held. Nothing appears but what it puts, and what stays
although a clear was due is still due to go. -/
theorem step (builtIn : c.BuiltIn) (once : c.CopiesOnce) (plain : visit.Plain)
    (sound : c.sound s.1) :
    c.sound (visit.perform c s).state.1 ∧
      ∀ k e, c.held (visit.perform c s).state.1 k = some e →
        visit.demand = .put k e ∨ ¬visit.Drops k ∧ c.held s.1 k = some e ∧
          (visit.Overdue c s → c.late visit.site.now (visit.perform c s).state.1) := by
  have faithful := Chain.faithful_store visit.site c builtIn once
  obtain ⟨site, demand⟩ := visit
  simp only [perform, Drops, Overdue]
  cases demand with
  | put k e =>
    obtain ⟨s', run, sound, written⟩ := faithful.put k e s (fun _ => plain k e rfl) sound
    simp only [Demand.on, map_apply, run]
    refine ⟨sound, fun j x hx => (written.held j x hx).imp ?_ ?_⟩
    · rintro ⟨rfl, rfl⟩
      rfl
    · rintro ⟨other, there, early⟩
      exact ⟨by simpa using Ne.symm other, there, fun due => absurd due early⟩
  | get k =>
    obtain ⟨r, s', run, sound, fades, -⟩ := faithful.get k s sound
    simp only [Demand.on, map_apply, run]
    exact ⟨sound, fun j x hx => .inr ⟨by simp, fades.held j x hx⟩⟩
  | remove k =>
    obtain ⟨found, s', run, sound, swept, gone, -⟩ := faithful.remove k s sound
    simp only [Demand.on, map_apply, run]
    have fades : (c.view site.now).Fades (c.view site.now).late s s' := swept.weaken
    refine ⟨sound, fun j x hx => .inr ⟨?_, fades.held j x hx⟩⟩
    have other : k ≠ j := by
      rintro rfl
      cases gone.symm.trans hx
    simpa using other
  | clear =>
    obtain ⟨s', run, sound, -, gone⟩ := faithful.clear s sound
    simp only [Demand.on, map_apply, run]
    exact ⟨sound, fun j x hx => by cases (gone j).symm.trans hx⟩
  | size =>
    obtain ⟨n, s', run, sound, swept, -⟩ := faithful.size s sound
    simp only [Demand.on, total_apply, run]
    have fades : (c.view site.now).Fades (c.view site.now).late s s' := swept.weaken
    exact ⟨sound, fun j x hx => .inr ⟨by simp, fades.held j x hx⟩⟩
  | assign name value =>
    obtain ⟨r, s', run, sound, kept⟩ :=
      Chain.adjusts_store site c builtIn once name value s sound
    simp only [Demand.on, map_apply, run]
    exact ⟨sound, fun j x hx => .inr ⟨by simp, kept j x hx⟩⟩

theorem held_of_found (builtIn : c.BuiltIn) (once : c.CopiesOnce) (sound : c.sound s.1)
    {k : CacheKey} {e : Entry} (asked : visit.demand = .get k ∨ visit.demand = .remove k)
    (found : (visit.perform c s).result = .ok (.found (some e))) :
    c.held s.1 k = some e ∧ ¬visit.Overdue c s := by
  have faithful := Chain.faithful_store visit.site c builtIn once
  obtain ⟨site, demand⟩ := visit
  simp only [perform] at found
  obtain rfl | rfl := asked
  · obtain ⟨r, s', run, -, -, lookup⟩ := faithful.get k s sound
    simp only [Demand.on, map_apply, run] at found
    cases r with
    | error _ => cases found
    | ok answer =>
      cases found
      exact lookup e rfl
  · obtain ⟨answer, s', run, -, -, -, lookup⟩ := faithful.remove k s sound
    simp only [Demand.on, map_apply, run] at found
    cases found
    exact lookup e rfl

/-- The entry is the one put last under its key, nothing has dropped it since, and it was not due
to go in between unless it still is. -/
def Latest (c : Chain) (start : c.State × ω) (past : List (Visit ω)) (k : CacheKey) (e : Entry) :
    Prop :=
  ∃ before put after, past = before ++ put :: after ∧ put.demand = .put k e ∧
    (∀ visit ∈ after, ¬visit.Drops k) ∧
    (Forward past → Timely c after (played (perform c) (before ++ [put]) start) ∨
      ∃ visit ∈ past, c.late visit.site.now (played (perform c) past start).1)

theorem played_split (c : Chain) (before : List (Visit ω)) (put : Visit ω) (after : List (Visit ω))
    (s : c.State × ω) :
    played (perform c) (before ++ put :: after) s =
      played (perform c) after (played (perform c) (before ++ [put]) s) := by
  simp only [played, List.foldl_append, List.foldl_cons, List.foldl_nil]

theorem sound_played (builtIn : c.BuiltIn) (once : c.CopiesOnce) {start : c.State × ω}
    (sound : c.sound start.1) (past : List (Visit ω)) (plain : ∀ visit ∈ past, visit.Plain) :
    c.sound (played (perform c) past start).1 := by
  induction past using List.reverseRecOn with
  | nil => exact sound
  | append_singleton past visit ih =>
    rw [played_concat]
    have sound := ih fun v hv => plain v (List.mem_append_left _ hv)
    exact (step builtIn once (plain visit (by simp)) sound).1

theorem held_latest (builtIn : c.BuiltIn) (once : c.CopiesOnce) {start : c.State × ω}
    (sound : c.sound start.1) (none : ∀ k, c.held start.1 k = none) (past : List (Visit ω))
    (plain : ∀ visit ∈ past, visit.Plain) {k : CacheKey} {e : Entry}
    (he : c.held (played (perform c) past start).1 k = some e) : Latest c start past k e := by
  induction past using List.reverseRecOn with
  | nil => cases (none k).symm.trans he
  | append_singleton past visit ih =>
    have allowed : ∀ v ∈ past, v.Plain := fun v hv => plain v (List.mem_append_left _ hv)
    have sound := sound_played builtIn once sound past allowed
    rw [played_concat] at he
    obtain put | ⟨stays, there, still⟩ :=
      (step builtIn once (plain visit (by simp)) sound).2 k e he
    · exact ⟨past, visit, [], rfl, put, by simp, fun _ => .inl trivial⟩
    · obtain ⟨before, put, after, rfl, same, untouched, timely⟩ := ih allowed there
      refine ⟨before, put, after ++ [visit], by simp, same, fun v hv => ?_,
        fun forward => ?_⟩
      · obtain hv | hv := List.mem_append.mp hv
        · exact untouched v hv
        · exact List.mem_singleton.mp hv ▸ stays
      · -- a clear that is missed stays due until it is made up for
        have missed : visit.Overdue c (played (perform c) (before ++ put :: after) start) →
            ∃ v ∈ before ++ put :: after ++ [visit], c.late v.site.now
              (played (perform c) (before ++ put :: after ++ [visit]) start).1 := fun overdue =>
          ⟨visit, by simp, by rw [played_concat]; exact still overdue⟩
        obtain ⟨forward, latest⟩ := forward_concat forward
        obtain timely | ⟨v, hv, late⟩ := timely forward
        · by_cases overdue : visit.Overdue c (played (perform c) (before ++ put :: after) start)
          · exact .inr (missed overdue)
          · rw [played_split] at overdue
            exact .inl ((timely_concat ..).mpr ⟨timely, overdue⟩)
        · exact .inr (missed (overdue_of_late (Chain.late_mono (latest v hv) late)))

end Visit

def Site.lone (thread : Thread) (now : Nat) : Site Unit where
  thread := thread
  now := now
  note _ := pure ()
  permit _ := pure ()
  shared target := Store.unavailable target.id

namespace Wrapping

open Visit

variable {ω : Type}

def start (name : String) (wrappings : List Wrapping) (w : ω) :
    (cache name wrappings).chain.State × ω := ((cache name wrappings).state, w)

theorem sound_start (name : String) (wrappings : List Wrapping) (w : ω) :
    (cache name wrappings).chain.sound (start name wrappings w).1 ∧
      ∀ k, (cache name wrappings).chain.held (start name wrappings w).1 k = none :=
  sound_cache name wrappings

/-- Whatever layers a map is under, a lookup or a removal that gives back an entry gives back what
was put last under its key. Nothing has removed the key or cleared the cache since, and no operation
since came when a scheduled clear was due, as long as time does not go back. -/
theorem found_is_latest_put (name : String) (wrappings : List Wrapping)
    (once : wrappings.count .serialized ≤ 1) (w : ω) (past : List (Visit ω)) (last : Visit ω)
    (plain : ∀ visit ∈ past, visit.Plain)
    {k : CacheKey} {e : Entry} (asked : last.demand = .get k ∨ last.demand = .remove k)
    (found : (last.perform (cache name wrappings).chain
      (played (perform (cache name wrappings).chain) past (start name wrappings w))).result =
        .ok (.found (some e))) :
    ∃ before put after, past = before ++ put :: after ∧ put.demand = .put k e ∧
      (∀ visit ∈ after, ¬visit.Drops k) ∧
      (Forward (past ++ [last]) → Timely (cache name wrappings).chain (after ++ [last])
        (played (perform (cache name wrappings).chain) (before ++ [put])
          (start name wrappings w))) := by
  have builtIn := builtIn_cache name wrappings
  have copies := copiesOnce_cache name wrappings once
  obtain ⟨fresh, none⟩ := sound_start name wrappings w
  obtain ⟨there, early⟩ :=
    held_of_found builtIn copies (sound_played builtIn copies fresh past plain) asked found
  obtain ⟨before, put, after, rfl, same, untouched, timely⟩ :=
    held_latest builtIn copies fresh none past plain there
  refine ⟨before, put, after, rfl, same, untouched, fun forward => ?_⟩
  obtain ⟨forward, latest⟩ := forward_concat forward
  obtain timely | ⟨v, hv, late⟩ := timely forward
  · rw [played_split] at early
    exact (timely_concat ..).mpr ⟨timely, early⟩
  · exact absurd (overdue_of_late (Chain.late_mono (latest v hv) late)) early

/-- A result that another thread writes anew comes back through every kind of loss there is. -/
theorem found_is_latest_put_of_renewed :
    let layers : List Wrapping := [.blocking (some 100), .lru 1, .scheduled 50 0, .serialized]
    let chain := (cache "orders" layers).chain
    let rows (n : Int64) : Entry := .rows [[.scalar (.integer n)]]
    let past : List (Visit Unit) :=
      [⟨.lone 1 10, .put .empty (rows 7)⟩, ⟨.lone 2 20, .put .empty (rows 8)⟩]
    let last : Visit Unit := ⟨.lone 1 30, .get .empty⟩
    (last.perform chain (played (perform chain) past (start "orders" layers ()))).result =
        .ok (.found (some (rows 8))) ∧
      ∃ before put after, past = before ++ put :: after ∧ put.demand = .put .empty (rows 8) ∧
        (∀ visit ∈ after, ¬visit.Drops .empty) ∧
        (Forward (past ++ [last]) → Timely chain (after ++ [last])
          (played (perform chain) (before ++ [put]) (start "orders" layers ()))) := by
  intro layers chain rows past last
  have plain : ∀ visit ∈ past, visit.Plain := by
    have sized (n : Int64) : (rows n).Plain := by
      simp [rows, Entry.Plain, Rows.Sized, Row.Sized, Value.AllSized, Value.Sized, Scalar.Sized,
        wordBound]
    intro visit mem k e asked
    simp only [past, List.mem_cons, List.not_mem_nil, or_false] at mem
    obtain rfl | rfl := mem <;> cases asked <;> exact sized _
  exact ⟨rfl, found_is_latest_put "orders" layers (by decide) () past last plain (.inl rfl)
    rfl⟩

/-- Whatever layers a map is under, its size is never above the current capacity of a layer that
evicts. -/
theorem size_le_capacity (name : String) (wrappings : List Wrapping)
    (once : wrappings.count .serialized ≤ 1) (w : ω) (past : List (Visit ω))
    (plain : ∀ visit ∈ past, visit.Plain) (site : Site ω) :
    let chain := (cache name wrappings).chain
    let s := played (perform chain) past (start name wrappings w)
    ∀ limit ∈ chain.limits s.1, ((chain.store site).size s).1 ≤ limit := by
  intro chain s limit there
  have builtIn := builtIn_cache name wrappings
  have copies := copiesOnce_cache name wrappings once
  have sound : chain.sound s.1 :=
    sound_played builtIn copies (sound_start name wrappings w).1 past plain
  obtain ⟨n, s', run, -, swept, -, bound⟩ :=
    (Chain.faithful_store site chain builtIn copies).size s sound
  rw [run]
  exact bound limit (swept.limits ▸ there)

/-- Three keys go into a chain that keeps at most two, of which a setting then leaves one. -/
theorem size_le_capacity_of_resized :
    let layers : List Wrapping := [.fifo 3, .tiered 1 1 none, .serialized]
    let chain := (cache "orders" layers).chain
    let past : List (Visit Unit) :=
      [⟨.lone 1 0, .put (.ofValues [.integer 1]) .placeholder⟩,
        ⟨.lone 2 0, .put (.ofValues [.integer 2]) .placeholder⟩,
        ⟨.lone 1 0, .put (.ofValues [.integer 3]) .placeholder⟩, ⟨.lone 1 0, .assign "size" "1"⟩]
    let s := played (perform chain) past (start "orders" layers ())
    chain.limits s.1 = [1, 2] ∧ ((chain.store (.lone 1 0)).size s).1 ≤ 1 := by
  intro layers chain past s
  have plain : ∀ visit ∈ past, visit.Plain := by
    intro visit mem k e asked
    simp only [past, List.mem_cons, List.not_mem_nil, or_false] at mem
    obtain rfl | rfl | rfl | rfl := mem <;> cases asked <;> trivial
  have limits : chain.limits s.1 = [1, 2] := rfl
  exact ⟨limits, size_le_capacity "orders" layers (by decide) () past plain (.lone 1 0) 1
    (limits ▸ List.mem_cons_self)⟩

end Wrapping
end StatementCache
