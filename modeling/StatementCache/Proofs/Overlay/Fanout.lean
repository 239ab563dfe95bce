import StatementCache.Proofs.Overlay.Apart
import Mathlib.Data.List.Dedup

/-! One unit of work over several caches that share nothing. Whatever is asked of the caches, in any
interleaving, each of them and its overlay go through what they would go through alone, also at the
end, where the overlays are settled in any order and some of them may fail. -/
namespace StatementCache

open StatementCache.Action

variable {σ : Type}

namespace Overlays

open Overlay

def access (directory : Directory σ) (ref : CacheRef) : Access → Action (Overlays × σ) Unit
  | .get k => discard (get directory ref k)
  | .put k e => put ref k e
  | .clear => clear ref

def ended (directory : Directory σ) : Ending → Action (Overlays × σ) Unit
  | .commit => commit directory
  | .rollback => rollback directory

/-- A turn of a unit of work, or of others who use, change or drop one cache. -/
inductive Turn (σ : Type) where
  | asked (directory : Directory σ) (serial : Nat) (request : Access)
  | disturbed (serial : Nat) (change : σ → σ)

namespace Turn

def serial : Turn σ → Nat
  | .asked _ serial _ | .disturbed serial _ => serial

def touches : Turn σ → Option Nat
  | .asked _ serial _ => some serial
  | .disturbed _ _ => none

/-- The turn is about one cache, and shares nothing with the others. -/
def Apart (p : Sight σ) : Turn σ → Prop
  | .asked directory _ _ => directory.Apart p
  | .disturbed serial change =>
    (∀ s s', p.Same serial s s' → p.Same serial (change s) (change s')) ∧
      ∀ i s, i ≠ serial → p.Same serial s s → p.Same i s s → p.Same i s (change s)

def joint (names : Nat → String) : Turn σ → Overlays × σ → Overlays × σ
  | .asked directory serial request, s => (access directory ⟨serial, names serial⟩ request s).state
  | .disturbed _ change, (os, s) => (os, change s)

/-- The turn as the only overlay of cache `i` takes it, which has nothing to do with the others. -/
def alone (i : Nat) : Turn σ → Overlay × σ → Overlay × σ
  | .asked directory serial request, s =>
    if serial = i then (Overlay.access directory request s).state else s
  | .disturbed serial change, (o, s) => if serial = i then (o, change s) else (o, s)

theorem apart_drop (serial : Nat) : Apart World.ownCaches
    (.disturbed serial fun w => { w with caches := w.caches.erase serial }) := by
  refine ⟨fun w w' h => ⟨?_, fun c found => ?_⟩, fun i w other _ sound => ⟨?_, sound.2⟩⟩
  · simp only [Table.get?_erase, if_pos]
  · simp only [Table.get?_erase, if_pos] at found
    cases found
  · simp only [Table.get?_erase, if_neg other.symm]

end Turn

def run (names : Nat → String) (turns : List (Turn σ)) (s : σ) : Overlays × σ :=
  turns.foldl (fun s turn => turn.joint names s) (empty, s)

def runAlone (names : Nat → String) (turns : List (Turn σ)) (i : Nat) (s : σ) : Overlay × σ :=
  turns.foldl (fun s turn => turn.alone i s) (fresh ⟨i, names i⟩, s)

def asked (turns : List (Turn σ)) : List Nat := turns.filterMap Turn.touches

variable {p : Sight σ} {names : Nat → String} {turns : List (Turn σ)} {s : σ}

structure Projects (p : Sight σ) (names : Nat → String) (turns : List (Turn σ)) (s : σ)
    (now : Overlays × σ) : Prop where
  overlays : ∀ i, now.1.bySerial.get? i =
    if i ∈ asked turns then some (runAlone names turns i s).1 else none
  same : ∀ i, p.Same i s s → p.Same i now.2 (runAlone names turns i s).2

theorem runAlone_concat (turns : List (Turn σ)) (turn : Turn σ) (i : Nat) (s : σ) :
    runAlone names (turns ++ [turn]) i s = turn.alone i (runAlone names turns i s) := by
  simp only [runAlone, List.foldl_append, List.foldl_cons, List.foldl_nil]

theorem target_runAlone (turns : List (Turn σ)) (i : Nat) (s : σ) :
    (runAlone names turns i s).1.target = ⟨i, names i⟩ := by
  induction turns using List.reverseRecOn with
  | nil => rfl
  | append_singleton turns turn ih =>
    rw [runAlone_concat]
    cases turn with
    | asked directory serial request =>
      rw [Turn.alone]
      split
      · rw [← ih]
        exact target_access ..
      · exact ih
    | disturbed serial change =>
      rw [Turn.alone]
      split
      · exact ih
      · exact ih

theorem runAlone_of_not_asked {i : Nat} (s : σ) (untouched : i ∉ asked turns) :
    (runAlone names turns i s).1 = fresh ⟨i, names i⟩ := by
  induction turns using List.reverseRecOn with
  | nil => rfl
  | append_singleton turns turn ih =>
    rw [runAlone_concat]
    rw [asked, List.filterMap_append, List.mem_append, not_or] at untouched
    have before := ih untouched.1
    cases turn with
    | asked directory serial request =>
      have other : serial ≠ i := fun same => untouched.2 (by simp [Turn.touches, same])
      rw [Turn.alone, if_neg other, before]
    | disturbed serial change =>
      rw [Turn.alone]
      split
      · exact before
      · exact before

theorem asked_concat (turns : List (Turn σ)) (turn : Turn σ) :
    asked (turns ++ [turn]) = asked turns ++ turn.touches.toList := by
  rw [asked, List.filterMap_append]
  cases turn <;> rfl

theorem state_access (directory : Directory σ) (ref : CacheRef) (request : Access) (os : Overlays)
    (s : σ) :
    (access directory ref request (os, s)).state =
      let done := (Overlay.access directory request (os.overlay ref, s)).state
      (⟨os.bySerial.insert ref.serial done.1⟩, done.2) := by
  cases request with
  | get k => simp only [access, Overlay.access, get, state_discard, onOverlay_apply]
  | put k e => rfl
  | clear => rfl

theorem Projects.overlay {now : Overlays × σ} (h : Projects p names turns s now) (i : Nat) :
    now.1.overlay ⟨i, names i⟩ = (runAlone names turns i s).1 := by
  rw [Overlays.overlay, h.overlays]
  split
  · rfl
  · rename_i untouched
    exact (runAlone_of_not_asked s untouched).symm

/-- Whichever cache a turn is about, all of them stay as they would be alone. -/
theorem Projects.step {now : Overlays × σ} {turn : Turn σ} (h : Projects p names turns s now)
    (apart : turn.Apart p) (sound : p.Same turn.serial s s) :
    Projects p names (turns ++ [turn]) s (turn.joint names now) := by
  obtain ⟨os, t⟩ := now
  cases turn with
  | asked directory serial request =>
    have own : p.Same serial t (runAlone names turns serial s).2 := h.same serial sound
    have overlay : os.overlay ⟨serial, names serial⟩ = (runAlone names turns serial s).1 :=
      h.overlay serial
    have target : (runAlone names turns serial s).1.target.serial = serial := by
      rw [target_runAlone]
    have both := uniform_access apart (target.symm ▸ own :
      p.Same (runAlone names turns serial s).1.target.serial t _) request
    rw [target] at both
    rw [Turn.joint, state_access, overlay]
    refine ⟨fun i => ?_, fun i si => ?_⟩
    · rw [Table.get?_insert, h.overlays, asked_concat, runAlone_concat, Turn.alone]
      by_cases same : serial = i
      · subst same
        simp [Turn.touches, both.1]
      · simp [Turn.touches, same, Ne.symm same]
    · rw [runAlone_concat, Turn.alone]
      by_cases same : serial = i
      · subst same
        rw [if_pos rfl]
        exact both.2
      · have kept := foreign_access apart (target.symm ▸ Ne.symm same) (target.symm ▸ p.left own)
          (p.left (h.same i si)) request
        rw [if_neg same]
        exact p.trans (p.symm kept) (h.same i si)
  | disturbed serial change =>
    have own : p.Same serial t (runAlone names turns serial s).2 := h.same serial sound
    refine ⟨fun i => ?_, fun i si => ?_⟩
    · have overlay (now : Overlay × σ) :
          (Turn.alone i (.disturbed serial change) now).1 = now.1 := by
        rw [Turn.alone]
        split <;> rfl
      rw [asked_concat, runAlone_concat, overlay, Turn.touches, Option.toList_none, List.append_nil]
      exact h.overlays i
    · rw [runAlone_concat, Turn.alone]
      by_cases same : serial = i
      · subst same
        rw [if_pos rfl]
        exact apart.1 _ _ own
      · have kept := apart.2 i t (Ne.symm same) (p.left own) (p.left (h.same i si))
        rw [if_neg same]
        exact p.trans (p.symm kept) (h.same i si)

theorem run_concat (turns : List (Turn σ)) (turn : Turn σ) (s : σ) :
    run names (turns ++ [turn]) s = turn.joint names (run names turns s) := by
  simp only [run, List.foldl_append, List.foldl_cons, List.foldl_nil]

theorem projects_run (apart : ∀ turn ∈ turns, turn.Apart p)
    (sound : ∀ turn ∈ turns, p.Same turn.serial s s) :
    Projects p names turns s (run names turns s) := by
  induction turns using List.reverseRecOn with
  | nil => exact ⟨fun i => rfl, fun i si => si⟩
  | append_singleton turns turn ih =>
    rw [run_concat]
    have last : turn ∈ turns ++ [turn] := List.mem_append_right _ List.mem_cons_self
    exact (ih (fun u mem => apart u (List.mem_append_left _ mem))
      fun u mem => sound u (List.mem_append_left _ mem)).step (apart turn last) (sound turn last)

theorem same_of_asked (sound : ∀ turn ∈ turns, p.Same turn.serial s s) {i : Nat}
    (touched : i ∈ asked turns) : p.Same i s s := by
  obtain ⟨turn, mem, touches⟩ := List.mem_filterMap.mp touched
  cases turn with
  | asked directory serial request =>
    cases touches
    exact sound _ mem
  | disturbed serial change => cases touches

theorem Projects.touched {now : Overlays × σ} (h : Projects p names turns s now) :
    now.1.touched = (asked turns).dedup.length := by
  have distinct : now.1.bySerial.keys.Nodup := now.1.bySerial.distinct
  have same (i : Nat) : i ∈ now.1.bySerial.keys ↔ i ∈ (asked turns).dedup := by
    rw [Table.mem_keys_iff, h.overlays, List.mem_dedup]
    split <;> simp_all
  have perm := (List.perm_ext_iff_of_nodup distinct (List.nodup_dedup _)).mpr same
  rw [← perm.length_eq]
  exact (List.length_map ..).symm

def settling (directory : Directory σ) (ending : Ending) (o : Overlay) : Action σ Unit := fun s =>
  let done := ending.run directory (o, s)
  ⟨done.result, done.state.2⟩

theorem ended_apply (directory : Directory σ) (ending : Ending) (os : Overlays) (s : σ) :
    ended directory ending (os, s) =
      let done := all (os.bySerial.values.map (settling directory ending)) s
      ⟨done.result, (empty, done.state)⟩ := by
  cases ending <;> rfl

section Settling

variable {directory : Directory σ} (apart : directory.Apart p) (ending : Ending)
include apart

theorem keeps_others {i : Nat} {os : List Overlay} (absent : ∀ o ∈ os, i ≠ o.target.serial)
    (base : σ) :
    Keeps (fun t => p.Same i base t ∧ ∀ o ∈ os, p.Same o.target.serial t t)
      (all (os.map (settling directory ending))) := by
  refine Keeps.all fun m mem => ?_
  obtain ⟨o, isOf, rfl⟩ := List.mem_map.mp mem
  rintro t ⟨same, sound⟩
  refine ⟨p.trans same (foreign_run apart (absent o isOf) (sound o isOf) (p.right same) ending),
    fun other mem' => ?_⟩
  by_cases twin : other.target.serial = o.target.serial
  · rw [twin]
    exact p.left (uniform_run apart (sound o isOf) ending).2
  · exact p.right (foreign_run apart twin (sound o isOf) (sound other mem') ending)

theorem all_settling {os : List Overlay} (distinct : (os.map (·.target.serial)).Nodup)
    (sound : ∀ o ∈ os, p.Same o.target.serial s s) :
    let done := all (os.map (settling directory ending)) s
    (∀ o ∈ os, p.Same o.target.serial done.state (settling directory ending o s).state) ∧
      (done.result = .ok () ↔ ∀ o ∈ os, (settling directory ending o s).result = .ok ()) := by
  induction os generalizing s with
  | nil => simp [all]
  | cons o os ih =>
    obtain ⟨new, distinct⟩ := List.nodup_cons.mp distinct
    have other (u : Overlay) (mem : u ∈ os) : u.target.serial ≠ o.target.serial := fun same =>
      new (List.mem_map.mpr ⟨u, mem, same⟩)
    have own := sound o List.mem_cons_self
    have kept (u : Overlay) (mem : u ∈ os) := foreign_run apart (other u mem) own
      (sound u (List.mem_cons_of_mem _ mem)) ending
    have alone (u : Overlay) (mem : u ∈ os) := uniform_run apart (kept u mem) ending
    obtain ⟨each, ok_iff⟩ := ih distinct fun u mem => p.right (kept u mem)
    refine ⟨fun u mem => ?_, ?_⟩
    · rcases List.mem_cons.mp mem with rfl | mem
      · have first := p.left (uniform_run apart own ending).2
        exact p.symm (keeps_others apart ending (fun v mem => (other v mem).symm) _ _
          ⟨first, fun v mem => p.right (kept v mem)⟩).1
      · exact p.trans (each u mem) (p.symm (alone u mem).2)
    · have rest : (∀ u ∈ os, (settling directory ending u s).result = .ok ()) ↔
          (all (os.map (settling directory ending)) (settling directory ending o s).state).result =
            .ok () :=
        (forall₂_congr fun u mem => by rw [settling, (alone u mem).1]; rfl).trans ok_iff.symm
      rw [List.forall_mem_cons, rest, List.map_cons, all, both]
      cases (settling directory ending o s).result with
      | error e => simp [Except.bind]
      | ok _ => simp [Except.bind]

end Settling

/-- The overlays of a unit of work are walked in any order, as is the work of each of them. -/
def Rearranges (os' os : Overlays) : Prop :=
  ∀ i, Option.Rel Reorders (os'.bySerial.get? i) (os.bySerial.get? i)

theorem Rearranges.of_perm {os os' : Overlays}
    (h : os'.bySerial.entries.Perm os.bySerial.entries) : os'.Rearranges os := by
  intro i
  have same : os'.bySerial.get? i = os.bySerial.get? i := by
    ext o
    simp only [Table.get?_eq_some_iff, h.mem_iff]
  rw [same]
  cases os.bySerial.get? i with
  | none => exact .none
  | some o => exact .some (.refl o)

section Order

variable {now : Overlays × σ} {os : Overlays} (h : Projects p names turns s now)
  (order : os.Rearranges now.1)
include h order

theorem Projects.reorders (i : Nat) :
    (os.overlay ⟨i, names i⟩).Reorders (runAlone names turns i s).1 := by
  rw [← h.overlay, Overlays.overlay, Overlays.overlay]
  have same := order i
  generalize os.bySerial.get? i = found, now.1.bySerial.get? i = found' at same ⊢
  cases same with
  | some same => exact same
  | none => exact .refl _

theorem Projects.target_overlay (i : Nat) :
    (os.overlay ⟨i, names i⟩).target.serial = i := by
  rw [(h.reorders order i).target_eq, target_runAlone]

theorem Projects.get? (i : Nat) :
    os.bySerial.get? i = if i ∈ asked turns then some (os.overlay ⟨i, names i⟩) else none := by
  have same := order i
  rw [h.overlays] at same
  rw [Overlays.overlay]
  generalize os.bySerial.get? i = found at same ⊢
  by_cases mem : i ∈ asked turns
  · rw [if_pos mem] at same ⊢
    cases same
    rfl
  · rw [if_neg mem] at same ⊢
    cases same
    rfl

theorem Projects.overlay_of_not_asked {i : Nat} (untouched : i ∉ asked turns) :
    os.overlay ⟨i, names i⟩ = fresh ⟨i, names i⟩ := by
  rw [Overlays.overlay, h.get? order, if_neg untouched]
  rfl

theorem Projects.mem_values_iff (o : Overlay) :
    o ∈ os.bySerial.values ↔ ∃ i ∈ asked turns, os.overlay ⟨i, names i⟩ = o := by
  have filed (i : Nat) :
      (i, o) ∈ os.bySerial.entries ↔ i ∈ asked turns ∧ os.overlay ⟨i, names i⟩ = o := by
    rw [← Table.get?_eq_some_iff, h.get? order]
    split <;> simp_all
  simp only [Table.values, List.mem_map, Prod.exists, filed, exists_eq_right]

theorem Projects.distinct : (os.bySerial.values.map (·.target.serial)).Nodup := by
  have serials : os.bySerial.values.map (·.target.serial) = os.bySerial.keys := by
    rw [Table.values, List.map_map]
    refine List.map_congr_left fun e mem => ?_
    have found : os.bySerial.get? e.1 = some e.2 := (Table.get?_eq_some_iff ..).mpr mem
    have target := h.target_overlay order e.1
    rwa [Overlays.overlay, found] at target
  exact serials ▸ os.bySerial.distinct

/-- The end of an overlay does the same for its cache as if there had been no other. -/
theorem Projects.alike_run {directory : Directory σ} (apart : directory.Apart p) {i : Nat}
    (sound : p.Same i s s) (ending : Ending) :
    let done := ending.run directory (os.overlay ⟨i, names i⟩, now.2)
    let alone := ending.run directory (os.overlay ⟨i, names i⟩, (runAlone names turns i s).2)
    done.result = alone.result ∧ p.Same i done.state.2 alone.state.2 := by
  have target := h.target_overlay order i
  have same :
      p.Same (os.overlay ⟨i, names i⟩).target.serial now.2 (runAlone names turns i s).2 := by
    rw [target]
    exact h.same i sound
  have alike := uniform_run apart same ending
  rwa [target] at alike

end Order

theorem run_fresh (directory : Directory σ) (ending : Ending) (ref : CacheRef) (s : σ) :
    (ending.run directory (fresh ref, s)).state.2 = s := by
  cases found : directory ref s with
  | none => rw [run_of_none found]
  | some store =>
    rw [run_of_some found]
    cases ending <;> rfl

/-- However the overlays of a unit of work are walked, each cache ends up as if nothing but its own
overlay had been there, and nothing but that overlay's failure counts. -/
theorem fan_out_independent {directory : Directory σ} (apart : directory.Apart p)
    (turnsApart : ∀ turn ∈ turns, turn.Apart p) (sound : ∀ turn ∈ turns, p.Same turn.serial s s)
    (ending : Ending) {os : Overlays} (order : os.Rearranges (run names turns s).1) :
    let now := run names turns s
    let done := ended directory ending (os, now.2)
    let alone i := runAlone names turns i s
    let own i := ending.run directory (os.overlay ⟨i, names i⟩, (alone i).2)
    ((∀ i, now.1.bySerial.get? i = if i ∈ asked turns then some (alone i).1 else none) ∧
        now.1.touched = (asked turns).dedup.length) ∧
      (∀ i, (os.overlay ⟨i, names i⟩).Reorders (alone i).1 ∧
        (p.Same i s s → p.Same i done.state.2 (own i).state.2)) ∧
      (done.result = .ok () ↔ ∀ i ∈ asked turns, (own i).result = .ok ()) ∧
      done.state.1.touched = 0 ∧
        ∀ (directory : Directory σ) again t,
          ended directory again (done.state.1, t) = ⟨.ok (), (done.state.1, t)⟩ := by
  have projects : Projects p names turns s (run names turns s) := projects_run turnsApart sound
  have ofValue := projects.mem_values_iff order
  have target := projects.target_overlay order
  have touched {i : Nat} (mem : i ∈ asked turns) : p.Same i s s := same_of_asked sound mem
  have alone {i : Nat} (si : p.Same i s s) := projects.alike_run order apart si ending
  have owned (o : Overlay) (mem : o ∈ os.bySerial.values) :
      p.Same o.target.serial (run names turns s).2 (run names turns s).2 := by
    obtain ⟨i, asked, rfl⟩ := (ofValue o).mp mem
    rw [target]
    exact p.left (projects.same i (touched asked))
  obtain ⟨each, ok_iff⟩ := all_settling apart ending (projects.distinct order) owned
  dsimp only
  rw [ended_apply]
  refine ⟨⟨projects.overlays, projects.touched⟩, fun i => ⟨projects.reorders order i, fun si => ?_⟩,
    ok_iff.trans ?_, rfl, fun directory again t => by cases again <;> rfl⟩
  · by_cases mem : i ∈ asked turns
    · have same := each _ ((ofValue _).mpr ⟨i, mem, rfl⟩)
      rw [target] at same
      exact p.trans same (alone si).2
    · have others (o : Overlay) (isOf : o ∈ os.bySerial.values) : i ≠ o.target.serial := by
        obtain ⟨j, asked, rfl⟩ := (ofValue o).mp isOf
        rw [target]
        exact fun same => mem (same ▸ asked)
      have kept := keeps_others apart ending others _ _ ⟨p.left (projects.same i si), owned⟩
      rw [projects.overlay_of_not_asked order mem, run_fresh]
      exact p.trans (p.symm kept.1) (projects.same i si)
  · constructor
    · intro oks i mem
      exact (alone (touched mem)).1.symm.trans (oks _ ((ofValue _).mpr ⟨i, mem, rfl⟩))
    · intro oks o isOf
      obtain ⟨i, mem, rfl⟩ := (ofValue o).mp isOf
      exact (alone (touched mem)).1.trans (oks i mem)

def shops : World :=
  let caches := (((Table.empty.insert 0 (Cache.blocking none (.base "users"))).insert 1
    (Cache.serialized (.base "orders"))).insert 2 (Cache.base "items"))
  { World.empty with caches, nextSerial := 3 }

/-- A key is missed in the first cache, which locks it, the second is given a handle, and the third
is dropped. The overlays are walked in the other order; all the same the lock is given back, and
what is written to the second cache beside the handle arrives. -/
theorem fan_out_independent_of_dropped :
    let host : Host := ⟨0, 0, fun _ _ => false⟩
    let key (n : Int64) : CacheKey := .ofValues [.integer n]
    let names (i : Nat) : String := ["users", "orders", "items"].getD i ""
    let asked := Turn.asked (World.find? host)
    let turns : List (Turn World) := [asked 1 .clear, asked 0 (.get (key 7)),
      asked 1 (.put (key 8) (.handle ⟨0, "socket"⟩)), asked 2 (.put (key 7) .placeholder),
      asked 1 (.put (key 9) .placeholder),
      .disturbed 2 fun w => { w with caches := w.caches.erase 2 }]
    let now := run names turns shops
    let os : Overlays := ⟨⟨now.1.bySerial.entries.reverse, by decide +kernel⟩⟩
    let done := ended (World.find? host) .commit (os, now.2)
    now.2.owner? 0 (key 7) = some 0 ∧ now.1.touched = 3 ∧
      done.result ≠ .ok () ∧ done.state.2.owner? 0 (key 7) = none ∧
      (done.state.2.contents 1 (key 9)).map Entry.isPlaceholder = some true ∧
      done.state.1.touched = 0 := by
  intro host key names asked turns now os done
  have apart : Directory.Apart (World.find? host) World.ownCaches :=
    World.apart_find? fun _ _ _ => rfl
  have dropped : Turn.Apart World.ownCaches
      (.disturbed 2 fun w => { w with caches := w.caches.erase 2 }) := Turn.apart_drop 2
  have own (i : Nat) (mem : i ∈ [0, 1, 2]) : World.ownCaches.Same i shops shops := by
    simp only [List.mem_cons, List.not_mem_nil, or_false] at mem
    rcases mem with rfl | rfl | rfl <;> exact ⟨rfl, fun c found => by cases found; rfl⟩
  have turnsApart : ∀ turn ∈ turns, turn.Apart World.ownCaches := by
    simpa [turns, asked, Turn.Apart, apart] using dropped
  have sound : ∀ turn ∈ turns, World.ownCaches.Same turn.serial shops shops := by
    intro turn mem
    refine own _ ?_
    simp only [turns, List.mem_cons, List.not_mem_nil, or_false] at mem
    rcases mem with rfl | rfl | rfl | rfl | rfl | rfl <;> decide
  have order : os.Rearranges (run names turns shops).1 := .of_perm (List.reverse_perm _)
  obtain ⟨⟨-, touched⟩, same, ok_iff, emptied, -⟩ :=
    fan_out_independent apart turnsApart sound .commit order
  have users := (same 0).2 (own 0 (by decide))
  have orders := (same 1).2 (own 1 (by decide))
  refine ⟨by decide +kernel, touched, fun ok => ?_, ?_, ?_, emptied⟩
  · have failed := congrArg Except.isOk (ok_iff.mp ok 1 (by decide))
    have refused : (Ending.commit.run (World.find? host) (os.overlay ⟨1, names 1⟩,
      (runAlone names turns 1 shops).2)).result.isOk = false := by decide +kernel
    exact Bool.noConfusion (refused.symm.trans failed)
  · rw [World.owner?, users.1]
    decide +kernel
  · rw [World.contents, orders.1]
    decide +kernel

end Overlays
end StatementCache
