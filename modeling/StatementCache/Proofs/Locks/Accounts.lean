import StatementCache.Proofs.Locks.Owners
import StatementCache.Proofs.Overlay.Guarded

/-! Overlays account for the keys that their thread comes to own. A lookup notes what it takes, and
the end of the unit of work gives back all that was noted, whatever fails on the way. -/
namespace StatementCache

open StatementCache.Action

namespace World

structure Lasting (I : World → Prop) : Prop where
  locking : ∀ w, I w → w.Locking
  frees : ∀ v w, I v → v.Frees w → I w

structure Rid (v : World) (serial : Nat) (k : CacheKey) (thread : Thread) (w : World) : Prop where
  frees : v.Frees w
  disowned : w.owner? serial k ≠ some thread

variable {I : World → Prop} {v : World} {host : Host} {ref : CacheRef}

theorem Locking.lasting_frees (h : v.Locking) : Lasting v.Frees :=
  ⟨fun _ since => h.of_shape since.shaped, fun _ _ since more => since.trans more⟩

theorem Locking.lasting_rid (h : v.Locking) (serial : Nat) (k : CacheKey) (thread : Thread) :
    Lasting (v.Rid serial k thread) where
  locking _ rid := h.of_shape rid.frees.shaped
  frees _ _ rid more :=
    ⟨rid.frees.trans more, fun own => rid.disowned (more.owner serial k thread own)⟩

namespace Lasting

theorem keeps_put (h : Lasting I) (k : CacheKey) (e : Entry) : Keeps I ((store host ref).put k e) :=
  fun w hw => h.frees _ _ hw (returns_put (h.locking w hw) host ref k e).frees

theorem keeps_remove (h : Lasting I) (k : CacheKey) : Keeps I ((store host ref).remove k) :=
  fun w hw => h.frees _ _ hw (returns_remove (h.locking w hw) host ref k).frees

theorem keeps_clear (h : Lasting I) : Keeps I (store host ref).clear :=
  fun w hw => h.frees _ _ hw (frees_clear (h.locking w hw) host ref)

end Lasting

variable (locking : v.Locking) (host : Host) (ref : CacheRef) (k : CacheKey)

include locking

theorem rid_put (e : Entry) :
    Meets v.Frees ((store host ref).put k e) fun _ => v.Rid ref.serial k host.thread := by
  intro w since
  have returned := returns_put (locking.of_shape since.shaped) host ref k e
  exact ⟨since.trans returned.frees, returned.disowned⟩

theorem rid_remove :
    Meets v.Frees ((store host ref).remove k) fun _ => v.Rid ref.serial k host.thread := by
  intro w since
  have returned := returns_remove (locking.of_shape since.shaped) host ref k
  exact ⟨since.trans returned.frees, returned.disowned⟩

end World

namespace Overlay

variable {I : World → Prop} {v : World} {host : Host} {ref : CacheRef} {o : Overlay} {k : CacheKey}

section

variable (lasting : World.Lasting I)

include lasting

theorem lasting_publish (host : Host) (ref : CacheRef) (o : Overlay) :
    Keeps I (o.publish (World.store host ref)) :=
  keeps_publish (P := fun _ _ => True) (fun k e _ => lasting.keeps_put k e) lasting.keeps_remove
    lasting.keeps_clear (fun _ _ _ => trivial) fun _ => trivial

theorem lasting_releaseMissed (host : Host) (ref : CacheRef) (o : Overlay) :
    Keeps I (o.releaseMissed (World.store host ref)) :=
  keeps_releaseMissed lasting.keeps_remove

end

section

variable (locking : v.Locking) (missed : k ∈ o.missed)

include locking missed

theorem rid_flush :
    Meets v.Frees (o.flush (World.store host ref)) fun _ => v.Rid ref.serial k host.thread := by
  obtain ⟨e, written⟩ : ∃ e, (k, e) ∈ o.writes := by
    cases buffered : o.pending.get? k with
    | some e => exact ⟨e, mem_writes_iff.mpr (.inl buffered)⟩
    | none => exact ⟨_, mem_writes_iff.mpr (.inr ⟨buffered, missed, rfl⟩)⟩
  have keeps {I : World → Prop} (lasting : World.Lasting I) :
      ∀ m ∈ o.writes.map fun p => (World.store host ref).put p.1 p.2, Keeps I m := by
    intro m hm
    obtain ⟨⟨k, e⟩, -, rfl⟩ := List.mem_map.mp hm
    exact lasting.keeps_put k e
  rw [flush_eq]
  exact Meets.all (List.mem_map_of_mem written) (World.rid_put locking host ref k e)
    (keeps locking.lasting_frees) (keeps (locking.lasting_rid ref.serial k host.thread))

theorem rid_releaseMissed :
    Meets v.Frees (o.releaseMissed (World.store host ref)) fun _ =>
      v.Rid ref.serial k host.thread := by
  have keeps {I : World → Prop} (lasting : World.Lasting I) :
      ∀ m ∈ o.missed.map fun k => discard ((World.store host ref).remove k), Keeps I m := by
    intro m hm
    obtain ⟨k, -, rfl⟩ := List.mem_map.mp hm
    exact (lasting.keeps_remove k).discard
  refine Meets.all (List.mem_map_of_mem missed) (fun w since => ?_) (keeps locking.lasting_frees)
    (keeps (locking.lasting_rid ref.serial k host.thread))
  rw [state_discard]
  exact World.rid_remove locking host ref k w since

theorem rid_publish :
    Meets v.Frees (o.publish (World.store host ref)) fun _ => v.Rid ref.serial k host.thread := by
  intro w since
  unfold publish
  split
  · have cleared : v.Frees ((World.store host ref).clear w).state :=
      locking.lasting_frees.keeps_clear w since
    simp only [bind_apply, attempt_apply]
    cases ((World.store host ref).clear w).result with
    | ok _ => exact rid_flush locking missed _ cleared
    | error e =>
      simp only [bind_apply, discard_apply, attempt_apply, Except.map, fail_apply]
      exact rid_releaseMissed locking missed _ cleared
  · exact rid_flush locking missed w since

end

end Overlay

theorem isNone_of_missed {found : Option Entry} (miss : missed (.ok found) = true) :
    (found.filter fun e => !e.isPlaceholder).isNone = true := by
  cases found with
  | none => rfl
  | some e =>
    have placeholder : e.isPlaceholder = true := by simpa [missed, isHit] using miss
    simp [Option.filter, placeholder]

namespace Overlays

variable {v w w' : World} {host : Host} {ref : CacheRef} {os os' : Overlays} {k : CacheKey}
  {thread : Thread} {looked : Nat → CacheKey → Prop}

abbrev Addressed (os : Overlays) : Prop := os.Holds fun _ _ _ => True

def Missed (os : Overlays) (serial : Nat) (k : CacheKey) : Prop :=
  ∃ o, os.bySerial.get? serial = some o ∧ k ∈ o.missed

theorem Missed.overlay (h : os.Missed ref.serial k) : k ∈ (os.overlay ref).missed := by
  obtain ⟨o, found, mem⟩ := h
  simp only [Overlays.overlay, found, Option.getD_some, mem]

theorem Missed.insert {serial : Nat} (h : os.Missed serial k) {o : Overlay}
    (kept : ∀ j ∈ (os.overlay ref).missed, j ∈ o.missed) :
    Missed ⟨os.bySerial.insert ref.serial o⟩ serial k := by
  by_cases same : ref.serial = serial
  · subst same
    exact ⟨o, by simp only [Table.get?_insert, if_true], kept k h.overlay⟩
  · obtain ⟨p, found, mem⟩ := h
    exact ⟨p, by simp only [Table.get?_insert, same, if_false, found], mem⟩

theorem missed_insert {serial : Nat} {o : Overlay} (mem : k ∈ o.missed) :
    Missed ⟨os.bySerial.insert serial o⟩ serial k :=
  ⟨o, by simp only [Table.get?_insert, if_true], mem⟩

/-- What has become of the overlays `os` over `v` while the unit of work went on. -/
structure Accounts (looked : Nat → CacheKey → Prop) (thread : Thread) (os : Overlays) (v : World)
    (s : Overlays × World) : Prop where
  addressed : s.1.Addressed
  shaped : s.2.shape = v.shape
  /-- What was noted stays noted. -/
  kept : ∀ serial k, os.Missed serial k → s.1.Missed serial k
  /-- A key that the thread has come to own is noted, and so is one that was looked up and that the
  thread owns. -/
  noted : ∀ serial k owner, s.2.owner? serial k = some owner →
    owner = thread ∧ s.1.Missed serial k ∨
      v.owner? serial k = some owner ∧ ¬(owner = thread ∧ looked serial k)

namespace Accounts

theorem refl (addressed : os.Addressed) (thread : Thread) (w : World) :
    Accounts (fun _ _ => False) thread os w (os, w) :=
  ⟨addressed, rfl, fun _ _ missed => missed, fun _ _ _ own => .inr ⟨own, fun h => h.2⟩⟩

theorem narrow {narrower : Nat → CacheKey → Prop} {s : Overlays × World}
    (h : Accounts looked thread os v s) (fewer : ∀ serial k, narrower serial k → looked serial k) :
    Accounts narrower thread os v s :=
  ⟨h.addressed, h.shaped, h.kept, fun serial k owner own =>
    (h.noted serial k owner own).imp_right fun old =>
      ⟨old.1, fun there => old.2 ⟨there.1, fewer serial k there.2⟩⟩⟩

theorem of_caches (same : w'.caches = w.caches) (h : Accounts looked thread os v (os', w)) :
    Accounts looked thread os v (os', w') where
  addressed := h.addressed
  shaped := (World.shape_eq_of_caches same).trans h.shaped
  kept := h.kept
  noted serial k owner own :=
    h.noted serial k owner ((World.owner?_of_caches same serial k).symm.trans own)

theorem insert (h : Accounts looked thread os v (os', w)) {o : Overlay}
    (target : o.target.serial = ref.serial)
    (kept : ∀ j ∈ (os'.overlay ref).missed, j ∈ o.missed) :
    Accounts looked thread os v (⟨os'.bySerial.insert ref.serial o⟩, w) where
  addressed := h.addressed.insert target fun _ _ _ => trivial
  shaped := h.shaped
  kept serial k missed := (h.kept serial k missed).insert kept
  noted serial k owner own :=
    (h.noted serial k owner own).imp_left fun new => ⟨new.1, new.2.insert kept⟩

theorem keeps_clear (ref : CacheRef) :
    Keeps (Accounts looked thread os v) (Overlays.clear ref) :=
  fun _ h => h.insert (h.addressed.overlay ref).1 fun _ mem => mem

theorem keeps_put (ref : CacheRef) (k : CacheKey) (e : Entry) :
    Keeps (Accounts looked thread os v) (Overlays.put ref k e) :=
  fun _ h => h.insert (h.addressed.overlay ref).1 fun _ mem => mem

theorem looked_up (h : Accounts (fun _ _ => False) thread os v (os', w)) {o : Overlay}
    (target : o.target.serial = ref.serial) (kept : ∀ j ∈ (os'.overlay ref).missed, j ∈ o.missed)
    (shaped : w'.shape = w.shape)
    (owners : ∀ serial j owner, w'.owner? serial j = some owner →
      w.owner? serial j = some owner ∧ ¬(serial = ref.serial ∧ j = k ∧ owner = thread) ∨
        (serial = ref.serial ∧ j = k ∧ owner = thread) ∧ k ∈ o.missed) :
    Accounts (fun serial j => serial = ref.serial ∧ j = k) thread os v
      (⟨os'.bySerial.insert ref.serial o⟩, w') := by
  have same := h.insert target kept
  refine ⟨same.addressed, shaped.trans h.shaped, same.kept, fun serial j owner own => ?_⟩
  obtain ⟨old, other⟩ | ⟨⟨rfl, rfl, rfl⟩, noted⟩ := owners serial j owner own
  · refine (same.noted serial j owner old).imp_right fun before => ⟨before.1, fun there => ?_⟩
    exact other ⟨there.2.1, there.2.2, there.1⟩
  · exact .inl ⟨rfl, missed_insert noted⟩

/-- A lookup notes the key when it finds no value, and only then its thread owns it. -/
theorem meets_get (locking : v.Locking) (host : Host) (ref : CacheRef) (k : CacheKey) :
    Meets (Accounts (fun _ _ => False) host.thread os v)
      (Overlays.get (World.find? host) ref k) fun _ =>
        Accounts (fun serial j => serial = ref.serial ∧ j = k) host.thread os v := by
  rintro ⟨os', w⟩ h
  have target := (h.addressed.overlay ref).1
  rw [Overlays.get, onOverlay_apply]
  generalize there : os'.overlay ref = o at target
  have kept : ∀ j ∈ (os'.overlay ref).missed, j ∈ o.missed := fun _ mem => there ▸ mem
  cases found : w.caches.get? o.target.serial with
  | none =>
    rw [Overlay.get_of_none (World.find?_of_none found host)]
    refine h.looked_up target kept rfl fun serial j owner own => .inl ⟨own, fun here => ?_⟩
    rw [here.1, ← target, World.owner?_of_absent found] at own
    cases own
  | some c =>
    rw [Overlay.get_of_some (World.find?_of_some found host)]
    have looked := World.owner?_get (locking.of_shape h.shaped) host o.target k
    rw [target] at looked
    rcases got : (World.store host o.target).get k w with ⟨e | entry, w'⟩ <;> rw [got] at looked
    · exact h.looked_up target kept looked.1 fun serial j owner own =>
        (looked.2 serial j owner own).imp_right fun new => by cases new.2
    · refine h.looked_up ?_ ?_ looked.1 fun serial j owner own => ?_
      · dsimp only
        split <;> simpa using target
      · intro j mem
        dsimp only
        split
        · exact Overlay.mem_missed_miss.mpr (.inr (kept j mem))
        · exact kept j mem
      · refine (looked.2 serial j owner own).imp_right fun new => ⟨new.1, ?_⟩
        dsimp only
        rw [if_pos (isNone_of_missed new.2)]
        exact Overlay.mem_missed_miss.mpr (.inl rfl)

end Accounts

structure GivenUp (thread : Thread) (os : Overlays) (v : World) (s : Overlays × World) : Prop where
  emptied : s.1 = .empty
  frees : v.Frees s.2
  /-- The thread owns nothing of what was noted. -/
  disowned : ∀ serial k, os.Missed serial k → s.2.owner? serial k ≠ some thread

theorem GivenUp.of_caches {v' : World} (h : GivenUp thread os v (os', w))
    (start : v.caches = v'.caches) (same : w'.caches = w.caches) :
    GivenUp thread os v' (os', w') where
  emptied := h.emptied
  frees := (World.Frees.of_caches start).trans (h.frees.trans (World.Frees.of_caches same))
  disowned serial k missed own :=
    h.disowned serial k missed ((World.owner?_of_caches same serial k).symm.trans own)

theorem givenUp_settle {work : Overlay → Store World → Action World Unit} (locking : w.Locking)
    (addressed : os.Addressed)
    (lasting : ∀ {I : World → Prop} o, World.Lasting I →
      Keeps I (work o (World.store host o.target)))
    (rid : ∀ o k, k ∈ o.missed →
      Meets w.Frees (work o (World.store host o.target)) fun _ =>
        w.Rid o.target.serial k host.thread) :
    GivenUp host.thread os w (settle (Overlay.settle (World.find? host) work) (os, w)).state := by
  let ending (o : Overlay) : Action World Unit := fun u =>
    ⟨(Overlay.settle (World.find? host) work (o, u)).result,
      (Overlay.settle (World.find? host) work (o, u)).state.2⟩
  have keeps {I : World → Prop} (h : World.Lasting I) :
      ∀ m ∈ os.bySerial.values.map ending, Keeps I m := by
    intro m hm
    obtain ⟨o, -, rfl⟩ := List.mem_map.mp hm
    intro u hu
    cases found : u.caches.get? o.target.serial with
    | none => simpa only [ending, Overlay.settle, World.find?_of_none found] using hu
    | some c =>
      simp only [ending, Overlay.settle, World.find?_of_some found]
      exact lasting o h u hu
  refine ⟨rfl, ?_, ?_⟩
  · exact Keeps.all (keeps locking.lasting_frees) w (.refl w)
  · rintro serial k ⟨o, filed, mem⟩
    have value : o ∈ os.bySerial.values :=
      List.mem_map.mpr ⟨(serial, o), (Table.get?_eq_some_iff ..).mp filed, rfl⟩
    have target := (addressed serial o filed).1
    refine World.Rid.disowned (v := w) ?_
    refine Meets.all (List.mem_map_of_mem value) ?_ (keeps locking.lasting_frees)
      (keeps (locking.lasting_rid serial k host.thread)) w (.refl w)
    intro u since
    subst target
    cases found : u.caches.get? o.target.serial with
    | none =>
      simp only [ending, Overlay.settle, World.find?_of_none found]
      exact ⟨since, by simp [World.owner?_of_absent found]⟩
    | some c =>
      simp only [ending, Overlay.settle, World.find?_of_some found]
      exact rid o k mem u since

theorem givenUp_commit (locking : w.Locking) (addressed : os.Addressed) (host : Host) :
    GivenUp host.thread os w (commit (World.find? host) (os, w)).state :=
  givenUp_settle locking addressed
    (fun o lasting => Overlay.lasting_publish lasting host o.target o)
    fun _ _ missed => Overlay.rid_publish locking missed

theorem givenUp_rollback (locking : w.Locking) (addressed : os.Addressed) (host : Host) :
    GivenUp host.thread os w (rollback (World.find? host) (os, w)).state :=
  givenUp_settle locking addressed
    (fun o lasting => Overlay.lasting_releaseMissed lasting host o.target o)
    fun _ _ missed => Overlay.rid_releaseMissed locking missed

end Overlays
end StatementCache
