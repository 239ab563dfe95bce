import StatementCache.Overlay.Set
import StatementCache.Proofs.Contents.Growth

/-! Buffered entries on their way to the shared caches. What an overlay buffers has one property,
what is shared another; a commit needs the first to imply the second, every other operation keeps
both as they are. -/
namespace StatementCache

open StatementCache.Action Store

namespace Overlay

variable {σ : Type} {I : σ → Prop} {P : CacheKey → Entry → Prop} {store : Store σ} {o : Overlay}

def Holds (P : CacheKey → Entry → Prop) (o : Overlay) : Prop :=
  ∀ k e, o.pending.get? k = some e → P k e

theorem holds_fresh (ref : CacheRef) : (fresh ref).Holds P := fun _ _ h => by cases h

theorem Holds.put (h : o.Holds P) {k : CacheKey} {e : Entry} (he : P k e) :
    (o.put k e).Holds P := by
  intro j f hf
  simp only [Overlay.put, Table.get?_insert] at hf
  split at hf
  · rename_i same
    cases hf
    exact same ▸ he
  · exact h j f hf

theorem holds_clear : o.clear.Holds P := fun _ _ h => by cases h

theorem Holds.miss (h : o.Holds P) (k : CacheKey) : (o.miss k).Holds P := by
  unfold Overlay.miss
  split
  · exact h
  · exact h

theorem fst_get (directory : Directory σ) (k : CacheKey) (o : Overlay) (s : σ) :
    let looked := get directory k (o, s)
    looked.state.1 = o ∨ looked.state.1 = o.miss k := by
  cases found : directory o.target s with
  | none =>
    rw [get_of_none found]
    exact .inl rfl
  | some store =>
    rw [get_of_some found]
    rcases store.get k s with ⟨e | entry, s'⟩
    · exact .inl rfl
    · dsimp only
      split
      · exact .inr rfl
      · exact .inl rfl

theorem keeps_get {directory : Directory σ} {k : CacheKey} {s : σ}
    (h : ∀ store, directory o.target s = some store → Keeps I (store.get k)) (hs : I s) :
    I (get directory k (o, s)).state.2 := by
  cases found : directory o.target s with
  | none =>
    rw [get_of_none found]
    exact hs
  | some store =>
    have kept := h store found s hs
    rw [get_of_some found]
    rcases looked : store.get k s with ⟨e | entry, s'⟩ <;> rw [looked] at kept
    · exact kept
    · exact kept

def writes (o : Overlay) : List (CacheKey × Entry) :=
  o.pending.entries ++
    (o.missed.filter fun k => !o.pending.contains k).map fun k => (k, Entry.placeholder)

theorem mem_writes_iff {k : CacheKey} {e : Entry} :
    (k, e) ∈ o.writes ↔ o.pending.get? k = some e ∨
      o.pending.get? k = none ∧ k ∈ o.missed ∧ e = .placeholder := by
  rw [writes, List.mem_append, Table.get?_eq_some_iff]
  apply or_congr_right
  constructor
  · intro mem
    obtain ⟨j, absent, same⟩ := List.mem_map.mp mem
    cases same
    rw [List.mem_filter] at absent
    refine ⟨?_, absent.1, rfl⟩
    simpa [Table.contains] using absent.2
  · rintro ⟨absent, missed, rfl⟩
    refine List.mem_map.mpr ⟨k, List.mem_filter.mpr ⟨missed, ?_⟩, rfl⟩
    simp [Table.contains, absent]

theorem flush_eq (o : Overlay) (store : Store σ) :
    o.flush store = Action.all (o.writes.map fun p => store.put p.1 p.2) := by
  simp only [flush, writes, List.map_append, List.map_map]
  rfl

theorem keeps_flush (put : ∀ k e, P k e → Keeps I (store.put k e)) (buffered : o.Holds P)
    (missing : ∀ k, P k .placeholder) : Keeps I (o.flush store) := by
  rw [flush_eq]
  refine Keeps.all fun m hm => ?_
  obtain ⟨⟨k, e⟩, mem, rfl⟩ := List.mem_map.mp hm
  rcases mem_writes_iff.mp mem with pending | ⟨-, -, rfl⟩
  · exact put k e (buffered k e pending)
  · exact put k .placeholder (missing k)

theorem keeps_releaseMissed (remove : ∀ k, Keeps I (store.remove k)) :
    Keeps I (o.releaseMissed store) := by
  refine Keeps.all fun m hm => ?_
  obtain ⟨k, -, rfl⟩ := List.mem_map.mp hm
  exact Keeps.discard (remove k)

theorem keeps_publish (put : ∀ k e, P k e → Keeps I (store.put k e))
    (remove : ∀ k, Keeps I (store.remove k)) (clear : Keeps I store.clear) (buffered : o.Holds P)
    (missing : ∀ k, P k .placeholder) : Keeps I (o.publish store) := by
  unfold publish
  split
  · refine (Keeps.attempt clear).bind fun cleared => ?_
    cases cleared with
    | ok _ => exact keeps_flush put buffered missing
    | error e =>
      exact (Keeps.discard (Keeps.attempt (keeps_releaseMissed remove))).bind fun _ => Keeps.fail e
  · exact keeps_flush put buffered missing

end Overlay

namespace Overlays

variable {B P : Nat → CacheKey → Entry → Prop} {v : World} {host : Host}

def Holds (B : Nat → CacheKey → Entry → Prop) (os : Overlays) : Prop :=
  ∀ serial o, os.bySerial.get? serial = some o → o.target.serial = serial ∧ o.Holds (B serial)

def overlay (os : Overlays) (ref : CacheRef) : Overlay :=
  (os.bySerial.get? ref.serial).getD (.fresh ref)

theorem onOverlay_apply {σ α : Type} (ref : CacheRef) (m : Action (Overlay × σ) α) (os : Overlays)
    (s : σ) :
    onOverlay ref m (os, s) =
      let r := m (os.overlay ref, s)
      ⟨r.result, (⟨os.bySerial.insert ref.serial r.state.1⟩, r.state.2)⟩ := rfl

theorem holds_empty : empty.Holds B := fun _ _ h => by cases h

theorem Holds.overlay {os : Overlays} (h : os.Holds B) (ref : CacheRef) :
    (os.overlay ref).target.serial = ref.serial ∧ (os.overlay ref).Holds (B ref.serial) := by
  unfold Overlays.overlay
  cases found : os.bySerial.get? ref.serial with
  | none => exact ⟨rfl, Overlay.holds_fresh ref⟩
  | some o => exact h ref.serial o found

theorem Holds.insert {os : Overlays} (h : os.Holds B) {serial : Nat} {o : Overlay}
    (target : o.target.serial = serial) (ho : o.Holds (B serial)) :
    Holds B ⟨os.bySerial.insert serial o⟩ := by
  intro j p hp
  simp only [Table.get?_insert] at hp
  split at hp
  · rename_i same
    cases hp
    exact same ▸ ⟨target, ho⟩
  · exact h j p hp

theorem Holds.mono {B' : Nat → CacheKey → Entry → Prop} {os : Overlays} (h : os.Holds B)
    (weaker : ∀ serial k e, B serial k e → B' serial k e) : os.Holds B' :=
  fun serial o found =>
    ⟨(h serial o found).1, fun k e he => weaker serial k e ((h serial o found).2 k e he)⟩

def Guarded (B P : Nat → CacheKey → Entry → Prop) (v : World) (s : Overlays × World) : Prop :=
  s.1.Holds B ∧ World.Stocked P v s.2

theorem keeps_clear (ref : CacheRef) : Keeps (Guarded B P v) (clear ref) :=
  fun _ hs => ⟨hs.1.insert (hs.1.overlay ref).1 Overlay.holds_clear, hs.2⟩

theorem keeps_put {ref : CacheRef} {k : CacheKey} {e : Entry} (he : B ref.serial k e) :
    Keeps (Guarded B P v) (put ref k e) :=
  fun _ hs => ⟨hs.1.insert (hs.1.overlay ref).1 ((hs.1.overlay ref).2.put he), hs.2⟩

theorem guards_find? {ref : CacheRef} {w : World} {store : Store World}
    (h : World.find? host ref w = some store) :
    store.Guards (World.Stocked P v) (P ref.serial) :=
  World.eq_store_of_find? h ▸ World.guards_store host ref

theorem meets_get (ref : CacheRef) (k : CacheKey) :
    Meets (Guarded B P v) (get (World.find? host) ref k) fun r s =>
      Guarded B P v s ∧ ∀ e, r = .ok (some e) → P ref.serial k e := by
  rintro ⟨os, w⟩ ⟨hos, hw⟩
  obtain ⟨target, ho⟩ := hos.overlay ref
  rw [get, onOverlay_apply]
  generalize os.overlay ref = o at target ho
  cases hd : World.find? host o.target w with
  | none =>
    rw [Overlay.get_of_none hd]
    exact ⟨⟨hos.insert target ho, hw⟩, fun e he => by cases he⟩
  | some store =>
    rw [Overlay.get_of_some hd]
    have lookup := (guards_find? hd).get k w hw
    rcases hg : store.get k w with ⟨e | found, w'⟩ <;> rw [hg] at lookup
    · exact ⟨⟨hos.insert target ho, lookup.1⟩, fun e he => by cases he⟩
    · refine ⟨⟨hos.insert ?_ ?_, lookup.1⟩, fun e he => ?_⟩
      · dsimp only
        split <;> simpa using target
      · dsimp only
        split
        · exact ho.miss k
        · exact ho
      · have shown : found = some e := by
          cases found with
          | none => simp at he
          | some f =>
            simp only [Except.ok.injEq, Option.filter] at he
            split at he
            · cases he
            · split at he
              · exact he
              · cases he
        exact target ▸ lookup.2 e (congrArg Except.ok shown)

theorem state_settle (work : Action (Overlay × World) Unit) (os : Overlays) (w : World) :
    (settle work (os, w)).state.2 =
      os.bySerial.values.foldl (fun w o => (work (o, w)).state.2) w :=
  (state_all _ w).trans List.foldl_map

theorem foldl_keeps {I : World → Prop} {step : World → Overlay → World} {overlays : List Overlay}
    (h : ∀ o ∈ overlays, ∀ w, I w → I (step w o)) {w : World} (hw : I w) :
    I (overlays.foldl step w) := by
  induction overlays generalizing w with
  | nil => exact hw
  | cons o overlays ih =>
    rw [List.foldl_cons]
    exact ih (fun p hp => h p (List.mem_cons_of_mem o hp)) (h o List.mem_cons_self w hw)

theorem keeps_settle {I : World → Prop} {work : Action (Overlay × World) Unit} {os : Overlays}
    (h : ∀ o ∈ os.bySerial.values, ∀ w, I w → I (work (o, w)).state.2) {w : World} (hw : I w) :
    I (settle work (os, w)).state.2 := by
  rw [state_settle]
  exact foldl_keeps h hw

theorem Holds.values {os : Overlays} (h : os.Holds B) {o : Overlay} (ho : o ∈ os.bySerial.values) :
    o.Holds (B o.target.serial) := by
  obtain ⟨⟨serial, p⟩, hp, rfl⟩ := List.mem_map.mp ho
  obtain ⟨target, hold⟩ := h serial p ((Table.get?_eq_some_iff ..).mpr hp)
  exact target ▸ hold

theorem keeps_commit_overlay {o : Overlay} (buffered : o.Holds (P o.target.serial))
    (missing : ∀ k, P o.target.serial k .placeholder) {w : World} (hw : World.Stocked P v w) :
    World.Stocked P v (Overlay.commit (World.find? host) (o, w)).state.2 := by
  simp only [Overlay.commit, Overlay.settle]
  split
  · exact hw
  · rename_i store found
    have guards : store.Guards (World.Stocked P v) (P o.target.serial) := guards_find? found
    exact Overlay.keeps_publish guards.put guards.keeps_remove guards.clear buffered missing w hw

theorem stocked_commit {os : Overlays} {w : World} (hos : os.Holds P) (hw : World.Stocked P v w)
    (missing : ∀ serial k, P serial k .placeholder) :
    World.Stocked P v (commit (World.find? host) (os, w)).state.2 :=
  keeps_settle (fun _ ho _ hw => keeps_commit_overlay (hos.values ho) (missing _) hw) hw

theorem stocked_commit_clearing {P' : Nat → CacheKey → Entry → Prop} {o : Overlay}
    (clears : o.clearOnCommit = true) (buffered : o.Holds (P' o.target.serial))
    (missing : ∀ k, P' o.target.serial k .placeholder)
    (others : ∀ serial, serial ≠ o.target.serial → P' serial = P serial)
    {w : World} (hw : World.Stocked P v w)
    (copyable : ∀ c, w.caches.get? o.target.serial = some c → c.chain.copies = true →
      Layer.Copyable (P' o.target.serial)) :
    World.Stocked P' v (Overlay.commit (World.find? host) (o, w)).state.2 := by
  simp only [Overlay.commit, Overlay.settle]
  cases found : w.caches.get? o.target.serial with
  | none =>
    rw [World.find?_of_none found]
    refine ⟨fun serial c there => ?_, hw.log_eq, hw.shaped⟩
    have other : serial ≠ o.target.serial := by
      rintro rfl
      rw [found] at there
      cases there
    rw [others serial other]
    exact hw.holds serial c there
  | some c =>
    have succeeds := World.clear_succeeds host hw.holds found
    have cleared := World.stocked_clear host others hw copyable succeeds
    rw [World.find?_of_some found]
    simp only [Overlay.publish, clears, if_true, bind_apply, attempt_apply, succeeds]
    exact Overlay.keeps_flush (World.guards_store host o.target).put buffered missing _ cleared

/-- A unit of work that clears a cache replaces what is known of the cache's entries by what is
known of its own. -/
theorem stocked_commit_replacing {P' : Nat → CacheKey → Entry → Prop} {os : Overlays} {o : Overlay}
    {serial : Nat} (found : os.bySerial.get? serial = some o) (clears : o.clearOnCommit = true)
    (hos : os.Holds P') (missing : ∀ serial k, P' serial k .placeholder)
    (others : ∀ j, j ≠ serial → P' j = P j) {w : World} (hw : World.Stocked P v w)
    (copyable : ∀ c, v.shape serial = some c → c.copies = true → Layer.Copyable (P' serial)) :
    World.Stocked P' v (commit (World.find? host) (os, w)).state.2 := by
  have target := (hos serial o found).1
  have entry := (Table.get?_eq_some_iff ..).mp found
  obtain ⟨before, after, split⟩ := List.append_of_mem entry
  have distinct := os.bySerial.distinct
  rw [split, List.map_append, List.map_cons, List.nodup_append] at distinct
  obtain ⟨-, -, apart⟩ := distinct
  -- an overlay of another cache, before the clear
  have early : ∀ p ∈ before.map (·.2), ∀ w, World.Stocked P v w →
      World.Stocked P v (Overlay.commit (World.find? host) (p, w)).state.2 := by
    intro p mem w hw
    obtain ⟨⟨j, p⟩, there, rfl⟩ := List.mem_map.mp mem
    have other : j ≠ serial :=
      apart j (List.mem_map_of_mem there) serial List.mem_cons_self
    have filed : os.bySerial.get? j = some p := by
      refine (Table.get?_eq_some_iff ..).mpr ?_
      rw [split]
      exact List.mem_append_left _ there
    obtain ⟨same, buffered⟩ := hos j p filed
    rw [others j other, ← same] at buffered
    refine keeps_commit_overlay buffered (fun k => ?_) hw
    rw [same, ← others j other]
    exact missing j k
  have late : ∀ p ∈ after.map (·.2), ∀ w, World.Stocked P' v w →
      World.Stocked P' v (Overlay.commit (World.find? host) (p, w)).state.2 := by
    intro p mem w hw
    have value : p ∈ os.bySerial.values := by
      rw [Table.values, split, List.map_append, List.map_cons]
      exact List.mem_append_right _ (List.mem_cons_of_mem _ mem)
    exact keeps_commit_overlay (hos.values value) (missing _) hw
  rw [commit, state_settle, Table.values, split, List.map_append, List.map_cons, List.foldl_append,
    List.foldl_cons]
  refine foldl_keeps late ?_
  have kept := foldl_keeps early hw
  refine stocked_commit_clearing clears (target ▸ (hos serial o found).2) (missing _)
    (fun j other => others j (target ▸ other)) kept fun c there copies => ?_
  rw [target] at there ⊢
  refine copyable c.chain ?_ copies
  rw [← kept.shaped]
  simp only [World.shape, there, Option.map_some]

theorem stocked_rollback (os : Overlays) {w : World} (hw : World.Stocked P v w) :
    World.Stocked P v (rollback (World.find? host) (os, w)).state.2 := by
  refine keeps_settle (fun o _ w hw => ?_) hw
  simp only [Overlay.rollback, Overlay.settle]
  split
  · exact hw
  · rename_i store found
    have guards : store.Guards (World.Stocked P v) (P o.target.serial) := guards_find? found
    exact Overlay.keeps_releaseMissed guards.keeps_remove w hw

section

variable {I : World → Prop}

/-! Where nothing is asked of the entries, the overlays keep what every cache keeps. -/

theorem keeping_find? (h : ∀ ref, (World.store host ref).Keeping I) {ref : CacheRef} {w : World}
    {store : Store World} (found : World.find? host ref w = some store) : store.Keeping I :=
  World.eq_store_of_find? found ▸ h ref

theorem keeps_world_get (h : ∀ ref k, Keeps I ((World.store host ref).get k)) (ref : CacheRef)
    (k : CacheKey) : Keeps (fun s => I s.2) (get (World.find? host) ref k) := by
  rintro ⟨os, w⟩ hw
  exact Overlay.keeps_get (fun store found => World.eq_store_of_find? found ▸ h _ k) hw

theorem keeps_world_settle {work : Overlay → Store World → Action World Unit}
    (h : ∀ ref, (World.store host ref).Keeping I)
    (works : ∀ o store, store.Keeping I → Keeps I (work o store)) :
    Keeps (fun s => I s.2) (settle (Overlay.settle (World.find? host) work)) := by
  rintro ⟨os, w⟩ hw
  refine keeps_settle (fun o _ w hw => ?_) hw
  simp only [Overlay.settle]
  split
  · exact hw
  · rename_i store found
    exact works o store (keeping_find? h found) w hw

theorem keeps_world_commit (h : ∀ ref, (World.store host ref).Keeping I) :
    Keeps (fun s => I s.2) (commit (World.find? host)) :=
  keeps_world_settle h fun _ _ kept =>
    Overlay.keeps_publish kept.put kept.keeps_remove kept.clear (fun _ _ _ => trivial)
      fun _ => trivial

theorem keeps_world_rollback (h : ∀ ref, (World.store host ref).Keeping I) :
    Keeps (fun s => I s.2) (rollback (World.find? host)) :=
  keeps_world_settle h fun _ _ kept => Overlay.keeps_releaseMissed kept.keeps_remove

end

end Overlays
end StatementCache
