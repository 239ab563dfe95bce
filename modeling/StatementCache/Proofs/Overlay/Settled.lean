import StatementCache.Proofs.Contents.Maps
import StatementCache.Proofs.Overlay.Guarded

/-! The end of a unit of work over plain maps, entry by entry. -/
namespace StatementCache

open StatementCache.Action Function World

theorem foldl_update_of_not_mem {κ ν : Type} [DecidableEq κ] {items : List (κ × ν)} {k : κ}
    (h : k ∉ items.map (·.1)) (old : κ → Option ν) :
    items.foldl (fun (old : κ → Option ν) p => update old p.1 (some p.2)) old k = old k := by
  induction items generalizing old with
  | nil => rfl
  | cons p items ih =>
    rw [List.map_cons, List.mem_cons, not_or] at h
    rw [List.foldl_cons, ih h.2, update_of_ne h.1]

theorem foldl_update_of_mem {κ ν : Type} [DecidableEq κ] {items : List (κ × ν)} {k : κ} {v : ν}
    (mem : (k, v) ∈ items) (unique : ∀ v', (k, v') ∈ items → v' = v) (old : κ → Option ν) :
    items.foldl (fun (old : κ → Option ν) p => update old p.1 (some p.2)) old k = some v := by
  induction items generalizing old with
  | nil => cases mem
  | cons p items ih =>
    rw [List.foldl_cons]
    by_cases later : k ∈ items.map (·.1)
    · obtain ⟨⟨k', v'⟩, there, rfl⟩ := List.mem_map.mp later
      have same : v' = v := unique v' (List.mem_cons_of_mem p there)
      subst same
      exact ih there (fun v'' h => unique v'' (List.mem_cons_of_mem p h)) _
    · rw [foldl_update_of_not_mem later]
      rcases List.mem_cons.mp mem with same | there
      · subst same
        exact update_self ..
      · exact absurd (List.mem_map_of_mem there) later

theorem foldl_erase {κ ν : Type} [DecidableEq κ] (items : List κ) (k : κ) (old : κ → Option ν) :
    items.foldl (fun (old : κ → Option ν) j => update old j none) old k =
      if k ∈ items then none else old k := by
  induction items generalizing old with
  | nil => rfl
  | cons j items ih =>
    rw [List.foldl_cons, ih]
    by_cases later : k ∈ items
    · rw [if_pos later, if_pos (List.mem_cons_of_mem j later)]
    · by_cases same : k = j
      · subst same
        rw [if_neg later, if_pos List.mem_cons_self, update_self]
      · simp only [List.mem_cons, later, same, or_self, if_false, update_of_ne same]

namespace Overlay

variable {o : Overlay} {ref : CacheRef} {c : Chain} {id : String} {host : Host} {w : World}

/-- What the writes of a commit leave under a key: the value that was buffered last, or a
placeholder where a lookup missed. -/
def written (o : Overlay) (old : CacheKey → Option Entry) (k : CacheKey) : Option Entry :=
  match o.pending.get? k with
  | some e => some e
  | none => if k ∈ o.missed then some .placeholder else old k

def published (o : Overlay) (old : CacheKey → Option Entry) : CacheKey → Option Entry :=
  o.written (if o.clearOnCommit then fun _ => none else old)

def released (o : Overlay) (old : CacheKey → Option Entry) (k : CacheKey) : Option Entry :=
  if k ∈ o.missed then none else old k

theorem written_eq_foldl (o : Overlay) (old : CacheKey → Option Entry) :
    o.written old =
      o.writes.foldl (fun (old : CacheKey → Option Entry) p => update old p.1 (some p.2)) old := by
  funext k
  unfold written
  cases found : o.pending.get? k with
  | some e =>
    refine (foldl_update_of_mem (mem_writes_iff.mpr (.inl found)) (fun e' mem => ?_) old).symm
    rcases mem_writes_iff.mp mem with buffered | ⟨absent, -⟩
    · exact Option.some.inj (buffered.symm.trans found)
    · cases absent.symm.trans found
  | none =>
    dsimp only
    split
    · rename_i missed
      have mem : (k, .placeholder) ∈ o.writes := mem_writes_iff.mpr (.inr ⟨found, missed, rfl⟩)
      refine (foldl_update_of_mem mem (fun e mem => ?_) old).symm
      rcases mem_writes_iff.mp mem with buffered | ⟨-, -, same⟩
      · cases buffered.symm.trans found
      · exact same
    · rename_i known
      refine (foldl_update_of_not_mem (fun mem => ?_) old).symm
      obtain ⟨⟨j, e⟩, there, rfl⟩ := List.mem_map.mp mem
      rcases mem_writes_iff.mp there with buffered | ⟨-, missed, -⟩
      · cases buffered.symm.trans found
      · exact known missed

theorem changes_flush (host : Host) (o : Overlay) :
    Changes ref (.base id) (o.flush (store host ref)) o.written := by
  rw [flush_eq, funext (written_eq_foldl o)]
  exact Changes.all (fun p => changes_put host p.1 p.2) o.writes

theorem changes_releaseMissed (host : Host) (direct : c.Direct) (o : Overlay) :
    Changes ref c (o.releaseMissed (store host ref)) o.released := by
  have final : o.released =
      fun old => o.missed.foldl (fun (old : CacheKey → Option Entry) k => update old k none) old := by
    funext old k
    rw [foldl_erase, released]
  rw [final]
  exact Changes.all (fun k => (changes_remove host direct k).discard) o.missed

theorem changes_publish (host : Host) (o : Overlay) :
    Changes ref (.base id) (o.publish (store host ref)) o.published := by
  unfold publish published
  cases o.clearOnCommit with
  | false => exact changes_flush host o
  | true =>
    intro w shaped
    obtain ⟨⟨_, cleared⟩, became⟩ := changes_clear host w shaped
    have shaped' : ((store host ref).clear w).state.shape ref.serial = some (.base id) := by
      rw [became.shape_eq, shaped]
    obtain ⟨flushed, became'⟩ := changes_flush host o _ shaped'
    rw [became.contents_eq, update_idem, update_self] at became'
    simp only [if_true, bind_apply, attempt_apply, cleared]
    exact ⟨flushed, became.trans became'⟩

end Overlay

namespace Overlays

variable {w : World} {host : Host}

/-- A lookup sees a value of the cache unless a clear hides it, and notes that there is none. -/
theorem get_map {os : Overlays} {ref : CacheRef} {id : String}
    (shaped : w.shape (os.overlay ref).target.serial = some (.base id)) (host : Host)
    (k : CacheKey) :
    let o := os.overlay ref
    let found := (w.contents o.target.serial k).filter fun e => !e.isPlaceholder
    ∃ w', w.Becomes w.contents w' ∧
      get (World.find? host) ref k (os, w) = ⟨.ok (if o.clearOnCommit then none else found),
        (⟨os.bySerial.insert ref.serial (if found.isNone then o.miss k else o)⟩, w')⟩ := by
  obtain ⟨entries, there, -⟩ := found_of_shape shaped
  obtain ⟨got, kept⟩ := World.get_direct host (Chain.direct_base id) shaped k
  refine ⟨_, kept, ?_⟩
  rw [get, onOverlay_apply, Overlay.get_of_some (World.find?_of_some there host)]
  rcases done : (World.store host (os.overlay ref).target).get k w with ⟨result, w'⟩
  rw [done] at got
  dsimp only at got
  subst got
  rfl

theorem becomes_get (mapped : w.Mapped) (host : Host) (os : Overlays) (ref : CacheRef)
    (k : CacheKey) : w.Becomes w.contents (get (World.find? host) ref k (os, w)).state.2 := by
  cases shaped : w.shape (os.overlay ref).target.serial with
  | none =>
    have gone : w.caches.get? (os.overlay ref).target.serial = none := by
      simpa only [shape, Option.map_eq_none_iff] using shaped
    rw [get, onOverlay_apply, Overlay.get_of_none (World.find?_of_none gone host)]
    exact Becomes.refl w
  | some c =>
    obtain ⟨id, rfl⟩ := mapped _ c shaped
    obtain ⟨w', kept, got⟩ := get_map shaped host k
    rw [got]
    exact kept

def Settles (work : Action (Overlay × World) Unit)
    (change : Overlay → (CacheKey → Option Entry) → CacheKey → Option Entry) : Prop :=
  ∀ (o : Overlay) (w : World), w.Mapped →
    w.Becomes (update w.contents o.target.serial
        (if (w.shape o.target.serial).isSome then change o (w.contents o.target.serial)
          else w.contents o.target.serial))
      (work (o, w)).state.2

def settled (change : Overlay → (CacheKey → Option Entry) → CacheKey → Option Entry)
    (overlays : List (Nat × Overlay)) (w : World) : Contents := fun serial =>
  match Table.find serial overlays with
  | some o => if (w.shape serial).isSome then change o (w.contents serial) else w.contents serial
  | none => w.contents serial

theorem settles_settle
    {work : Overlay → Store World → Action World Unit}
    {change : Overlay → (CacheKey → Option Entry) → CacheKey → Option Entry}
    (changes : ∀ (o : Overlay) ref id,
      Changes ref (.base id) (work o (World.store host ref)) (change o)) :
    Settles (Overlay.settle (World.find? host) work) change := by
  intro o w mapped
  cases shaped : w.shape o.target.serial with
  | none =>
    have gone : w.caches.get? o.target.serial = none := by
      simpa only [shape, Option.map_eq_none_iff] using shaped
    simp only [Overlay.settle, World.find?_of_none gone, Option.isSome_none, Bool.false_eq_true,
      if_false, update_eq_self]
    exact Becomes.refl w
  | some c =>
    obtain ⟨id, rfl⟩ := mapped _ c shaped
    obtain ⟨entries, found, -⟩ := found_of_shape shaped
    simp only [Overlay.settle, World.find?_of_some found, Option.isSome_some, if_true]
    exact (changes o o.target id w shaped).2

theorem foldl_settled {work : Action (Overlay × World) Unit}
    {change : Overlay → (CacheKey → Option Entry) → CacheKey → Option Entry}
    (settles : Settles work change) {overlays : List (Nat × Overlay)}
    (distinct : (overlays.map (·.1)).Nodup)
    (filed : ∀ p ∈ overlays, p.2.target.serial = p.1) (mapped : w.Mapped) :
    w.Becomes (settled change overlays w)
      (overlays.foldl (fun w p => (work (p.2, w)).state.2) w) := by
  induction overlays generalizing w with
  | nil => exact Becomes.refl w
  | cons p overlays ih =>
    obtain ⟨serial, o⟩ := p
    rw [List.map_cons, List.nodup_cons] at distinct
    have target : o.target.serial = serial := filed (serial, o) List.mem_cons_self
    have became := settles o w mapped
    have became' := ih distinct.2 (fun p mem => filed p (List.mem_cons_of_mem _ mem))
      (became.mapped mapped)
    rw [target] at became
    have same : settled change overlays (work (o, w)).state.2 =
        settled change ((serial, o) :: overlays) w := by
      funext j
      unfold settled
      rw [became.shape_eq, became.contents_eq, Table.find]
      by_cases eq : serial = j
      · subst eq
        rw [Table.find_eq_none_iff.mpr distinct.1, if_pos rfl, update_self]
      · rw [if_neg eq, update_of_ne (Ne.symm eq)]
    rw [same] at became'
    exact became.trans became'

theorem becomes_settle {B : Nat → CacheKey → Entry → Prop} {work : Action (Overlay × World) Unit}
    {change : Overlay → (CacheKey → Option Entry) → CacheKey → Option Entry}
    (settles : Settles work change) {os : Overlays} (hos : os.Holds B) (mapped : w.Mapped) :
    w.Becomes (settled change os.bySerial.entries w) (settle work (os, w)).state.2 := by
  rw [state_settle, Table.values, List.foldl_map]
  refine foldl_settled settles os.bySerial.distinct (fun p mem => ?_) mapped
  exact (hos p.1 p.2 ((Table.get?_eq_some_iff ..).mpr mem)).1

theorem becomes_commit {B : Nat → CacheKey → Entry → Prop} {os : Overlays} (hos : os.Holds B)
    (mapped : w.Mapped) (host : Host) :
    w.Becomes (settled Overlay.published os.bySerial.entries w)
      (commit (World.find? host) (os, w)).state.2 :=
  becomes_settle (settles_settle fun o _ _ => Overlay.changes_publish host o) hos mapped

theorem becomes_rollback {B : Nat → CacheKey → Entry → Prop} {os : Overlays} (hos : os.Holds B)
    (mapped : w.Mapped) (host : Host) :
    w.Becomes (settled Overlay.released os.bySerial.entries w)
      (rollback (World.find? host) (os, w)).state.2 :=
  becomes_settle (settles_settle fun o _ id =>
    Overlay.changes_releaseMissed host (Chain.direct_base id) o) hos mapped

end Overlays
end StatementCache
