import StatementCache.World
import StatementCache.Proofs.Contents.Chain

/-! The entries of all shared caches. An operation of one cache keeps what is known of the entries
of every cache, changes the layers of none, and reports nothing. -/
namespace StatementCache.World

open StatementCache.Action Store

variable {α : Type} {P P' : Nat → CacheKey → Entry → Prop} {v : World} {ref : CacheRef}

def Holds (P : Nat → CacheKey → Entry → Prop) (w : World) : Prop :=
  ∀ serial c, w.caches.get? serial = some c → c.Holds (P serial)

def BuiltIn (w : World) : Prop := ∀ serial c, w.caches.get? serial = some c → c.chain.BuiltIn

def shape (w : World) (serial : Nat) : Option Chain := (w.caches.get? serial).map Cache.chain

theorem shape_eq_of_caches {w w' : World} (same : w'.caches = w.caches) : w'.shape = w.shape := by
  unfold shape
  rw [same]

structure Onward (v w : World) : Prop where
  grown : v.log <+: w.log
  shaped : w.shape = v.shape

theorem Onward.refl (w : World) : w.Onward w := ⟨List.prefix_refl _, rfl⟩

theorem Onward.trans {u v w : World} (first : u.Onward v) (second : v.Onward w) : u.Onward w :=
  ⟨first.grown.trans second.grown, second.shaped.trans first.shaped⟩

structure Stocked (P : Nat → CacheKey → Entry → Prop) (v w : World) : Prop where
  holds : w.Holds P
  log_eq : w.log = v.log
  shaped : w.shape = v.shape

theorem Holds.insert {w : World} (h : w.Holds P) {serial : Nat} {c : Cache}
    (hc : c.Holds (P serial)) : Holds P { w with caches := w.caches.insert serial c } := by
  intro j d hd
  simp only [Table.get?_insert] at hd
  split at hd
  · rename_i same
    cases hd
    exact same ▸ hc
  · exact h j d hd

theorem Holds.stocked {w : World} (h : w.Holds P) : Stocked P w w := ⟨h, rfl, rfl⟩

theorem shape_insert {w : World} {serial : Nat} {c : Cache} (found : w.caches.get? serial = some c)
    (s : c.chain.State) :
    shape { w with caches := w.caches.insert serial ⟨c.chain, s⟩ } = w.shape := by
  funext j
  simp only [shape, Table.get?_insert]
  split
  · rename_i same
    rw [← same, found]
    rfl
  · rfl

theorem meets_onCache {Q : Except Fault α → Prop}
    {m : (c : Cache) → Action (c.chain.State × World) α}
    (h : ∀ c w, c.Holds (P ref.serial) →
      Meets (c.chain.Holding (P ref.serial) (· = w)) (m c) fun r s =>
        c.chain.Holding (P ref.serial) (· = w) s ∧ Q r)
    (failed : ∀ e, Q (.error e)) :
    Meets (Stocked P v) (onCache ref m) fun r w => Stocked P v w ∧ Q r := by
  intro w hw
  unfold onCache
  split
  · exact ⟨hw, failed _⟩
  · rename_i c found
    have hc := hw.holds _ c found
    obtain ⟨⟨entry, same⟩, hq⟩ := h c w hc (c.state, w) ⟨hc.entry, rfl⟩
    dsimp only
    rw [same]
    refine ⟨⟨?_, hw.log_eq, (shape_insert found _).trans hw.shaped⟩, hq⟩
    exact hw.holds.insert ⟨hc.builtIn, hc.copyable, entry⟩

theorem guards_storeVia (site : Site World) (ref : CacheRef) :
    (storeVia site ref).Guards (Stocked P v) (P ref.serial) where
  put k e he := Found.keeps (Q := fun _ _ => True) <|
    meets_onCache (Q := fun _ => True)
      (fun c w hc s hs =>
        ⟨(c.chain.guards_store site (· = w) hc.builtIn hc.copyable).put k e he s hs, trivial⟩)
      fun _ => trivial
  get k := meets_onCache (Q := fun r => ∀ e, r = .ok (some e) → P ref.serial k e)
    (fun c w hc => (c.chain.guards_store site (· = w) hc.builtIn hc.copyable).get k)
    fun _ _ h => by cases h
  remove k := meets_onCache (Q := fun r => ∀ e, r = .ok (some e) → P ref.serial k e)
    (fun c w hc => (c.chain.guards_store site (· = w) hc.builtIn hc.copyable).remove k)
    fun _ _ h => by cases h
  clear := Found.keeps (Q := fun _ _ => True) <|
    meets_onCache (Q := fun _ => True)
      (fun c w hc s hs =>
        ⟨(c.chain.guards_store site (· = w) hc.builtIn hc.copyable).clear s hs, trivial⟩)
      fun _ => trivial
  assign _ _ := Keeps.pure false

theorem guards_store (host : Host) (ref : CacheRef) :
    (store host ref).Guards (Stocked P v) (P ref.serial) := guards_storeVia _ ref

theorem clear_succeeds (host : Host) {w : World} (hw : w.Holds P) {c : Cache}
    (found : w.caches.get? ref.serial = some c) : ((store host ref).clear w).result = .ok () := by
  obtain ⟨s', clear, -⟩ :=
    c.chain.clear_store (siteAt host ref.serial) (hw _ c found).builtIn c.state w
  change (onCache ref _ w).result = _
  simp only [onCache, found, clear]

theorem stocked_clear (host : Host)
    (others : ∀ serial, serial ≠ ref.serial → P' serial = P serial)
    {w : World} (hw : Stocked P v w)
    (copyable : ∀ c, w.caches.get? ref.serial = some c → c.chain.copies = true →
      Layer.Copyable (P' ref.serial)) :
    ((store host ref).clear w).result = .ok () →
      Stocked P' v ((store host ref).clear w).state := by
  change (onCache ref _ w).result = _ → Stocked _ _ (onCache ref _ w).state
  unfold onCache
  split
  · intro h; cases h
  · rename_i c found
    intro _
    obtain ⟨s', clear, empty⟩ :=
      c.chain.clear_store (siteAt host ref.serial) (hw.holds _ c found).builtIn c.state w
    dsimp only
    rw [clear]
    refine ⟨fun serial d hd => ?_, hw.log_eq, (shape_insert found _).trans hw.shaped⟩
    simp only [Table.get?_insert] at hd
    split at hd
    · rename_i same
      cases hd
      refine same ▸ ⟨(hw.holds _ c found).builtIn, copyable c found, fun k e he => ?_⟩
      change (c.chain.entries s').get? k = some e at he
      rw [empty] at he
      cases he
    · rename_i other
      rw [others serial (Ne.symm other)]
      exact hw.holds serial d hd

end StatementCache.World
