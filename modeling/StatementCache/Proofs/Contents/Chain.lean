import StatementCache.Proofs.Contents.Layers

/-! The map at the bottom of a chain, through any stack of built-in layers. -/
namespace StatementCache

open StatementCache.Action Store

namespace Chain

variable {ω : Type}

def entries : (c : Chain) → c.State → Entries
  | .base _, s => s
  | .shared _, _ => .empty
  | .lru inner, s => entries inner (Prod.snd s)
  | .fifo inner, s => entries inner (Prod.snd s)
  | .tiered inner, s => entries inner (Prod.snd s)
  | .scheduled inner, s => entries inner (Prod.snd s)
  | .serialized inner, s => entries inner s
  | .counted inner, s => entries inner (Prod.snd s)
  | .synchronized inner, s => entries inner s
  | .blocking inner, s => entries inner (Prod.snd s)
  | .recording inner, s => entries inner s
  | .faulty inner, s => entries inner s

/-- A map of its own, under layers that neither report to others nor refuse anything. -/
def BuiltIn : Chain → Prop
  | .base _ => True
  | .shared _ | .recording _ | .faulty _ => False
  | .lru inner | .fifo inner | .tiered inner | .scheduled inner | .serialized inner
  | .counted inner | .synchronized inner | .blocking inner => BuiltIn inner

/-- Some layer stores copies instead of the entries themselves. -/
def copies : Chain → Bool
  | .base _ | .shared _ => false
  | .serialized _ => true
  | .lru inner | .fifo inner | .tiered inner | .scheduled inner | .counted inner
  | .synchronized inner | .blocking inner | .recording inner | .faulty inner => copies inner

/-- Every entry at the bottom has `P`, and what surrounds the cache has `J`. -/
def Holding (P : CacheKey → Entry → Prop) (J : ω → Prop) (c : Chain) (s : c.State × ω) : Prop :=
  (∀ k e, (c.entries s.1).get? k = some e → P k e) ∧ J s.2

end Chain

namespace Store

variable {σ τ : Type}

theorem Guards.regroup {store : Store τ} {I : τ → Prop} {P : CacheKey → Entry → Prop}
    (h : store.Guards I P) (split : σ → τ) (join : τ → σ) (inverse : ∀ t, split (join t) = t) :
    (store.regroup split join).Guards (fun s => I (split s)) P where
  put k e he s hs := by
    change I (split (join _))
    rw [inverse]
    exact h.put k e he (split s) hs
  get k s hs := by
    change I (split (join _)) ∧ _
    rw [inverse]
    exact h.get k (split s) hs
  remove k s hs := by
    change I (split (join _)) ∧ _
    rw [inverse]
    exact h.remove k (split s) hs
  clear s hs := by
    change I (split (join _))
    rw [inverse]
    exact h.clear (split s) hs
  assign name value s hs := by
    change I (split (join _))
    rw [inverse]
    exact h.assign name value (split s) hs

theorem Guards.beside {store : Store σ} {I : σ → Prop} {P : CacheKey → Entry → Prop}
    (h : store.Guards I P) (J : τ → Prop) :
    (store.beside : Store (σ × τ)).Guards (fun s => I s.1 ∧ J s.2) P where
  put k e he := fun s hs => ⟨h.put k e he s.1 hs.1, hs.2⟩
  get k := fun s hs => ⟨⟨(h.get k s.1 hs.1).1, hs.2⟩, (h.get k s.1 hs.1).2⟩
  remove k := fun s hs => ⟨⟨(h.remove k s.1 hs.1).1, hs.2⟩, (h.remove k s.1 hs.1).2⟩
  clear := fun s hs => ⟨h.clear s.1 hs.1, hs.2⟩
  assign name value := fun s hs => ⟨h.assign name value s.1 hs.1, hs.2⟩

end Store

namespace Chain

variable {ω : Type}

theorem guards_stacked {β σ : Type} {store : Store (β × (σ × ω))} {I : σ × ω → Prop}
    {P : CacheKey → Entry → Prop} (h : store.Guards (fun s => I s.2) P) :
    (stacked store).Guards (fun s => I (s.1.2, s.2)) P :=
  h.regroup _ _ fun _ => rfl

theorem guards_store (site : Site ω) {P : CacheKey → Entry → Prop} (J : ω → Prop) (c : Chain)
    (builtIn : c.BuiltIn) (copy : c.copies = true → Layer.Copyable P) :
    (c.store site).Guards (c.Holding P J) P := by
  induction c with
  | base id => exact (Layer.guards_base id).beside J
  | shared _ | recording _ _ | faulty _ _ => exact builtIn.elim
  | lru inner ih => exact guards_stacked (Layer.guards_lru (ih builtIn copy))
  | fifo inner ih => exact guards_stacked (Layer.guards_fifo (ih builtIn copy))
  | tiered inner ih => exact guards_stacked (Layer.guards_tiered site.now (ih builtIn copy))
  | scheduled inner ih => exact guards_stacked (Layer.guards_scheduled site.now (ih builtIn copy))
  | serialized inner ih =>
    exact Layer.guards_serialized (copy rfl) (ih builtIn fun _ => copy rfl)
  | counted inner ih => exact guards_stacked (Layer.guards_counted (ih builtIn copy))
  | synchronized inner ih => exact Layer.guards_synchronized (ih builtIn copy)
  | blocking inner ih => exact guards_stacked (Layer.guards_blocking site.thread (ih builtIn copy))

theorem clear_store (site : Site ω) (c : Chain) (builtIn : c.BuiltIn) (s : c.State) (w : ω) :
    ∃ s', (c.store site).clear (s, w) = ⟨.ok (), (s', w)⟩ ∧ c.entries s' = .empty := by
  induction c with
  | base id => exact ⟨.empty, rfl, rfl⟩
  | shared _ | recording _ _ | faulty _ _ => exact builtIn.elim
  | serialized inner ih | synchronized inner ih => exact ih builtIn s
  | lru inner ih =>
    obtain ⟨s', hs, he⟩ := ih builtIn s.2
    exact ⟨(_, s'), by simp [store, stacked, regroup, Layer.lru, bind_apply, hs]; rfl, he⟩
  | fifo inner ih =>
    obtain ⟨s', hs, he⟩ := ih builtIn s.2
    exact ⟨(_, s'), by simp [store, stacked, regroup, Layer.fifo, bind_apply, hs]; rfl, he⟩
  | tiered inner ih =>
    obtain ⟨s', hs, he⟩ := ih builtIn s.2
    exact ⟨(_, s'), by simp [store, stacked, regroup, Layer.tiered, bind_apply, hs]; rfl, he⟩
  | scheduled inner ih =>
    obtain ⟨s', hs, he⟩ := ih builtIn s.2
    exact ⟨(_, s'), by simp [store, stacked, regroup, Layer.scheduled, bind_apply, hs]; rfl, he⟩
  | counted inner ih =>
    obtain ⟨s', hs, he⟩ := ih builtIn s.2
    exact ⟨(_, s'), by simp [store, stacked, regroup, Layer.counted, hs]; rfl, he⟩
  | blocking inner ih =>
    obtain ⟨s', hs, he⟩ := ih builtIn s.2
    exact ⟨(_, s'), by simp [store, stacked, regroup, Layer.blocking, hs]; rfl, he⟩

end Chain

namespace Cache

def entries (c : Cache) : Entries := c.chain.entries c.state

structure Holds (P : CacheKey → Entry → Prop) (c : Cache) : Prop where
  builtIn : c.chain.BuiltIn
  copyable : c.chain.copies = true → Layer.Copyable P
  entry : ∀ k e, c.entries.get? k = some e → P k e

abbrev Pristine : Cache → Prop := Holds fun _ _ => False

end Cache
end StatementCache
