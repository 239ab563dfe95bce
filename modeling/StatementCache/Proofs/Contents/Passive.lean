import StatementCache.Proofs.Contents.Uniform

/-! Caches in which a lookup leaves no trace but in counters. Two of them with the same entries in
the same order do the same, whatever was looked up in one of them. -/
namespace StatementCache

open StatementCache.Action

/-- A lookup leads to a state that is still alike. -/
structure Store.Steady {σ : Type} (store : Store σ) (R : σ → σ → Prop) : Prop
    extends store.Uniform R where
  unseen : ∀ k s', Keeps (fun s => R s s') (store.get k)

namespace Store

variable {σ τ : Type} {store : Store τ} {R : τ → τ → Prop}

theorem Steady.regroup (h : store.Steady R) (split : σ → τ) (join : τ → σ)
    (inverse : ∀ t, split (join t) = t) :
    (store.regroup split join).Steady fun s s' => R (split s) (split s') where
  toUniform := h.toUniform.regroup split join inverse
  unseen k s' s hs := by
    change R (split (join _)) (split s')
    rw [inverse]
    exact h.unseen k (split s') (split s) hs

theorem Steady.beside {store : Store σ} {R : σ → σ → Prop} (h : store.Steady R) (J : τ → τ → Prop) :
    (store.beside : Store (σ × τ)).Steady (Beside R J) where
  toUniform := h.toUniform.beside J
  unseen k s' _ hs := ⟨h.unseen k s'.1 _ hs.1, hs.2⟩

theorem Steady.congr {R' : τ → τ → Prop} (h : store.Steady R) (same : R = R') : store.Steady R' :=
  same ▸ h

end Store

namespace Layer

variable {τ : Type} {inner : Store τ} {R : τ → τ → Prop}

theorem steady_base (id : String) : (base id).Steady Eq where
  toUniform := uniform_base id
  unseen _ _ _ same := same

theorem steady_fifo (h : inner.Steady R) : (fifo inner).Steady (Beside Eq R) where
  toUniform := uniform_fifo h.toUniform
  unseen k s' _ hs := ⟨hs.1, h.unseen k s'.2 _ hs.2⟩

theorem steady_counted (h : inner.Steady R) :
    (counted inner).Steady (Beside (fun _ _ => True) R) where
  put k e := (h.put k e).onSecond
  get k := by
    have count (f : Counters → Counters) : Alike (Beside (fun _ _ => True) R) Eq
        (onFirst (modify f)) (onFirst (modify f)) :=
      Alike.onFirst (.modify fun _ _ _ => trivial)
    refine (count _).bind fun _ _ _ => (h.get k).onSecond.bind fun found found' same => ?_
    subst same
    split
    · exact (count _).bind fun _ _ _ => .pure rfl
    · exact .pure rfl
  remove k := (h.remove k).onSecond
  clear := h.clear.onSecond
  unseen k s' := by
    have count (f : Counters → Counters) : Keeps (fun s : Counters × τ =>
        Beside (fun _ _ => True) R s s') (onFirst (modify f)) := fun _ hs => ⟨trivial, hs.2⟩
    have look : Keeps (fun s : Counters × τ => Beside (fun _ _ => True) R s s')
      (onSecond (inner.get k)) := fun _ hs => ⟨trivial, h.unseen k s'.2 _ hs.2⟩
    refine (count _).bind fun _ => look.bind fun found => ?_
    split
    · exact (count _).bind fun _ => Keeps.pure _
    · exact Keeps.pure _

theorem steady_serialized (h : inner.Steady R) : (serialized inner).Steady R where
  toUniform := uniform_serialized h.toUniform
  unseen k s' := (h.unseen k s').bind fun _ => Keeps.ofExcept _

theorem steady_synchronized (h : inner.Steady R) : (synchronized inner).Steady R :=
  ⟨uniform_synchronized h.toUniform, h.unseen⟩

end Layer

namespace Chain

variable {ω : Type}

/-- A map under layers that a lookup changes in their counters only. -/
def Passive : Chain → Prop
  | .base _ => True
  | .fifo inner | .serialized inner | .counted inner | .synchronized inner => Passive inner
  | .shared _ | .lru _ | .tiered _ | .scheduled _ | .blocking _ | .recording _ | .faulty _ => False

def Alike : (c : Chain) → c.State → c.State → Prop
  | .counted inner, s, s' => Alike inner (Prod.snd s) (Prod.snd s')
  | .fifo inner, s, s' => Prod.fst s = Prod.fst s' ∧ Alike inner (Prod.snd s) (Prod.snd s')
  | .serialized inner, s, s' => Alike inner s s'
  | .synchronized inner, s, s' => Alike inner s s'
  | .base _, s, s' => s = s'
  | .shared _, s, s' => s = s'
  | .lru _, s, s' => s = s'
  | .tiered _, s, s' => s = s'
  | .scheduled _, s, s' => s = s'
  | .blocking _, s, s' => s = s'
  | .recording _, s, s' => s = s'
  | .faulty _, s, s' => s = s'

theorem alike_refl (c : Chain) (s : c.State) : c.Alike s s := by
  induction c with
  | counted inner ih => exact ih s.2
  | fifo inner ih => exact ⟨rfl, ih s.2⟩
  | serialized inner ih | synchronized inner ih => exact ih s
  | _ => rfl

theorem steady_stacked {β σ : Type} {store : Store (β × (σ × ω))}
    {R : β × (σ × ω) → β × (σ × ω) → Prop} (h : store.Steady R) :
    (stacked store).Steady fun s s' => R (s.1.1, (s.1.2, s.2)) (s'.1.1, (s'.1.2, s'.2)) :=
  h.regroup _ _ fun _ => rfl

theorem steady_store (site : Site ω) (J : ω → ω → Prop) (c : Chain) (passive : c.Passive) :
    (c.store site).Steady (Beside c.Alike J) := by
  induction c with
  | base id => exact (Layer.steady_base id).beside J
  | serialized inner ih => exact Layer.steady_serialized (ih passive)
  | synchronized inner ih => exact Layer.steady_synchronized (ih passive)
  | fifo inner ih =>
    refine (steady_stacked (Layer.steady_fifo (ih passive))).congr ?_
    funext s s'
    exact propext and_assoc.symm
  | counted inner ih =>
    refine (steady_stacked (Layer.steady_counted (ih passive))).congr ?_
    funext s s'
    exact true_and _
  | shared _ | lru _ _ | tiered _ _ | scheduled _ _ | blocking _ _ | recording _ _ | faulty _ _ =>
    exact passive.elim

end Chain

inductive Cache.Alike : Cache → Cache → Prop where
  | intro {c : Chain} {s s' : c.State} (passive : c.Passive) (same : c.Alike s s') :
    Alike ⟨c, s⟩ ⟨c, s'⟩

def Cache.Paired (caches caches' : Table Nat Cache) : Prop :=
  ∀ serial, Option.Rel Cache.Alike (caches.get? serial) (caches'.get? serial)

namespace Cache.Paired

variable {caches caches' : Table Nat Cache} {serial : Nat} {c c' : Cache}

theorem refl (passive : ∀ serial c, caches.get? serial = some c → c.chain.Passive) :
    Paired caches caches := by
  intro serial
  cases found : caches.get? serial with
  | none => exact .none
  | some c => exact .some (.intro (passive serial c found) (c.chain.alike_refl c.state))

theorem insert (h : Paired caches caches') (alike : c.Alike c') :
    Paired (caches.insert serial c) (caches'.insert serial c') := by
  intro j
  rw [Table.get?_insert, Table.get?_insert]
  split
  · exact .some alike
  · exact h j

theorem insert_left (h : Paired caches caches') (there : caches'.get? serial = some c')
    (alike : c.Alike c') : Paired (caches.insert serial c) caches' := by
  intro j
  rw [Table.get?_insert]
  split
  · rename_i same
    rw [← same, there]
    exact .some alike
  · exact h j

end Cache.Paired

namespace World

variable {J : List Event → List Event → Prop} {ref : CacheRef} {host : Host} {w w' : World}

structure Alike (J : List Event → List Event → Prop) (w w' : World) : Prop where
  caches : Cache.Paired w.caches w'.caches
  logs : J w.log w'.log

theorem Alike.find?_eq (h : w.Alike J w') (host : Host) (ref : CacheRef) :
    find? host ref w = find? host ref w' := by
  have pair := h.caches ref.serial
  generalize found : w.caches.get? ref.serial = c, found' : w'.caches.get? ref.serial = c' at pair
  cases pair with
  | none => rw [find?_of_none found, find?_of_none found']
  | some _ => rw [find?_of_some found, find?_of_some found']

theorem alike_onCache {α : Type} {Q : α → α → Prop}
    {m : (c : Cache) → Action (c.chain.State × World) α}
    (h : ∀ (c : Chain) (s s' : c.State), c.Passive →
      Action.Alike (Beside c.Alike (Alike J)) Q (m ⟨c, s⟩) (m ⟨c, s'⟩)) :
    Action.Alike (Alike J) Q (onCache ref m) (onCache ref m) := by
  intro w w' hw
  have pair := hw.caches ref.serial
  unfold onCache
  generalize w.caches.get? ref.serial = found, w'.caches.get? ref.serial = found' at pair
  cases pair with
  | none => exact ⟨.error _, hw⟩
  | some alike =>
    obtain ⟨passive, same⟩ := alike
    obtain ⟨ends, states, worlds⟩ := h _ _ _ passive (_, w) (_, w') ⟨same, hw⟩
    exact ⟨ends, worlds.caches.insert (.intro passive states), worlds.logs⟩

theorem unseen_onCache {α : Type} {m : (c : Cache) → Action (c.chain.State × World) α}
    (h : ∀ (c : Chain) (s : c.State) (s' : c.State × World), c.Passive →
      Keeps (fun t => Beside c.Alike (Alike J) t s') (m ⟨c, s⟩)) (w' : World) :
    Keeps (fun w => Alike J w w') (onCache ref m) := by
  intro w hw
  have pair := hw.caches ref.serial
  unfold onCache
  generalize w.caches.get? ref.serial = found at pair
  generalize there : w'.caches.get? ref.serial = found' at pair
  cases pair with
  | none => exact hw
  | some alike =>
    obtain ⟨passive, same⟩ := alike
    obtain ⟨states, worlds⟩ := h _ _ (_, w') passive (_, w) ⟨same, hw⟩
    exact ⟨worlds.caches.insert_left there (.intro passive states), worlds.logs⟩

theorem steady_storeVia (site : Site World) (ref : CacheRef) :
    (storeVia site ref).Steady (Alike J) where
  put k e := alike_onCache fun c _ _ passive => (c.steady_store site (Alike J) passive).put k e
  get k := alike_onCache fun c _ _ passive => (c.steady_store site (Alike J) passive).get k
  remove k := alike_onCache fun c _ _ passive => (c.steady_store site (Alike J) passive).remove k
  clear := alike_onCache fun c _ _ passive => (c.steady_store site (Alike J) passive).clear
  unseen k := unseen_onCache fun c _ s' passive =>
    (c.steady_store site (Alike J) passive).unseen k s'

theorem steady_store (host : Host) (ref : CacheRef) : (store host ref).Steady (Alike J) :=
  steady_storeVia _ ref

theorem steady_find? {store : Store World} (found : find? host ref w = some store) :
    store.Steady (Alike J) := eq_store_of_find? found ▸ steady_store host ref

end World
end StatementCache
