import StatementCache.Proofs.Contents.Assembly
import StatementCache.Proofs.Contents.Growth
import StatementCache.Proofs.Locks.Ownership

/-! Who owns the keys of shared caches. A cache assembled with blocking keeps its owners in its
outermost layer. Whatever the layers below do, and whether they fail or not, a write or a removal
frees the key, and only a lookup that finds no value takes one. -/
namespace StatementCache

open StatementCache.Action

def Chain.owner? : (c : Chain) → c.State → CacheKey → Option Thread
  | .blocking _, s, k => Locks.owner? (Prod.fst s) k
  | _, _, _ => none

def Chain.Locking (c : Chain) : Prop := ∃ inner, c = .blocking inner ∧ inner.target? = none

def Cache.owner? (c : Cache) (k : CacheKey) : Option Thread := c.chain.owner? c.state k

namespace World

def owner? (w : World) (serial : Nat) (k : CacheKey) : Option Thread :=
  (w.caches.get? serial).bind (·.owner? k)

def Locking (w : World) : Prop := ∀ serial c, w.caches.get? serial = some c → c.chain.Locking

structure Frees (v w : World) : Prop where
  shaped : w.shape = v.shape
  owner : ∀ serial k thread, w.owner? serial k = some thread → v.owner? serial k = some thread

structure Returns (serial : Nat) (k : CacheKey) (thread : Thread) (v w : World) : Prop where
  shaped : w.shape = v.shape
  owner : ∀ s j, w.owner? s j =
    if s = serial ∧ j = k ∧ v.owner? s j = some thread then none else v.owner? s j

variable {α : Type} {u v w : World} {host : Host} {ref : CacheRef} {k : CacheKey}

theorem Frees.refl (w : World) : w.Frees w := ⟨rfl, fun _ _ _ own => own⟩

theorem Frees.trans (first : u.Frees v) (second : v.Frees w) : u.Frees w :=
  ⟨second.shaped.trans first.shaped,
    fun serial k thread own => first.owner serial k thread (second.owner serial k thread own)⟩

theorem owner?_of_caches (same : w.caches = v.caches) (serial : Nat) (k : CacheKey) :
    w.owner? serial k = v.owner? serial k := by
  simp only [owner?, same]

theorem Frees.of_caches (same : w.caches = v.caches) : v.Frees w :=
  ⟨shape_eq_of_caches same, fun serial k _ own => (owner?_of_caches same serial k).symm.trans own⟩

theorem Returns.frees {serial : Nat} {thread : Thread} (h : Returns serial k thread v w) :
    v.Frees w := by
  refine ⟨h.shaped, fun s j other own => ?_⟩
  rw [h.owner] at own
  split at own
  · cases own
  · exact own

theorem Returns.disowned {serial : Nat} {thread : Thread} (h : Returns serial k thread v w) :
    w.owner? serial k ≠ some thread := by
  rw [h.owner]
  split
  · simp
  · rename_i other
    exact fun own => other ⟨rfl, rfl, own⟩

theorem owner?_of_absent {serial : Nat} (absent : w.caches.get? serial = none) (k : CacheKey) :
    w.owner? serial k = none := by
  simp only [owner?, absent, Option.bind_none]

theorem Locking.of_shape (h : v.Locking) (shaped : w.shape = v.shape) : w.Locking := by
  intro serial c found
  have same := congrFun shaped serial
  simp only [shape, found, Option.map_some] at same
  obtain ⟨d, there, eq⟩ := Option.map_eq_some_iff.mp same.symm
  exact eq ▸ h serial d there

@[simp] theorem thread_siteAt (host : Host) (depth : Nat) :
    (siteAt host depth).thread = host.thread := by
  cases depth <;> rfl

theorem caches_store {c : Chain} (alone : c.target? = none) (host : Host) (depth : Nat)
    (caches : Table Nat Cache) :
    (c.store (siteAt host depth)).Keeping fun s => s.2.caches = caches := by
  refine c.keeping_store_over (J := fun w : World => w.caches = caches) (fun e _ => ?_)
    (fun op => ?_) fun ref standing => ?_
  · cases depth <;> exact fun _ same => same
  · cases depth <;> exact fun _ same => same
  · rw [alone] at standing
    cases standing

/-- An operation of one cache fails when the cache is gone, and else decides about the owners of
its own keys alone. -/
theorem onCache_cases {m : (c : Cache) → Action (c.chain.State × World) α} (locking : w.Locking)
    (ref : CacheRef)
    (left : ∀ c : Cache, c.chain.target? = none → Keeps (fun s => s.2.caches = w.caches) (m c)) :
    (∃ e, w.caches.get? ref.serial = none ∧ onCache ref m w = ⟨.error e, w⟩) ∨
      ∃ (inner : Chain) (l : Locks) (s : inner.State),
        let o := m ⟨.blocking inner, (l, s)⟩ ((l, s), w)
        (∀ k, w.owner? ref.serial k = l.owner? k) ∧
          (onCache ref m w).result = o.result ∧ (onCache ref m w).state.shape = w.shape ∧
          ∀ serial k, (onCache ref m w).state.owner? serial k =
            if serial = ref.serial then Locks.owner? (Prod.fst o.state.1) k
            else w.owner? serial k := by
  unfold onCache
  cases found : w.caches.get? ref.serial with
  | none => exact .inl ⟨_, rfl, rfl⟩
  | some c =>
    obtain ⟨inner, blocks, alone⟩ := locking ref.serial c found
    obtain ⟨chain, state⟩ := c
    cases blocks
    have same := left ⟨.blocking inner, state⟩ alone (state, w) rfl
    refine .inr ⟨inner, Prod.fst state, Prod.snd state, ?_, rfl, ?_, ?_⟩
    · intro k
      simp only [owner?, found]
      rfl
    · dsimp only
      rw [same]
      exact shape_insert found _
    · intro serial k
      dsimp only
      simp only [owner?, same, Table.get?_insert, eq_comm (a := ref.serial)]
      split
      · rfl
      · rfl

theorem returns_onCache {m : (c : Cache) → Action (c.chain.State × World) α} (locking : w.Locking)
    (left : ∀ c : Cache, c.chain.target? = none → Keeps (fun s => s.2.caches = w.caches) (m c))
    (released : ∀ inner (l : Locks) (s : inner.State),
      Prod.fst (m ⟨.blocking inner, (l, s)⟩ ((l, s), w)).state.1 = l.release host.thread k) :
    Returns ref.serial k host.thread w (onCache ref m w).state := by
  obtain ⟨e, absent, failed⟩ | ⟨inner, l, s, owned, -, shaped, owners⟩ :=
    onCache_cases locking ref left
  · rw [failed]
    refine ⟨rfl, fun serial j => ?_⟩
    split
    · rename_i own
      rw [own.1, owner?_of_absent absent]
    · rfl
  · refine ⟨shaped, fun serial j => ?_⟩
    rw [owners, released, Locks.owner?_release]
    by_cases here : serial = ref.serial
    · subst here
      by_cases same : k = j
      · subst same
        simp only [if_true, true_and, owned]
      · simp only [if_true, same, Ne.symm same, false_and, and_false, if_false, owned]
    · simp only [here, if_false, false_and]

theorem returns_put (locking : w.Locking) (host : Host) (ref : CacheRef) (k : CacheKey)
    (e : Entry) : Returns ref.serial k host.thread w ((store host ref).put k e w).state :=
  returns_onCache locking (fun _ alone => (caches_store alone host _ _).put k e trivial)
    fun _ l _ => congrArg (l.release · k) (thread_siteAt ..)

theorem returns_remove (locking : w.Locking) (host : Host) (ref : CacheRef) (k : CacheKey) :
    Returns ref.serial k host.thread w ((store host ref).remove k w).state :=
  returns_onCache locking (fun _ alone => (caches_store alone host _ _).keeps_remove k)
    fun _ l _ => congrArg (l.release · k) (thread_siteAt ..)

theorem frees_clear (locking : w.Locking) (host : Host) (ref : CacheRef) :
    w.Frees ((store host ref).clear w).state := by
  obtain ⟨e, -, failed⟩ | ⟨inner, l, s, owned, -, shaped, owners⟩ :=
    onCache_cases (m := fun c => (c.chain.store (siteAt host ref.serial)).clear) locking ref
      fun _ alone => (caches_store alone host _ _).clear
  · exact (congrArg Outcome.state failed).symm ▸ .refl w
  · refine ⟨shaped, fun serial j thread own => ?_⟩
    have own := (owners serial j).symm.trans own
    split at own
    · rename_i here
      rw [here, owned]
      exact own
    · exact own

theorem owner?_get (locking : w.Locking) (host : Host) (ref : CacheRef) (k : CacheKey) :
    let o := (store host ref).get k w
    o.state.shape = w.shape ∧ ∀ serial j thread, o.state.owner? serial j = some thread →
      w.owner? serial j = some thread ∧ ¬(serial = ref.serial ∧ j = k ∧ thread = host.thread) ∨
        (serial = ref.serial ∧ j = k ∧ thread = host.thread) ∧ missed o.result = true := by
  intro o
  obtain ⟨e, absent, failed⟩ | ⟨inner, l, s, owned, result, shaped, owners⟩ :=
    onCache_cases (m := fun c => (c.chain.store (siteAt host ref.serial)).get k) locking ref
      fun _ alone => (caches_store alone host _ _).keeps_get k
  · have same : o = ⟨.error e, w⟩ := failed
    rw [same]
    refine ⟨rfl, fun serial j thread own => .inl ⟨own, fun here => ?_⟩⟩
    rw [here.1, owner?_of_absent absent] at own
    cases own
  · refine ⟨shaped, fun serial j thread own => ?_⟩
    have own := (owners serial j).symm.trans own
    by_cases there : serial = ref.serial
    · rw [if_pos there] at own
      let layer := Layer.blocking (siteAt host ref.serial).thread
        (inner.store (siteAt host ref.serial))
      have result : (layer.get k (l, (s, w))).result = o.result := result.symm
      have looked := Layer.owned_of_blocking_get (siteAt host ref.serial).thread
        (inner.store (siteAt host ref.serial)) k l (s, w) own
      rw [result, thread_siteAt] at looked
      rw [there, owned]
      exact looked.imp (fun old => ⟨old.1, fun here => old.2 here.2⟩)
        fun new => ⟨⟨rfl, new.1⟩, new.2⟩
    · rw [if_neg there] at own
      exact .inl ⟨own, fun here => there here.1⟩

end World

namespace Cache

variable {ω : Type} {c : Cache}

def Vacant (c : Cache) : Prop := c.chain.Locking ∧ ∀ k, c.owner? k = none

theorem vacant_blocking (timeout : Option Nat) (alone : c.chain.target? = none) :
    (c.blocking timeout).Vacant :=
  ⟨⟨c.chain, rfl, alone⟩, fun _ => rfl⟩

theorem gives_chain_assign (site : Site ω) (name value : String) (c : Cache) :
    Gives (fun r : Bool × Cache => r.2.chain = c.chain) (c.assign site name value) := by
  intro w r hr
  simp only [assign] at hr
  cases ho : ((c.chain.store site).assign name value (c.state, w)).result with
  | error e => rw [ho] at hr; cases hr
  | ok known => rw [ho] at hr; cases hr; rfl

theorem gives_vacant_assign (site : Site ω) (name value : String) (h : c.Vacant) :
    Gives (fun r : Bool × Cache => r.2.Vacant) (c.assign site name value) := by
  obtain ⟨⟨inner, blocks, alone⟩, free⟩ := h
  obtain ⟨chain, state⟩ := c
  cases blocks
  change Locks × inner.State at state
  obtain ⟨l, s⟩ := state
  intro w r hr
  have kept := Layer.owner?_blocking_assign site.thread (inner.store site) l (s, w) name value
  simp only [assign] at hr
  cases ho : (((Chain.blocking inner).store site).assign name value ((l, s), w)).result with
  | error e => rw [ho] at hr; cases hr
  | ok known =>
    rw [ho] at hr
    cases hr
    exact ⟨⟨inner, rfl, alone⟩, fun k => (kept k).trans (free k)⟩

end Cache

namespace CacheFactories

structure SelfContained (f : CacheFactories) : Prop where
  stores : f.stores = builtIn.stores
  layers : ∀ name wrap, f.decorators.get? name = some wrap → ∀ c : Cache,
    c.chain.target? = none → (wrap c).chain.target? = none

variable {f : CacheFactories}

theorem SelfContained.store (h : f.SelfContained) {name : String} {make : String → Cache}
    (found : f.store name = .ok make) : make = Cache.base ∧ name.toUpper = defaultStore := by
  have found : builtIn.store name = .ok make := by
    simpa only [CacheFactories.store, h.stores] using found
  refine ⟨store_builtIn found, ?_⟩
  simp only [CacheFactories.store, builtIn, registerStore, registerDecorator, Table.get?_insert,
    Table.get?_empty] at found
  split at found
  · rename_i there
    split at there
    · rename_i same
      exact same.symm.trans (by with_unfolding_all rfl)
    · cases there
  · cases found

theorem SelfContained.decorator (h : f.SelfContained) {name : String} {wrap : Cache → Cache}
    (found : f.decorator name = .ok wrap) {c : Cache} (alone : c.chain.target? = none) :
    (wrap c).chain.target? = none := by
  unfold CacheFactories.decorator at found
  split at found
  · rename_i there
    cases found
    exact h.layers _ _ there c alone
  · cases found

theorem selfContained_builtIn : builtIn.SelfContained where
  stores := rfl
  layers name wrap found c alone := by
    simp only [builtIn, registerStore, registerDecorator, Table.get?_insert,
      Table.get?_empty] at found
    split at found
    · cases found; exact alone
    split at found
    · cases found; exact alone
    split at found
    · cases found; exact alone
    split at found
    · cases found; exact alone
    · cases found

end CacheFactories

theorem Blueprint.assembles_vacant {ω : Type} {f : CacheFactories} (closed : f.SelfContained)
    {b : Blueprint} (blocks : b.blocking = true) (site : Site ω) :
    b.Assembles site f (fun c => c.chain.target? = none) Cache.Vacant where
  store _ _ made := (closed.store made).1 ▸ rfl
  assign c name value alone w r given :=
    (congrArg Chain.target? (c.gives_chain_assign site name value w r given)).trans alone
  decorator _ _ found _ alone := closed.decorator found alone
  scheduled _ _ _ alone := alone
  serialized _ alone := alone
  covered _ alone := alone
  custom _ _ made custom := absurd (closed.store made).2 custom
  plain open_ := by rw [blocks] at open_; cases open_
  blocking _ _ alone := Cache.vacant_blocking _ alone
  assign_blocking _ _ name value vacant := Cache.gives_vacant_assign site name value vacant

/-- Every cache was assembled with blocking. -/
def World.Blocking (w : World) : Prop :=
  ∀ serial c, w.caches.get? serial = some c →
    ∃ (f : CacheFactories) (b : Blueprint) (host : Host) (before after : World),
      f.SelfContained ∧ b.blocking = true ∧ b.build (World.siteAt host 0) f before = ⟨.ok c, after⟩

theorem World.Blocking.locking {w : World} (h : w.Blocking) : w.Locking := by
  intro serial c found
  obtain ⟨f, b, host, before, after, closed, blocks, built⟩ := h serial c found
  exact ((Blueprint.assembles_vacant closed blocks _).of_build built).1

theorem World.Blocking.free {w : World} (h : w.Blocking) (serial : Nat) (k : CacheKey) :
    w.owner? serial k = none := by
  unfold owner?
  cases found : w.caches.get? serial with
  | none => rfl
  | some c =>
    obtain ⟨f, b, host, before, after, closed, blocks, built⟩ := h serial c found
    exact ((Blueprint.assembles_vacant closed blocks _).of_build built).2 k

end StatementCache
