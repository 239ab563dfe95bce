import StatementCache.Proofs.Contents.World
import Mathlib.Logic.Function.Basic

/-! Caches that are plain maps, and maps under layers that keep accounts of their own. What an
operation makes of the entries of all caches is written out entry by entry. -/
namespace StatementCache

open StatementCache.Action Function

namespace Chain

variable {ω : Type}

/-- A map under layers that answer lookups with what it holds and remove what they are told to and
no more. -/
def Direct : Chain → Prop
  | .base _ => True
  | .lru inner | .fifo inner | .counted inner | .synchronized inner => Direct inner
  | .shared _ | .tiered _ | .scheduled _ | .serialized _ | .blocking _ | .recording _
  | .faulty _ => False

theorem direct_base (id : String) : (base id).Direct := trivial

theorem get_store (site : Site ω) (c : Chain) (direct : c.Direct) (k : CacheKey) (s : c.State)
    (w : ω) :
    ∃ s', (c.store site).get k (s, w) = ⟨.ok ((c.entries s).get? k), (s', w)⟩ ∧
      c.entries s' = c.entries s := by
  induction c with
  | base id => exact ⟨s, rfl, rfl⟩
  | shared _ | tiered _ _ | scheduled _ _ | serialized _ _ | blocking _ _ | recording _ _
  | faulty _ _ => exact direct.elim
  | synchronized inner ih => exact ih direct s
  | lru inner ih =>
    obtain ⟨s', got, same⟩ := ih direct s.2
    exact ⟨(_, s'), by simp [store, stacked, Store.regroup, Layer.lru, bind_apply, got]; rfl, same⟩
  | fifo inner ih =>
    obtain ⟨s', got, same⟩ := ih direct s.2
    exact ⟨(_, s'), by simp [store, stacked, Store.regroup, Layer.fifo, got]; rfl, same⟩
  | counted inner ih =>
    obtain ⟨s', got, same⟩ := ih direct s.2
    refine ⟨(if isHit ((inner.entries s.2).get? k) then s.1.request.hit else s.1.request, s'), ?_, same⟩
    simp only [store, stacked, Store.regroup, Layer.counted, bind_apply, onFirst_apply, modify_apply,
      onSecond_apply, got]
    split
    · rfl
    · rfl

theorem remove_store (site : Site ω) (c : Chain) (direct : c.Direct) (k : CacheKey) (s : c.State)
    (w : ω) :
    ∃ s', (c.store site).remove k (s, w) = ⟨.ok ((c.entries s).get? k), (s', w)⟩ ∧
      c.entries s' = (c.entries s).erase k := by
  induction c with
  | base id => exact ⟨s.erase k, rfl, rfl⟩
  | shared _ | tiered _ _ | scheduled _ _ | serialized _ _ | blocking _ _ | recording _ _
  | faulty _ _ => exact direct.elim
  | synchronized inner ih => exact ih direct s
  | lru inner ih =>
    obtain ⟨s', gone, left⟩ := ih direct s.2
    exact ⟨(_, s'), by simp [store, stacked, Store.regroup, Layer.lru, bind_apply, gone]; rfl, left⟩
  | fifo inner ih =>
    obtain ⟨s', gone, left⟩ := ih direct s.2
    exact ⟨(_, s'), by simp [store, stacked, Store.regroup, Layer.fifo, bind_apply, gone]; rfl, left⟩
  | counted inner ih =>
    obtain ⟨s', gone, left⟩ := ih direct s.2
    exact ⟨(_, s'), by simp [store, stacked, Store.regroup, Layer.counted, gone]; rfl, left⟩

end Chain

abbrev Contents := Nat → CacheKey → Option Entry

namespace World

variable {w w' w'' : World} {ref : CacheRef} {c : Chain} {id : String} {host : Host}
  {first : Contents}

def Mapped (w : World) : Prop := ∀ serial c, w.shape serial = some c → ∃ id, c = .base id

def contents (w : World) : Contents :=
  fun serial k => (w.caches.get? serial).bind fun c => c.entries.get? k

theorem contents_eq_of_caches (same : w'.caches = w.caches) : w'.contents = w.contents := by
  unfold contents
  rw [same]

theorem mapped_of_shape (same : w'.shape = w.shape) (mapped : w.Mapped) : w'.Mapped := by
  unfold Mapped
  rw [same]
  exact mapped

structure Becomes (w : World) (now : Contents) (w' : World) : Prop where
  contents_eq : w'.contents = now
  shape_eq : w'.shape = w.shape
  log_eq : w'.log = w.log

theorem Becomes.refl (w : World) : w.Becomes w.contents w := ⟨rfl, rfl, rfl⟩

theorem Becomes.trans {second : Contents} (become : w.Becomes first w')
    (next : w'.Becomes second w'') : w.Becomes second w'' :=
  ⟨next.contents_eq, next.shape_eq.trans become.shape_eq, next.log_eq.trans become.log_eq⟩

theorem Becomes.mapped (h : w.Becomes first w') (mapped : w.Mapped) : w'.Mapped :=
  mapped_of_shape h.shape_eq mapped

theorem Mapped.builtIn (mapped : w.Mapped) : w.BuiltIn := by
  intro serial c found
  have shaped : w.shape serial = some c.chain := by simp only [shape, found, Option.map_some]
  obtain ⟨id, same⟩ := mapped serial c.chain shaped
  rw [same]
  trivial

theorem found_of_shape {serial : Nat} (shaped : w.shape serial = some c) :
    ∃ s : c.State, w.caches.get? serial = some ⟨c, s⟩ ∧
      w.contents serial = (c.entries s).get? := by
  simp only [shape, Option.map_eq_some_iff] at shaped
  obtain ⟨⟨chain, s⟩, found, same⟩ := shaped
  subst same
  refine ⟨s, found, ?_⟩
  funext k
  simp only [contents, found, Option.bind_some]
  rfl

theorem becomes_insert {serial : Nat} {s : c.State} (found : w.caches.get? serial = some ⟨c, s⟩)
    (s' : c.State) :
    w.Becomes (update w.contents serial (c.entries s').get?)
      { w with caches := w.caches.insert serial ⟨c, s'⟩ } := by
  refine ⟨?_, shape_insert found s', rfl⟩
  funext j k
  simp only [contents, Table.get?_insert, update_apply]
  by_cases same : serial = j
  · subst same
    simp only [if_true, Option.bind_some]
    rfl
  · rw [if_neg same, if_neg (Ne.symm same), contents]

def Changes {α : Type} (ref : CacheRef) (c : Chain) (m : Action World α)
    (change : (CacheKey → Option Entry) → CacheKey → Option Entry) : Prop :=
  ∀ w : World, w.shape ref.serial = some c → (∃ a, (m w).result = .ok a) ∧
    w.Becomes (update w.contents ref.serial (change (w.contents ref.serial))) (m w).state

theorem get_direct (host : Host) (direct : c.Direct) (shaped : w.shape ref.serial = some c)
    (k : CacheKey) :
    ((store host ref).get k w).result = .ok (w.contents ref.serial k) ∧
      w.Becomes w.contents ((store host ref).get k w).state := by
  obtain ⟨s, found, same⟩ := found_of_shape shaped
  obtain ⟨s', looked, entries⟩ := c.get_store (siteAt host ref.serial) direct k s w
  have got : (store host ref).get k w = ⟨.ok ((c.entries s).get? k),
      { w with caches := w.caches.insert ref.serial ⟨c, s'⟩ }⟩ := by
    simp only [store, storeVia, onCache, found, looked]
  have kept := becomes_insert found s'
  rw [entries, ← same, update_eq_self] at kept
  rw [got, same]
  exact ⟨rfl, kept⟩

theorem changes_of_state {α : Type} {m : Action World α}
    {change : (CacheKey → Option Entry) → CacheKey → Option Entry}
    (h : ∀ (w : World) (s : c.State), w.caches.get? ref.serial = some ⟨c, s⟩ →
      ∃ (a : α) (s' : c.State), (c.entries s').get? = change (c.entries s).get? ∧
        m w = ⟨.ok a, { w with caches := w.caches.insert ref.serial ⟨c, s'⟩ }⟩) :
    Changes ref c m change := by
  intro w shaped
  obtain ⟨s, found, same⟩ := found_of_shape shaped
  obtain ⟨a, s', changed, done⟩ := h w s found
  rw [done, same, ← changed]
  exact ⟨⟨a, rfl⟩, becomes_insert found s'⟩

theorem changes_put (host : Host) (k : CacheKey) (e : Entry) :
    Changes ref (.base id) ((store host ref).put k e) fun old => update old k (some e) := by
  apply changes_of_state
  intro w entries found
  refine ⟨(), Table.insert entries k e, ?_, ?_⟩
  · funext j
    refine (Table.get?_insert entries k j e).trans ?_
    simp only [update_apply, eq_comm]
    rfl
  · simp only [store, storeVia, onCache, found]
    rfl

theorem changes_remove (host : Host) (direct : c.Direct) (k : CacheKey) :
    Changes ref c ((store host ref).remove k) fun old => update old k none := by
  apply changes_of_state
  intro w s found
  obtain ⟨s', removed, entries⟩ := c.remove_store (siteAt host ref.serial) direct k s w
  refine ⟨(c.entries s).get? k, s', ?_, ?_⟩
  · funext j
    simp only [entries, Table.get?_erase, update_apply, eq_comm]
  · simp only [store, storeVia, onCache, found, removed]

theorem changes_clear (host : Host) :
    Changes ref (.base id) (store host ref).clear fun _ _ => none := by
  apply changes_of_state
  intro w entries found
  refine ⟨(), Table.empty, ?_, ?_⟩
  · funext j
    exact Table.get?_empty j
  · simp only [store, storeVia, onCache, found]
    rfl

namespace Changes

variable {α β : Type} {change next : (CacheKey → Option Entry) → CacheKey → Option Entry}

theorem pure (a : α) : Changes ref c (pure a) fun old => old := by
  intro w _
  rw [update_eq_self]
  exact ⟨⟨a, rfl⟩, Becomes.refl w⟩

theorem bind {m : Action World α} {f : α → Action World β} (first : Changes ref c m change)
    (second : ∀ a, Changes ref c (f a) next) :
    Changes ref c (m >>= f) fun old => next (change old) := by
  intro w shaped
  obtain ⟨⟨a, ok⟩, became⟩ := first w shaped
  rw [bind_apply]
  rcases done : m w with ⟨result, w'⟩
  rw [done] at ok became
  cases ok
  have shaped' : w'.shape ref.serial = some c := by rw [became.shape_eq, shaped]
  obtain ⟨ok, became'⟩ := second a w' shaped'
  rw [became.contents_eq, update_idem, update_self] at became'
  exact ⟨ok, became.trans became'⟩

theorem discard {m : Action World α} (h : Changes ref c m change) :
    Changes ref c (discard m) change := by
  have mapped : Changes ref c (m >>= fun _ => Pure.pure PUnit.unit) change :=
    h.bind fun _ => pure PUnit.unit
  rwa [← map_eq_pure_bind] at mapped

theorem all {ι : Type} {m : ι → Action World Unit}
    {change : ι → (CacheKey → Option Entry) → CacheKey → Option Entry}
    (h : ∀ i, Changes ref c (m i) (change i)) (items : List ι) :
    Changes ref c (all (items.map m)) fun old => items.foldl (fun old i => change i old) old := by
  induction items with
  | nil => exact pure ()
  | cons i items ih =>
    intro w shaped
    obtain ⟨⟨_, ok⟩, became⟩ := h i w shaped
    have shaped' : (m i w).state.shape ref.serial = some c := by
      rw [became.shape_eq, shaped]
    obtain ⟨⟨_, ok'⟩, became'⟩ := ih (m i w).state shaped'
    rw [became.contents_eq, update_idem, update_self] at became'
    refine ⟨⟨(), ?_⟩, became.trans became'⟩
    simp only [List.map_cons, Action.all, both, ok, ok']
    rfl

end Changes

end World
end StatementCache
