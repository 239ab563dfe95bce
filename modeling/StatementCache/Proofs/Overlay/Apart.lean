import StatementCache.Proofs.Contents.Uniform
import StatementCache.Proofs.Locks.Owners
import StatementCache.Proofs.Overlay.Attempts
import StatementCache.Proofs.Overlay.History
import StatementCache.Proofs.Overlay.Paired

/-! Caches that share nothing. What becomes of one of them is decided by what its own users see, and
so is what an overlay does to it; the users of the others notice nothing. -/
namespace StatementCache

open StatementCache.Action

variable {σ : Type}

/-- What the users of each cache can tell apart. Where a state is not even the same as itself,
nothing is said of the cache. -/
structure Sight (σ : Type) where
  Same : Nat → σ → σ → Prop
  symm : ∀ {i s s'}, Same i s s' → Same i s' s
  trans : ∀ {i s s' s''}, Same i s s' → Same i s' s'' → Same i s s''

namespace Sight

variable {i : Nat} {s s' : σ}

theorem left (p : Sight σ) (h : p.Same i s s') : p.Same i s s := p.trans h (p.symm h)

theorem right (p : Sight σ) (h : p.Same i s s') : p.Same i s' s' := p.trans (p.symm h) h

end Sight

/-- The caches of a directory share nothing: what becomes of a cache is decided by what its own
users see, and the users of the others notice nothing. -/
structure Directory.Apart (directory : Directory σ) (p : Sight σ) : Prop where
  uniform : ∀ ref, directory.Uniform ref (p.Same ref.serial)
  foreign : ∀ {ref s store i}, directory ref s = some store → i ≠ ref.serial → ∀ base,
    store.Keeping fun t => p.Same ref.serial t t ∧ p.Same i base t

namespace Overlay

variable {directory : Directory σ} {p : Sight σ} {o : Overlay} {s s' : σ} {i : Nat}

theorem uniform_access (apart : directory.Apart p) (hs : p.Same o.target.serial s s')
    (request : Access) :
    let done := access directory request (o, s)
    let done' := access directory request (o, s')
    done.state.1 = done'.state.1 ∧ p.Same o.target.serial done.state.2 done'.state.2 := by
  cases request with
  | get k =>
    simp only [access, state_discard]
    exact (uniform_get (apart.uniform o.target) hs k).2
  | put k e => exact ⟨rfl, hs⟩
  | clear => exact ⟨rfl, hs⟩

theorem foreign_access (apart : directory.Apart p) (other : i ≠ o.target.serial)
    (own : p.Same o.target.serial s s) (sound : p.Same i s s) (request : Access) :
    p.Same i s (access directory request (o, s)).state.2 := by
  cases request with
  | put k e => exact sound
  | clear => exact sound
  | get k =>
    rw [access, state_discard]
    have kept (store : Store σ) (found : directory o.target s = some store) :=
      (apart.foreign found other s).keeps_get k
    exact (keeps_get kept ⟨own, sound⟩).2

theorem target_access (directory : Directory σ) (request : Access) (o : Overlay) (s : σ) :
    (access directory request (o, s)).state.1.target = o.target := by
  cases request with
  | put k e => rfl
  | clear => rfl
  | get k =>
    rw [access, state_discard]
    rcases fst_get directory k o s with looked | looked
    · rw [looked]
    · rw [looked, target_miss]

theorem uniform_run (apart : directory.Apart p) (hs : p.Same o.target.serial s s')
    (ending : Ending) :
    let done := ending.run directory (o, s)
    let done' := ending.run directory (o, s')
    done.result = done'.result ∧ p.Same o.target.serial done.state.2 done'.state.2 := by
  cases ending with
  | commit =>
    have settled := uniform_settle (fun _ uniform => alike_publish uniform o)
      (apart.uniform o.target) hs
    exact ⟨settled.1.eq, settled.2.2⟩
  | rollback =>
    have settled := uniform_settle (fun _ uniform => alike_releaseMissed uniform o)
      (apart.uniform o.target) hs
    exact ⟨settled.1.eq, settled.2.2⟩

theorem foreign_run (apart : directory.Apart p) (other : i ≠ o.target.serial)
    (own : p.Same o.target.serial s s) (sound : p.Same i s s) (ending : Ending) :
    p.Same i s (ending.run directory (o, s)).state.2 := by
  cases found : directory o.target s with
  | none =>
    rw [run_of_none found]
    exact sound
  | some store =>
    have keeping := apart.foreign found other s
    rw [run_of_some found]
    cases ending with
    | commit =>
      exact (keeps_publish keeping.put keeping.keeps_remove keeping.clear (fun _ _ _ => trivial)
        (fun _ => trivial) s ⟨own, sound⟩).2
    | rollback => exact (keeps_releaseMissed keeping.keeps_remove s ⟨own, sound⟩).2

end Overlay

namespace World

variable {α : Type} {host : Host} {ref : CacheRef}

def ownCaches : Sight World where
  Same i w w' := w.caches.get? i = w'.caches.get? i ∧
    ∀ c, w.caches.get? i = some c → c.chain.target? = none
  symm h := ⟨h.1.symm, fun c found => h.2 c (h.1.trans found)⟩
  trans h h' := ⟨h.1.trans h'.1, h.2⟩

theorem alike_own_onCache {m : (c : Cache) → Action (c.chain.State × World) α}
    (h : ∀ c : Cache, c.chain.target? = none →
      Action.Alike (Beside Eq fun _ _ => True) Eq (m c) (m c)) :
    Action.Alike (ownCaches.Same ref.serial) Eq (onCache ref m) (onCache ref m) := by
  rintro w w' ⟨same, own⟩
  unfold onCache
  rw [← same]
  cases found : w.caches.get? ref.serial with
  | none => exact ⟨.error _, same, own⟩
  | some c =>
    obtain ⟨ends, states⟩ := h c (own c found) (c.state, w) (c.state, w') ⟨rfl, trivial⟩
    refine ⟨ends, ?_, fun c' found' => ?_⟩
    · simp only [Table.get?_insert, if_pos, states.1]
    · simp only [Table.get?_insert, if_pos, Option.some.injEq] at found'
      exact found' ▸ own c found

/-- Where refusals do not depend on how often anybody has asked, a cache that keeps its entries
itself depends on nothing but itself. -/
theorem uniform_own_store (fixed : ∀ n n' op, host.refuses n op = host.refuses n' op)
    (ref : CacheRef) : (store host ref).Uniform (ownCaches.Same ref.serial) := by
  have own (c : Cache) (alone : c.chain.target? = none) :
      (c.chain.store (siteAt host ref.serial)).Uniform (Beside Eq fun _ _ => True) := by
    refine c.chain.uniform_store (fun e => ?_) (fun op => ?_) alone
    · cases ref.serial <;> exact fun _ _ _ => ⟨.ok rfl, trivial⟩
    · have same (w w' : World) : (permit host op w).result = (permit host op w').result := by
        simp only [permit, fixed w.attempts w'.attempts]
      cases ref.serial <;> exact fun w w' _ => ⟨same w w' ▸ .refl _, trivial⟩
  exact ⟨fun k e => alike_own_onCache fun c alone => (own c alone).put k e,
    fun k => alike_own_onCache fun c alone => (own c alone).get k,
    fun k => alike_own_onCache fun c alone => (own c alone).remove k,
    alike_own_onCache fun c alone => (own c alone).clear⟩

theorem keeps_own_onCache {m : (c : Cache) → Action (c.chain.State × World) α}
    (left : ∀ c : Cache, c.chain.target? = none →
      ∀ caches, Keeps (fun s => s.2.caches = caches) (m c))
    {i : Nat} (other : i ≠ ref.serial) (base : World) :
    Keeps (fun w => ownCaches.Same ref.serial w w ∧ ownCaches.Same i base w) (onCache ref m) := by
  rintro w ⟨⟨-, own⟩, same, sound⟩
  unfold onCache
  cases found : w.caches.get? ref.serial with
  | none => exact ⟨⟨rfl, own⟩, same, sound⟩
  | some c =>
    have caches := left c (own c found) w.caches (c.state, w) rfl
    refine ⟨⟨rfl, fun c' found' => ?_⟩, ?_, sound⟩
    · simp only [Table.get?_insert, if_pos, Option.some.injEq] at found'
      exact found' ▸ own c found
    · simp only [Table.get?_insert, caches, if_neg other.symm]
      exact same

theorem keeping_own_store (host : Host) (ref : CacheRef) {i : Nat} (other : i ≠ ref.serial)
    (base : World) :
    (store host ref).Keeping fun w => ownCaches.Same ref.serial w w ∧ ownCaches.Same i base w := by
  have left (c : Cache) (alone : c.chain.target? = none) (caches : Table Nat Cache) :=
    caches_store alone host ref.serial caches
  exact Store.keeping_of
    (fun k e => keeps_own_onCache (fun c own caches => (left c own caches).put k e trivial) other _)
    (fun k => keeps_own_onCache (fun c own caches => (left c own caches).keeps_get k) other _)
    (fun k => keeps_own_onCache (fun c own caches => (left c own caches).keeps_remove k) other _)
    (keeps_own_onCache (fun c own caches => (left c own caches).clear) other _)
    fun _ _ => Keeps.pure false

theorem apart_find? (fixed : ∀ n n' op, host.refuses n op = host.refuses n' op) :
    Directory.Apart (find? host) ownCaches where
  uniform ref := by
    refine ⟨fun w w' h => ?_, fun w cache found => ?_⟩
    · unfold find? isAlive Table.contains
      rw [h.1]
    · exact eq_store_of_find? found ▸ uniform_own_store fixed ref
  foreign found other base := eq_store_of_find? found ▸ keeping_own_store host _ other base

end World
end StatementCache
