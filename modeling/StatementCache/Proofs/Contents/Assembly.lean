import StatementCache.Cache.Blueprint
import StatementCache.Proofs.Contents.Chain

/-! Assembly from the store and the layers that are always there gives a built-in chain with
nothing in it, whatever the description asks for. -/
namespace StatementCache

open StatementCache.Action

namespace Cache

variable {ω : Type}

theorem Pristine.under {c : Cache} (h : c.Pristine) (wrapped : Cache)
    (builtIn : wrapped.chain.BuiltIn) (same : wrapped.entries = c.entries) : wrapped.Pristine :=
  ⟨builtIn, fun _ _ _ _ _ _ h => h, fun k e hk => h.entry k e (same ▸ hk)⟩

theorem pristine_base (id : String) : (base id).Pristine :=
  ⟨trivial, fun _ _ _ _ _ _ h => h, fun _ _ h => by cases h⟩

theorem gives_pristine_assign (site : Site ω) (name value : String) {c : Cache} (h : c.Pristine) :
    Gives (fun r : Bool × Cache => r.2.Pristine) (c.assign site name value) := by
  intro w r hr
  have guards := c.chain.guards_store site (fun _ => True) h.builtIn h.copyable
  have kept := guards.assign name value (c.state, w) ⟨h.entry, trivial⟩
  simp only [assign] at hr
  cases ho : ((c.chain.store site).assign name value (c.state, w)).result with
  | error e => rw [ho] at hr; cases hr
  | ok known =>
    rw [ho] at hr
    cases hr
    exact ⟨h.builtIn, h.copyable, kept.1⟩

end Cache

namespace CacheFactories

theorem store_builtIn {name : String} {make : String → Cache} (h : builtIn.store name = .ok make) :
    make = Cache.base := by
  simp only [store, builtIn, registerStore, registerDecorator, Table.get?_insert,
    Table.get?_empty] at h
  split at h
  · rename_i found
    split at found
    · cases h; cases found; rfl
    · cases found
  · cases h

theorem decorator_builtIn {name : String} {wrap : Cache → Cache}
    (h : builtIn.decorator name = .ok wrap) {c : Cache} (hc : c.Pristine) : (wrap c).Pristine := by
  simp only [decorator, builtIn, registerStore, registerDecorator, Table.get?_insert,
    Table.get?_empty] at h
  split at h
  · rename_i found
    cases h
    split at found
    · cases found; exact hc.under _ hc.builtIn rfl
    split at found
    · cases found; exact hc.under _ hc.builtIn rfl
    split at found
    · cases found; exact hc.under _ hc.builtIn rfl
    split at found
    · cases found; exact hc.under _ hc.builtIn rfl
    · cases found
  · cases h

end CacheFactories

namespace Blueprint

variable {ω : Type} {site : Site ω} {f : CacheFactories} {b : Blueprint} {P Q : Cache → Prop}

structure Assembles (b : Blueprint) (site : Site ω) (f : CacheFactories) (P Q : Cache → Prop) :
    Prop where
  store : ∀ name make, f.store name = .ok make → P (make b.id)
  assign : ∀ c name value, P c → Gives (fun r : Bool × Cache => P r.2) (c.assign site name value)
  decorator : ∀ name wrap, f.decorator name = .ok wrap → ∀ c, P c → P (wrap c)
  scheduled : ∀ interval now c, P c → P (Cache.scheduled interval now c)
  serialized : ∀ c, P c → P c.serialized
  covered : ∀ c, P c → P c.counted.synchronized
  /-- A store of another name than the default one. -/
  custom : ∀ name make, f.store name = .ok make → name.toUpper ≠ CacheFactories.defaultStore →
    ∀ c, P c → Q c.counted
  plain : b.blocking = false → ∀ c, P c → Q c
  blocking : b.blocking = true → ∀ c, P c → Q (c.blocking b.blockingTimeout)
  assign_blocking : b.blocking = true → ∀ c name value, Q c →
    Gives (fun r : Bool × Cache => Q r.2) (c.assign site name value)

theorem gives_offer
    (assign : ∀ c name value, P c →
      Gives (fun r : Bool × Cache => P r.2) (c.assign site name value))
    (properties : List (String × String)) {d : Draft} (h : P d.cache) :
    Gives (fun d : Draft => P d.cache) (offer site properties d) := by
  induction properties generalizing d with
  | nil => exact Gives.pure h
  | cons p rest ih => exact Gives.bind (assign d.cache p.1 p.2 h) fun r hr => ih hr

namespace Assembles

variable (h : b.Assembles site f P Q) {d : Draft}

include h

theorem gives_add {wrap : Cache → Cache} (wrapped : P (wrap d.cache)) :
    Gives (fun d : Draft => P d.cache) (b.add site wrap d) :=
  gives_offer h.assign _ wrapped

theorem gives_addEach (names : List String) (hd : P d.cache) :
    Gives (fun d : Draft => P d.cache) (b.addEach site f names d) := by
  induction names generalizing d with
  | nil => exact Gives.pure hd
  | cons name rest ih =>
    refine Gives.bind (Q := fun wrap => P (wrap d.cache)) ?_ fun wrap wrapped => ?_
    · exact fun _ wrap found => h.decorator name wrap found d.cache hd
    · exact Gives.bind (h.gives_add wrapped) fun d hd => ih hd

theorem gives_applySize (hd : P d.cache) :
    Gives (fun d : Draft => P d.cache) (b.applySize site d) := by
  unfold applySize
  split
  · exact Gives.pure hd
  · exact Gives.bind (h.assign _ _ _ hd) fun r hr => Gives.pure hr

theorem gives_addStandard (hd : P d.cache) :
    Gives (fun d : Draft => Q d.cache) (b.addStandard site d) := by
  have rest (d : Draft) (hd : P d.cache) : Gives (fun d : Draft => Q d.cache) (
      let cache := if b.copyOnRead then d.cache.serialized else d.cache
      let d : Draft := { d with cache := cache.counted.synchronized }
      if b.blocking then b.add site (Cache.blocking b.blockingTimeout) d
      else (pure d : Action ω Draft)) := by
    have copied : P (if b.copyOnRead then d.cache.serialized else d.cache) := by
      split
      · exact h.serialized d.cache hd
      · exact hd
    have covered := h.covered _ copied
    dsimp only
    split
    · rename_i blocks
      exact gives_offer (h.assign_blocking blocks) _ (h.blocking blocks _ covered)
    · rename_i plain
      exact Gives.pure (h.plain (Bool.eq_false_iff.mpr plain) _ covered)
  unfold addStandard
  cases b.clearInterval with
  | none => exact Gives.bind (Gives.pure hd) rest
  | some interval => exact Gives.bind (h.gives_add (h.scheduled interval site.now _ hd)) rest

theorem of_build {w w' : ω} {c : Cache} (built : b.build site f w = ⟨.ok c, w'⟩) : Q c := by
  suffices Gives Q (b.build site f) from this w c (by rw [built])
  let name := b.implementation.getD CacheFactories.defaultStore
  refine Gives.bind (Q := fun make => f.store name = .ok make) ?_ fun make made => ?_
  · exact fun _ make made => made
  · dsimp only
    split
    · exact Gives.fail _
    · refine Gives.bind (h.gives_add (h.store _ make made)) fun d hd => ?_
      split
      · rename_i custom
        exact Gives.pure (h.custom _ make made custom d.cache hd)
      · refine Gives.bind (h.gives_addEach _ hd) fun d hd => ?_
        refine Gives.bind (h.gives_applySize hd) fun d hd => ?_
        refine Gives.bind (h.gives_addStandard hd) fun d hd => ?_
        split
        · exact Gives.pure hd
        · exact Gives.fail _

end Assembles

theorem assembles_pristine (b : Blueprint) (site : Site ω) :
    b.Assembles site CacheFactories.builtIn Cache.Pristine Cache.Pristine where
  store _ _ made := CacheFactories.store_builtIn made ▸ Cache.pristine_base b.id
  assign _ name value h := Cache.gives_pristine_assign site name value h
  decorator _ _ found _ h := CacheFactories.decorator_builtIn found h
  scheduled _ _ _ h := h.under _ h.builtIn rfl
  serialized _ h := h.under _ h.builtIn rfl
  covered _ h := h.under _ h.builtIn rfl
  custom _ _ _ _ _ h := h.under _ h.builtIn rfl
  plain _ _ h := h
  blocking _ _ h := h.under _ h.builtIn rfl
  assign_blocking _ _ name value h := Cache.gives_pristine_assign site name value h

theorem pristine_of_build {w w' : ω} {c : Cache}
    (h : b.build site CacheFactories.builtIn w = ⟨.ok c, w'⟩) : c.Pristine :=
  (assembles_pristine b site).of_build h

end Blueprint
end StatementCache
