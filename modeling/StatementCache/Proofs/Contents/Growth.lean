import StatementCache.Proofs.Contents.World

/-! Caches of any layers, those among them that report what they do, refuse it or stand on another
cache. Whatever is done to them, nothing is taken back from the report, and nothing is added to it
but operations of caches. -/
namespace StatementCache

open StatementCache.Action Store

def Event.ofCache : Event → Bool
  | .put _ | .get | .remove | .clear | .tag _ => true
  | .query _ _ | .execute _ _ | .commit | .rollback | .close => false

namespace Store

variable {σ : Type} {store : Store σ} {I : σ → Prop}

abbrev Keeping (store : Store σ) (I : σ → Prop) : Prop := store.Guards I fun _ _ => True

theorem keeping_of (put : ∀ k e, Keeps I (store.put k e)) (get : ∀ k, Keeps I (store.get k))
    (remove : ∀ k, Keeps I (store.remove k)) (clear : Keeps I store.clear)
    (assign : ∀ name value, Keeps I (store.assign name value)) : store.Keeping I where
  put k e _ := put k e
  get k s hs := ⟨get k s hs, fun _ _ => trivial⟩
  remove k s hs := ⟨remove k s hs, fun _ _ => trivial⟩
  clear := clear
  assign := assign

theorem Guards.keeps_get {P : CacheKey → Entry → Prop} (h : store.Guards I P) (k : CacheKey) :
    Keeps I (store.get k) := Found.keeps (h.get k)

theorem Guards.keeping_and (h : store.Keeping I) (p : Prop) : store.Keeping fun s => p ∧ I s :=
  keeping_of (fun k e s hs => ⟨hs.1, h.put k e trivial s hs.2⟩)
    (fun k s hs => ⟨hs.1, h.keeps_get k s hs.2⟩) (fun k s hs => ⟨hs.1, h.keeps_remove k s hs.2⟩)
    (fun s hs => ⟨hs.1, h.clear s hs.2⟩) fun name value s hs => ⟨hs.1, h.assign name value s hs.2⟩

theorem keeping_unavailable (id : String) : (unavailable id : Store σ).Keeping I :=
  keeping_of (fun _ _ => Keeps.fail _) (fun _ => Keeps.fail _) (fun _ => Keeps.fail _)
    (Keeps.fail _) fun _ _ => Keeps.pure false

end Store

namespace Layer

variable {τ : Type} {inner : Store τ} {I : τ → Prop} {P : CacheKey → Entry → Prop}

theorem guards_recording {note : Event → Action τ Unit}
    (noted : ∀ e, e.ofCache = true → Keeps I (note e)) (h : inner.Guards I P) :
    (recording note inner).Guards I P where
  put k e he := (noted _ rfl).bind fun _ => h.put k e he
  get k := Found.after (noted _ rfl) fun _ => h.get k
  remove k := Found.after (noted _ rfl) fun _ => h.remove k
  clear := (noted _ rfl).bind fun _ => h.clear
  assign name value := by
    simp only [recording]
    split
    · exact (noted _ rfl).bind fun _ => Keeps.pure true
    · exact Keeps.pure false

theorem guards_faulty {permit : Operation → Action τ Unit} (permitted : ∀ op, Keeps I (permit op))
    (h : inner.Guards I P) : (faulty permit inner).Guards I P where
  put k e he := (permitted _).bind fun _ => h.put k e he
  get k := Found.after (permitted _) fun _ => h.get k
  remove k := Found.after (permitted _) fun _ => h.remove k
  clear := (permitted _).bind fun _ => h.clear
  assign _ _ := Keeps.pure false

end Layer

structure Site.Keeping {ω : Type} (site : Site ω) (J : ω → Prop) : Prop where
  note : ∀ e, e.ofCache = true → Keeps J (site.note e)
  permit : ∀ op, Keeps J (site.permit op)
  shared : ∀ ref, (site.shared ref).Keeping J

theorem Chain.keeping_store_over {ω : Type} {site : Site ω} {J : ω → Prop}
    (note : ∀ e, e.ofCache = true → Keeps J (site.note e))
    (permit : ∀ op, Keeps J (site.permit op)) (c : Chain)
    (shared : ∀ ref, c.target? = some ref → (site.shared ref).Keeping J) :
    (c.store site).Keeping fun s => J s.2 := by
  induction c with
  | base id =>
    exact keeping_of (fun _ _ _ hs => hs) (fun _ _ hs => hs) (fun _ _ hs => hs) (fun _ hs => hs)
      fun _ _ _ hs => hs
  | shared target =>
    have reached :=
      (shared target rfl).regroup (fun s : Unit × ω => s.2) (fun w => ((), w)) fun _ => rfl
    exact { reached with assign := fun _ _ => Keeps.pure false }
  | lru inner ih => exact guards_stacked (Layer.guards_lru (ih shared))
  | fifo inner ih => exact guards_stacked (Layer.guards_fifo (ih shared))
  | tiered inner ih => exact guards_stacked (Layer.guards_tiered site.now (ih shared))
  | scheduled inner ih => exact guards_stacked (Layer.guards_scheduled site.now (ih shared))
  | serialized inner ih => exact Layer.guards_serialized (fun _ _ _ _ _ _ => trivial) (ih shared)
  | counted inner ih => exact guards_stacked (Layer.guards_counted (ih shared))
  | synchronized inner ih => exact Layer.guards_synchronized (ih shared)
  | blocking inner ih => exact guards_stacked (Layer.guards_blocking site.thread (ih shared))
  | recording inner ih =>
    exact Layer.guards_recording (fun e he => Keeps.onSecond (note e he)) (ih shared)
  | faulty inner ih =>
    exact Layer.guards_faulty (fun op => Keeps.onSecond (permit op)) (ih shared)

theorem Chain.keeping_store {ω : Type} {site : Site ω} {J : ω → Prop} (h : site.Keeping J)
    (c : Chain) : (c.store site).Keeping fun s => J s.2 :=
  c.keeping_store_over h.note h.permit fun ref _ => h.shared ref

namespace World

variable {L : List Event → Prop} {host : Host} {ref : CacheRef}

theorem keeps_log_onCache {α : Type} {m : (c : Cache) → Action (c.chain.State × World) α}
    (h : ∀ c, Keeps (fun s => L s.2.log) (m c)) : Keeps (fun w => L w.log) (onCache ref m) := by
  intro w hw
  unfold onCache
  split
  · exact hw
  · rename_i c _
    exact h c (c.state, w) hw

theorem keeping_storeVia {site : Site World} (h : site.Keeping fun w => L w.log) (ref : CacheRef) :
    (storeVia site ref).Keeping fun w => L w.log :=
  keeping_of
    (fun k e => keeps_log_onCache fun c => (c.chain.keeping_store h).put k e trivial)
    (fun k => keeps_log_onCache fun c => (c.chain.keeping_store h).keeps_get k)
    (fun k => keeps_log_onCache fun c => (c.chain.keeping_store h).keeps_remove k)
    (keeps_log_onCache fun c => (c.chain.keeping_store h).clear)
    fun _ _ => Keeps.pure false

section

variable (noted : ∀ log e, e.ofCache = true → L log → L (log ++ [e]))

include noted in
theorem keeping_siteAt (host : Host) (depth : Nat) :
    (siteAt host depth).Keeping fun w => L w.log := by
  have noted (e : Event) (he : e.ofCache = true) :
      Keeps (fun w : World => L w.log) (Action.modify (report e)) :=
    fun w hw => noted w.log e he hw
  have permitted (op : Operation) : Keeps (fun w : World => L w.log) (permit host op) :=
    fun _ hw => hw
  induction depth with
  | zero => exact ⟨noted, permitted, fun ref => keeping_unavailable ref.id⟩
  | succ depth ih => exact ⟨noted, permitted, keeping_storeVia ih⟩

include noted in
theorem keeping_log (host : Host) (ref : CacheRef) :
    (store host ref).Keeping fun w => L w.log := keeping_storeVia (keeping_siteAt noted host _) ref

end

def Reports (floor : List Event) (w : World) : Prop := floor <+: w.log

theorem keeping_store {floor : List Event} (host : Host) (ref : CacheRef) :
    (store host ref).Keeping (Reports floor) :=
  keeping_log (L := (floor <+: ·)) (fun _ _ _ h => h.trans (List.prefix_append _ _)) host ref

end World

end StatementCache
