import StatementCache.Proofs.Contents.Chain
import StatementCache.Proofs.Contents.Retention

/-! Built-in chains of any height are faithful. The layers are added one by one to an empty map, in
any order. -/
namespace StatementCache

open StatementCache.Action Store

namespace Chain

variable {ω : Type}

def CopiesOnce : Chain → Prop
  | .base _ | .shared _ => True
  | .serialized inner => inner.copies = false
  | .lru inner | .fifo inner | .tiered inner | .scheduled inner | .counted inner
  | .synchronized inner | .blocking inner | .recording inner | .faulty inner => CopiesOnce inner

def held : (c : Chain) → c.State → CacheKey → Option Entry
  | .base _, s => Table.get? s
  | .shared _, _ => fun _ => none
  | .serialized inner, s => fun k =>
    (held inner s k).bind fun stored => (Layer.decode inner.id stored).toOption
  | .lru inner, s => held inner (Prod.snd s)
  | .fifo inner, s => held inner (Prod.snd s)
  | .tiered inner, s => held inner (Prod.snd s)
  | .scheduled inner, s => held inner (Prod.snd s)
  | .counted inner, s => held inner (Prod.snd s)
  | .synchronized inner, s => held inner s
  | .blocking inner, s => held inner (Prod.snd s)
  | .recording inner, s => held inner s
  | .faulty inner, s => held inner s

def sound : (c : Chain) → c.State → Prop
  | .base _, _ | .shared _, _ => True
  | .lru inner, s =>
    (Prod.fst s : Recency).Covers (held inner (Prod.snd s)) ∧ sound inner (Prod.snd s)
  | .fifo inner, s =>
    (Prod.fst s : Arrivals).Covers (held inner (Prod.snd s)) ∧ sound inner (Prod.snd s)
  | .tiered inner, s =>
    (Prod.fst s : Tiers).Covers (held inner (Prod.snd s)) ∧ sound inner (Prod.snd s)
  | .serialized inner, s =>
    (∀ k stored, held inner s k = some stored → ∃ e : Entry, e.Plain ∧ e.image = stored) ∧
      sound inner s
  | .scheduled inner, s => sound inner (Prod.snd s)
  | .counted inner, s => sound inner (Prod.snd s)
  | .synchronized inner, s => sound inner s
  | .blocking inner, s => sound inner (Prod.snd s)
  | .recording inner, s => sound inner s
  | .faulty inner, s => sound inner s

def due (now : Nat) : (c : Chain) → c.State → Prop
  | .base _, _ | .shared _, _ => False
  | .scheduled inner, s =>
    (Prod.fst s : Schedule).interval ≤ now - (Prod.fst s : Schedule).lastClear ∨
      due now inner (Prod.snd s)
  | .lru inner, s => due now inner (Prod.snd s)
  | .fifo inner, s => due now inner (Prod.snd s)
  | .tiered inner, s => due now inner (Prod.snd s)
  | .serialized inner, s => due now inner s
  | .counted inner, s => due now inner (Prod.snd s)
  | .synchronized inner, s => due now inner s
  | .blocking inner, s => due now inner (Prod.snd s)
  | .recording inner, s => due now inner s
  | .faulty inner, s => due now inner s

def late (now : Nat) : (c : Chain) → c.State → Prop
  | .scheduled inner, s => due now inner (Prod.snd s)
  | c, s => due now c s

def limits : (c : Chain) → c.State → List Nat
  | .base _, _ | .shared _, _ => []
  | .lru inner, s => (Prod.fst s : Recency).capacity :: limits inner (Prod.snd s)
  | .fifo inner, s =>
    (Prod.fst s : Arrivals).capacity :: limits inner (Prod.snd s)
  | .tiered inner, s =>
    ((Prod.fst s : Tiers).hotSize + (Prod.fst s : Tiers).warmCapacity) :: limits inner (Prod.snd s)
  | .scheduled inner, s => limits inner (Prod.snd s)
  | .serialized inner, s => limits inner s
  | .counted inner, s => limits inner (Prod.snd s)
  | .synchronized inner, s => limits inner s
  | .blocking inner, s => limits inner (Prod.snd s)
  | .recording inner, s => limits inner s
  | .faulty inner, s => limits inner s

theorem due_of_late {now : Nat} {c : Chain} {s : c.State} (h : c.late now s) : c.due now s := by
  cases c with
  | scheduled inner => exact .inr h
  | _ => exact h

theorem due_mono {now later : Nat} (forward : now ≤ later) (c : Chain) (s : c.State)
    (h : c.due now s) : c.due later s := by
  induction c with
  | base _ | shared _ => exact h
  | scheduled inner ih =>
    exact h.imp (fun passed => Nat.le_trans passed (Nat.sub_le_sub_right forward _)) (ih _)
  | lru inner ih | fifo inner ih | tiered inner ih | counted inner ih | blocking inner ih =>
    exact ih _ h
  | serialized inner ih | synchronized inner ih | recording inner ih | faulty inner ih =>
    exact ih _ h

theorem late_mono {now later : Nat} (forward : now ≤ later) {c : Chain} {s : c.State}
    (h : c.late now s) : c.late later s := by
  cases c with
  | scheduled inner => exact due_mono forward inner _ h
  | _ => exact due_mono forward _ s h

def view (now : Nat) (c : Chain) : View (c.State × ω) where
  sound s := c.sound s.1
  held s := c.held s.1
  due s := c.due now s.1
  late s := c.late now s.1
  limits s := c.limits s.1
  due_of_late _ := due_of_late

theorem faithful_stacked {β σ : Type} {store : Store (β × (σ × ω))} {v : View (β × (σ × ω))}
    {P : Entry → Prop} (h : store.Faithful v P) :
    (stacked store).Faithful (v.comap fun s => (s.1.1, (s.1.2, s.2))) P :=
  h.regroup _ _ fun _ => rfl

theorem adjusts_stacked {β σ : Type} {store : Store (β × (σ × ω))} {v : View (β × (σ × ω))}
    (h : store.Adjusts v) : (stacked store).Adjusts (v.comap fun s => (s.1.1, (s.1.2, s.2))) :=
  h.regroup _ _ fun _ => rfl

theorem copiesOnce_of_copies {c : Chain} (h : c.copies = false) : c.CopiesOnce := by
  induction c with
  | base _ | shared _ => trivial
  | serialized _ _ => cases h
  | lru inner ih | fifo inner ih | tiered inner ih | scheduled inner ih | counted inner ih
  | synchronized inner ih | blocking inner ih | recording inner ih | faulty inner ih => exact ih h

/-- A built-in chain loses entries and nothing else, whatever its layers are and however they are
ordered. Where copies are stored the entries have to be such that can be copied. -/
theorem faithful_store (site : Site ω) (c : Chain) (builtIn : c.BuiltIn) (once : c.CopiesOnce) :
    (c.store site).Faithful (c.view site.now) fun e => c.copies = true → e.Plain := by
  induction c with
  | base id => exact (Layer.faithful_base id).beside
  | shared _ | recording _ _ | faulty _ _ => exact builtIn.elim
  | lru inner ih => exact faithful_stacked (Layer.faithful_lru (ih builtIn once))
  | fifo inner ih => exact faithful_stacked (Layer.faithful_fifo (ih builtIn once))
  | tiered inner ih => exact faithful_stacked (Layer.faithful_tiered site.now (ih builtIn once))
  | scheduled inner ih =>
    exact faithful_stacked (Layer.faithful_scheduled site.now (ih builtIn once))
  | serialized inner ih =>
    have below := (ih builtIn (copiesOnce_of_copies once)).mono (Q := fun _ => True)
      fun _ _ copies => by cases once.symm.trans copies
    exact (Layer.faithful_serialized below inner.id).mono fun e plain => plain rfl
  | counted inner ih => exact faithful_stacked (Layer.faithful_counted (ih builtIn once))
  | synchronized inner ih => exact Layer.faithful_synchronized (ih builtIn once)
  | blocking inner ih =>
    exact faithful_stacked (Layer.faithful_blocking site.thread (ih builtIn once))

theorem adjusts_store (site : Site ω) (c : Chain) (builtIn : c.BuiltIn) (once : c.CopiesOnce) :
    (c.store site).Adjusts (c.view site.now) := by
  cases c with
  | shared _ | recording _ | faulty _ => exact builtIn.elim
  | lru inner =>
    exact adjusts_stacked (Layer.adjusts_lru (faithful_store site inner builtIn once))
  | fifo inner =>
    exact adjusts_stacked (Layer.adjusts_fifo (faithful_store site inner builtIn once))
  | tiered inner =>
    exact adjusts_stacked (v := (inner.view site.now).tiered) (Layer.adjusts_tiered site.now)
  | scheduled inner =>
    exact adjusts_stacked (v := (inner.view site.now).scheduled site.now)
      (Layer.adjusts_scheduled site.now)
  | blocking inner =>
    exact adjusts_stacked (v := (inner.view site.now).passing) (Layer.adjusts_blocking site.thread)
  | base _ | serialized _ | counted _ | synchronized _ =>
    exact Adjusts.of_noSettings fun _ _ => rfl

end Chain
end StatementCache
