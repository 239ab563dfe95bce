import StatementCache.Cache.Chain
import StatementCache.Proofs.Triple

/-! What a cache hands out is what was put into it. A store guards a property of entries when all
its operations keep a property of the state and every entry found there has the property of
entries; each layer guards what the store below it guards, because its own bookkeeping decides
only what goes away. -/
namespace StatementCache

open StatementCache.Action

namespace Store

variable {σ τ : Type}

def Found (I : σ → Prop) (P : CacheKey → Entry → Prop) (k : CacheKey)
    (r : Except Fault (Option Entry)) (s : σ) : Prop :=
  I s ∧ ∀ e, r = .ok (some e) → P k e

structure Guards (store : Store σ) (I : σ → Prop) (P : CacheKey → Entry → Prop) : Prop where
  put : ∀ k e, P k e → Keeps I (store.put k e)
  get : ∀ k, Meets I (store.get k) (Found I P k)
  remove : ∀ k, Meets I (store.remove k) (Found I P k)
  clear : Keeps I store.clear
  assign : ∀ name value, Keeps I (store.assign name value)

variable {I : σ → Prop} {P : CacheKey → Entry → Prop} {k : CacheKey}

theorem Found.keeps {α : Type} {m : Action σ α} {Q : Except Fault α → σ → Prop}
    (h : Meets I m fun r s => I s ∧ Q r s) : Keeps I m := fun s hs => (h s hs).1

theorem Guards.keeps_remove {store : Store σ} (h : store.Guards I P) (k : CacheKey) :
    Keeps I (store.remove k) := Found.keeps (h.remove k)

theorem Found.after {α : Type} {m : Action σ α} {f : α → Action σ (Option Entry)}
    (first : Keeps I m) (next : ∀ a, Meets I (f a) (Found I P k)) :
    Meets I (m >>= f) (Found I P k) :=
  Meets.bind first next fun _ _ hs => ⟨hs, fun _ h => by cases h⟩

theorem Found.before {m : Action σ (Option Entry)} {f : Option Entry → Action σ (Option Entry)}
    (lookup : Meets I m (Found I P k))
    (next : ∀ found, (∀ e, found = some e → P k e) → Meets I (f found) (Found I P k)) :
    Meets I (m >>= f) (Found I P k) := by
  refine Meets.bind lookup (fun found s hs => ?_) fun _ _ hs => ⟨hs.1, fun _ h => by cases h⟩
  exact next found (fun e h => hs.2 e (congrArg Except.ok h)) s hs.1

theorem Found.pure {found : Option Entry} (h : ∀ e, found = some e → P k e) :
    Meets I (Pure.pure found : Action σ (Option Entry)) (Found I P k) :=
  fun _ hs => ⟨hs, fun e he => h e (Except.ok.inj he)⟩

theorem Found.absent : Meets I (Pure.pure none : Action σ (Option Entry)) (Found I P k) :=
  Found.pure fun _ h => by cases h

theorem Found.fail (e : Fault) :
    Meets I (Action.fail e : Action σ (Option Entry)) (Found I P k) :=
  fun _ hs => ⟨hs, fun _ h => by cases h⟩

theorem Found.onSecond {I : τ → Prop} {m : Action τ (Option Entry)} (h : Meets I m (Found I P k)) :
    Meets (fun s => I s.2) (Action.onSecond m : Action (σ × τ) (Option Entry))
      (Found (fun s => I s.2) P k) :=
  fun s hs => h s.2 hs

end Store

namespace Layer

open Store

variable {τ : Type} {inner : Store τ} {I : τ → Prop} {P : CacheKey → Entry → Prop}

theorem keeps_removeEach (remove : ∀ k, Keeps I (inner.remove k)) (ks : List CacheKey) :
    Keeps I (removeEach inner ks) := by
  induction ks with
  | nil => exact Keeps.pure ()
  | cons k ks ih => exact (Keeps.discard (remove k)).bind fun _ => ih

theorem keeps_popLeast (h : inner.Guards I P) (count : Nat) :
    Keeps (fun s : Recency × τ => I s.2) (popLeast inner count) := by
  induction count with
  | zero => exact Keeps.pure ()
  | succ count ih =>
    refine (Keeps.onFirst I _).bind fun old => ?_
    cases old with
    | none => exact Keeps.pure ()
    | some k => exact (Keeps.discard (Keeps.onSecond (h.keeps_remove k))).bind fun _ => ih

theorem guards_lru (h : inner.Guards I P) : (lru inner).Guards (fun s => I s.2) P where
  put k e he := by
    refine (Keeps.onSecond (h.put k e he)).bind fun _ => (Keeps.onFirst I _).bind fun old => ?_
    cases old with
    | none => exact Keeps.pure ()
    | some k => exact Keeps.discard (Keeps.onSecond (h.keeps_remove k))
  get k := Found.after (Keeps.onFirst I _) fun _ => Found.onSecond (h.get k)
  remove k := Found.after (Keeps.onFirst I _) fun _ => Found.onSecond (h.remove k)
  clear := (Keeps.onFirst I _).bind fun _ => Keeps.onSecond h.clear
  assign name value := by
    unfold lru
    dsimp only
    split
    · refine (Keeps.ofExcept _).bind fun capacity => ?_
      refine Keeps.bind (Keeps.get.bind fun s => ?_) fun _ => Keeps.pure true
      exact (keeps_popLeast h _).bind fun _ => Keeps.onFirst I _
    · exact Keeps.pure false

theorem guards_fifo (h : inner.Guards I P) : (fifo inner).Guards (fun s => I s.2) P where
  put k e he := (Keeps.onSecond (h.put k e he)).bind fun _ =>
    (Keeps.onFirst I _).bind fun leaving => Keeps.onSecond (keeps_removeEach h.keeps_remove leaving)
  get k := Found.onSecond (h.get k)
  remove k := Found.after (Keeps.onFirst I _) fun _ => Found.onSecond (h.remove k)
  clear := (Keeps.onFirst I _).bind fun _ => Keeps.onSecond h.clear
  assign name value := by
    unfold fifo
    dsimp only
    split
    · refine (Keeps.ofExcept _).bind fun capacity => (Keeps.onFirst I _).bind fun leaving => ?_
      exact (Keeps.onSecond (keeps_removeEach h.keeps_remove leaving)).bind fun _ => Keeps.pure true
    · exact Keeps.pure false

theorem keeps_drainEach (remove : ∀ k, Keeps I (inner.remove k)) (ks : List CacheKey) :
    Keeps (fun s : Tiers × τ => I s.2) (drainEach inner ks) := by
  induction ks with
  | nil => exact Keeps.pure 0
  | cons k ks ih =>
    refine (Keeps.onFirst I _).bind fun _ => Keeps.get.bind fun s => ?_
    split
    · exact ih
    · exact (Keeps.discard (Keeps.onSecond (remove k))).bind fun _ =>
        ih.bind fun _ => Keeps.pure _

theorem keeps_drain (remove : ∀ k, Keeps I (inner.remove k)) :
    Keeps (fun s : Tiers × τ => I s.2) (drain inner) :=
  Keeps.get.bind fun _ => keeps_drainEach remove _

theorem guards_tiered (now : Nat) (h : inner.Guards I P) :
    (tiered now inner).Guards (fun s => I s.2) P where
  put k e he := (Keeps.discard (keeps_drain h.keeps_remove)).bind fun _ =>
    (Keeps.onSecond (h.put k e he)).bind fun _ => Keeps.onFirst I _
  get k := by
    refine Found.after (Keeps.discard (keeps_drain h.keeps_remove)) fun _ => ?_
    refine Found.before (Found.onSecond (h.get k)) fun found he => ?_
    cases found with
    | none => exact Found.absent
    | some e =>
      refine Found.after Keeps.get fun s => ?_
      split
      · exact Found.pure he
      · refine Found.after (Keeps.onFirst I _) fun young => ?_
        cases young with
        | true => exact Found.after (Keeps.onFirst I _) fun _ => Found.pure he
        | false =>
          refine Found.after (Keeps.onFirst I _) fun _ => ?_
          exact Found.after (Keeps.discard (Keeps.onSecond (h.keeps_remove k))) fun _ => Found.absent
  remove k := Found.after (Keeps.discard (keeps_drain h.keeps_remove)) fun _ =>
    Found.after (Keeps.onFirst I _) fun _ => Found.onSecond (h.remove k)
  clear := (Keeps.onFirst I _).bind fun _ => Keeps.onSecond h.clear
  assign name value := by
    unfold tiered
    dsimp only
    split <;> first
      | exact Keeps.pure false
      | exact (Keeps.ofExcept _).bind fun _ => (Keeps.onFirst I _).bind fun _ => Keeps.pure true

theorem keeps_clearWhenStale (now : Nat) (clear : Keeps I inner.clear) :
    Keeps (fun s : Schedule × τ => I s.2) (clearWhenStale now inner) := by
  refine Keeps.get.bind fun (schedule, _) => ?_
  dsimp only
  split
  · exact Keeps.pure false
  · exact (Keeps.onSecond clear).bind fun _ => (Keeps.onFirst I _).bind fun _ => Keeps.pure true

theorem guards_scheduled (now : Nat) (h : inner.Guards I P) :
    (scheduled now inner).Guards (fun s => I s.2) P where
  put k e he := (Keeps.discard (keeps_clearWhenStale now h.clear)).bind fun _ =>
    Keeps.onSecond (h.put k e he)
  get k := by
    refine Found.after (keeps_clearWhenStale now h.clear) fun stale => ?_
    cases stale with
    | true => exact Found.absent
    | false => exact Found.onSecond (h.get k)
  remove k := Found.after (Keeps.discard (keeps_clearWhenStale now h.clear)) fun _ =>
    Found.onSecond (h.remove k)
  clear := (Keeps.onSecond h.clear).bind fun _ => Keeps.onFirst I _
  assign name value := by
    unfold scheduled
    dsimp only
    split
    · exact (Keeps.ofExcept _).bind fun _ => (Keeps.onFirst I _).bind fun _ => Keeps.pure true
    · exact Keeps.pure false

theorem guards_counted (h : inner.Guards I P) : (counted inner).Guards (fun s => I s.2) P where
  put k e he := Keeps.onSecond (h.put k e he)
  get k := by
    refine Found.after (Keeps.onFirst I _) fun _ => ?_
    refine Found.before (Found.onSecond (h.get k)) fun found he => ?_
    split
    · exact Found.after (Keeps.onFirst I _) fun _ => Found.pure he
    · exact Found.pure he
  remove k := Found.onSecond (h.remove k)
  clear := Keeps.onSecond h.clear
  assign _ _ := Keeps.pure false

theorem guards_synchronized (h : inner.Guards I P) : (synchronized inner).Guards I P where
  put := h.put
  get := h.get
  remove := h.remove
  clear := h.clear
  assign _ _ := Keeps.pure false

theorem guards_blocking (thread : Thread) (h : inner.Guards I P) :
    (blocking thread inner).Guards (fun s => I s.2) P where
  put k e he := fun s hs => h.put k e he s.2 hs
  get k := by
    refine Found.after (Keeps.onFirst I _) fun _ => ?_
    refine Meets.bind (Q := fun r s => I s.2 ∧ ∀ e, r = .ok (.ok (some e)) → P k e) ?_ ?_ ?_
    · intro s hs
      have lookup := h.get k s.2 hs
      exact ⟨lookup.1, fun e he => lookup.2 e (Except.ok.inj he)⟩
    · intro answer s hs
      cases answer with
      | error e => exact Found.after (Keeps.onFirst I _) (fun _ => Found.fail e) s hs.1
      | ok found =>
        have he : ∀ e, found = some e → P k e := fun e h => hs.2 e (by rw [h])
        dsimp only
        split
        · exact Found.after (Keeps.onFirst I _) (fun _ => Found.pure he) s hs.1
        · exact ⟨hs.1, fun e h => he e (Except.ok.inj h)⟩
    · exact fun _ _ hs => ⟨hs.1, fun _ h => by cases h⟩
  remove k := fun s hs => h.remove k s.2 hs
  clear := Keeps.onSecond h.clear
  assign name value := by
    unfold blocking
    dsimp only
    split
    · exact (Keeps.ofExcept _).bind fun _ => (Keeps.onFirst I _).bind fun _ => Keeps.pure true
    · exact Keeps.pure false

def Copyable (P : CacheKey → Entry → Prop) : Prop :=
  ∀ id k e e', (encode id e = .ok e' ∨ decode id e = .ok e') → P k e → P k e'

theorem Copyable.decodeFound (copy : Copyable P) {id : String} {k : CacheKey}
    {m : Action τ (Option Entry)} (h : Meets I m (Found I P k)) :
    Meets I (m >>= fun found => Action.ofExcept (decodeFound id found)) (Found I P k) := by
  refine Found.before h fun found he s hs => ⟨hs, fun e heq => ?_⟩
  cases found with
  | none => cases heq
  | some stored =>
    simp only [ofExcept_apply, Layer.decodeFound] at heq
    cases hd : decode id stored with
    | error d => rw [hd] at heq; cases heq
    | ok shown =>
      rw [hd] at heq
      cases heq
      exact copy id k stored _ (.inr hd) (he stored rfl)

theorem guards_serialized (copy : Copyable P) (h : inner.Guards I P) :
    (serialized inner).Guards I P where
  put k e he := by
    intro s hs
    cases hc : encode inner.id e with
    | error d => simpa [serialized, bind_apply, hc] using hs
    | ok stored =>
      simpa [serialized, bind_apply, hc] using h.put k stored (copy _ k e stored (.inl hc) he) s hs
  get k := copy.decodeFound (h.get k)
  remove k := copy.decodeFound (h.remove k)
  clear := h.clear
  assign _ _ := Keeps.pure false

theorem guards_base (id : String) :
    (base id).Guards (fun entries => ∀ k e, entries.get? k = some e → P k e) P where
  put k e he entries hs j f hf := by
    simp only [base, modify_apply, Table.get?_insert] at hf
    split at hf
    · rename_i same
      cases hf
      exact same ▸ he
    · exact hs j f hf
  get k entries hs := ⟨hs, fun e he => hs k e (Except.ok.inj he)⟩
  remove k entries hs := by
    refine ⟨fun j e he => ?_, fun e he => hs k e (Except.ok.inj he)⟩
    simp only [base, total_apply, Table.get?_erase] at he
    split at he
    · cases he
    · exact hs j e he
  clear _ _ k e he := by simp [base] at he
  assign _ _ := Keeps.pure false

end Layer
end StatementCache
