import StatementCache.Action

/-! Two runs of an action side by side. States that are alike stay alike, and results are alike:
both runs fail with the same fault, or both succeed. -/
namespace StatementCache

inductive SameEnd {α : Type} (Q : α → α → Prop) : Except Fault α → Except Fault α → Prop where
  | ok {a b : α} (h : Q a b) : SameEnd Q (.ok a) (.ok b)
  | error (e : Fault) : SameEnd Q (.error e) (.error e)

namespace SameEnd

variable {α β : Type} {Q S : α → α → Prop} {r r' : Except Fault α}

theorem refl (r : Except Fault α) : SameEnd Eq r r := by
  cases r with
  | ok a => exact .ok rfl
  | error e => exact .error e

theorem eq (h : SameEnd Eq r r') : r = r' := by
  cases h with
  | ok h => rw [h]
  | error e => rfl

theorem mono (h : SameEnd Q r r') (weaker : ∀ a b, Q a b → S a b) : SameEnd S r r' := by
  cases h with
  | ok h => exact .ok (weaker _ _ h)
  | error e => exact .error e

theorem isOk (h : SameEnd Q r r') : r.isOk = r'.isOk := by
  cases h with
  | ok _ => rfl
  | error e => rfl

theorem bind {f f' : α → Except Fault β} {S : β → β → Prop} (first : SameEnd Q r r')
    (next : ∀ a b, Q a b → SameEnd S (f a) (f' b)) : SameEnd S (r.bind f) (r'.bind f') := by
  cases first with
  | ok h => exact next _ _ h
  | error e => exact .error e

end SameEnd

def Beside {σ τ : Type} (R : σ → σ → Prop) (S : τ → τ → Prop) (s s' : σ × τ) : Prop :=
  R s.1 s'.1 ∧ S s.2 s'.2

namespace Action

variable {σ τ α β : Type}

/-- From states that are alike both actions lead to states that are alike, with results to match. -/
def Alike (R : σ → σ → Prop) (Q : α → α → Prop) (m m' : Action σ α) : Prop :=
  ∀ s s', R s s' → SameEnd Q (m s).result (m' s').result ∧ R (m s).state (m' s').state

namespace Alike

variable {R : σ → σ → Prop} {S : τ → τ → Prop} {Q : α → α → Prop} {P : β → β → Prop}

theorem refl (m : Action σ α) : Alike Eq Eq m m := by
  rintro s _ rfl
  exact ⟨.refl _, rfl⟩

theorem pure {a a' : α} (h : Q a a') : Alike R Q (pure a) (pure a') := fun _ _ hs => ⟨.ok h, hs⟩

theorem fail (e : Fault) : Alike R Q (fail e) (fail e) := fun _ _ hs => ⟨.error e, hs⟩

theorem get : Alike R R (get : Action σ σ) get := fun _ _ hs => ⟨.ok hs, hs⟩

theorem modify {f f' : σ → σ} (h : ∀ s s', R s s' → R (f s) (f' s')) :
    Alike R Eq (modify f) (modify f') := fun s s' hs => ⟨.ok rfl, h s s' hs⟩

theorem total {f f' : σ → α × σ} (h : ∀ s s', R s s' → Q (f s).1 (f' s').1 ∧ R (f s).2 (f' s').2) :
    Alike R Q (total f) (total f') := fun s s' hs => ⟨.ok (h s s' hs).1, (h s s' hs).2⟩

theorem ofExcept {r r' : Except Fault α} (h : SameEnd Q r r') :
    Alike R Q (ofExcept r) (ofExcept r') := fun _ _ hs => ⟨h, hs⟩

theorem bind {m m' : Action σ α} {f f' : α → Action σ β} (first : Alike R Q m m')
    (next : ∀ a a', Q a a' → Alike R P (f a) (f' a')) : Alike R P (m >>= f) (m' >>= f') := by
  intro s s' hs
  have h := first s s' hs
  rw [bind_apply, bind_apply]
  generalize m s = o, m' s' = o' at h
  obtain ⟨r, t⟩ := o
  obtain ⟨r', t'⟩ := o'
  obtain ⟨ends, ht⟩ := h
  cases ends with
  | ok h => exact next _ _ h t t' ht
  | error e => exact ⟨.error e, ht⟩

theorem map {m m' : Action σ α} {f f' : α → β} (first : Alike R Q m m')
    (next : ∀ a a', Q a a' → P (f a) (f' a')) : Alike R P (f <$> m) (f' <$> m') := by
  rw [map_eq_pure_bind, map_eq_pure_bind]
  exact first.bind fun a a' h => pure (next a a' h)

theorem discard {m m' : Action σ α} (h : Alike R Q m m') :
    Alike R Eq (discard m) (discard m') := h.map fun _ _ _ => rfl

theorem attempt {m m' : Action σ α} (h : Alike R Q m m') :
    Alike R (SameEnd Q) (attempt m) (attempt m') :=
  fun s s' hs => ⟨.ok (h s s' hs).1, (h s s' hs).2⟩

theorem both {m m' n n' : Action σ Unit} (first : Alike R Eq m m') (second : Alike R Eq n n') :
    Alike R Eq (both m n) (both m' n') := by
  intro s s' hs
  obtain ⟨ends, ht⟩ := first s s' hs
  obtain ⟨ends', hu⟩ := second _ _ ht
  exact ⟨ends.bind fun _ _ _ => ends', hu⟩

theorem all {ms : List (Action σ Unit)} (h : ∀ m ∈ ms, Alike R Eq m m) :
    Alike R Eq (all ms) (all ms) := by
  induction ms with
  | nil => exact pure rfl
  | cons m ms ih =>
    exact both (h m List.mem_cons_self) (ih fun n mem => h n (List.mem_cons_of_mem m mem))

theorem onFirst {m m' : Action σ α} (h : Alike R Q m m') :
    Alike (Beside R S) Q (onFirst m) (onFirst m') :=
  fun s s' hs => ⟨(h s.1 s'.1 hs.1).1, (h s.1 s'.1 hs.1).2, hs.2⟩

theorem onSecond {m m' : Action τ α} (h : Alike S Q m m') :
    Alike (Beside R S) Q (onSecond m) (onSecond m') :=
  fun s s' hs => ⟨(h s.2 s'.2 hs.2).1, hs.1, (h s.2 s'.2 hs.2).2⟩

end Alike
end Action
end StatementCache
