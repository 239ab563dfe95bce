import StatementCache.Action

/-! What an action does from every state with a property. A failed action has left a state too,
so a property after it speaks of both. -/
namespace StatementCache.Action

variable {σ τ α β : Type}

/-- From every state with `P`, result and state of the action have `Q`. -/
def Meets (P : σ → Prop) (m : Action σ α) (Q : Except Fault α → σ → Prop) : Prop :=
  ∀ s, P s → Q (m s).result (m s).state

/-- The action leaves a property of the state alone, whether it succeeds or not. -/
def Keeps (I : σ → Prop) (m : Action σ α) : Prop := Meets I m fun _ => I

namespace Meets

variable {P P' : σ → Prop} {Q R : Except Fault α → σ → Prop}

theorem mono {m : Action σ α} (h : Meets P m Q) (weaker : ∀ s, P' s → P s)
    (stronger : ∀ r s, Q r s → R r s) : Meets P' m R :=
  fun s hs => stronger _ _ (h s (weaker s hs))

theorem bind {m : Action σ α} {f : α → Action σ β} {R : Except Fault β → σ → Prop}
    (first : Meets P m Q) (next : ∀ a, Meets (Q (.ok a)) (f a) R)
    (failed : ∀ e s, Q (.error e) s → R (.error e) s) : Meets P (m >>= f) R := by
  intro s hs
  have h := first s hs
  rw [bind_apply]
  rcases hm : m s with ⟨_ | a, s'⟩ <;> rw [hm] at h
  · exact failed _ _ h
  · exact next a s' h

end Meets

namespace Keeps

variable {I : σ → Prop}

theorem pure (a : α) : Keeps I (pure a : Action σ α) := fun _ hs => hs

theorem fail (e : Fault) : Keeps I (fail e : Action σ α) := fun _ hs => hs

theorem get : Keeps I get := fun _ hs => hs

theorem ofExcept (e : Except Fault α) : Keeps I (ofExcept e) := fun _ hs => hs

theorem bind {m : Action σ α} {f : α → Action σ β} (first : Keeps I m)
    (next : ∀ a, Keeps I (f a)) : Keeps I (m >>= f) :=
  Meets.bind first next fun _ _ hs => hs

theorem map {m : Action σ α} (f : α → β) (h : Keeps I m) : Keeps I (f <$> m) := by
  rw [map_eq_pure_bind]
  exact bind h fun _ => pure _

theorem discard {m : Action σ α} (h : Keeps I m) : Keeps I (discard m) := map _ h

theorem attempt {m : Action σ α} (h : Keeps I m) : Keeps I (attempt m) := fun s hs => h s hs

theorem both {m n : Action σ Unit} (first : Keeps I m) (second : Keeps I n) :
    Keeps I (both m n) :=
  fun s hs => second _ (first s hs)

theorem all {ms : List (Action σ Unit)} (h : ∀ m ∈ ms, Keeps I m) : Keeps I (all ms) := by
  induction ms with
  | nil => exact pure ()
  | cons m ms ih =>
    exact both (h m List.mem_cons_self) (ih fun n hn => h n (List.mem_cons_of_mem _ hn))

theorem onFirst (I : τ → Prop) (m : Action σ α) :
    Keeps (fun s => I s.2) (onFirst m : Action (σ × τ) α) := fun _ hs => hs

theorem onSecond {I : τ → Prop} {m : Action τ α} (h : Keeps I m) :
    Keeps (fun s => I s.2) (onSecond m : Action (σ × τ) α) := fun s hs => h s.2 hs

end Keeps

/-- One action of the list brings `Q` about: the others keep `P` until then and `Q` from then on. -/
theorem Meets.all {P Q : σ → Prop} {ms : List (Action σ Unit)} {m : Action σ Unit} (mem : m ∈ ms)
    (there : Meets P m fun _ => Q) (before : ∀ n ∈ ms, Keeps P n) (after : ∀ n ∈ ms, Keeps Q n) :
    Meets P (Action.all ms) fun _ => Q := by
  induction ms with
  | nil => cases mem
  | cons n ms ih =>
    have rest : Keeps Q (Action.all ms) := Keeps.all fun n hn => after n (List.mem_cons_of_mem _ hn)
    intro s hs
    rcases List.mem_cons.mp mem with rfl | later
    · exact rest _ (there s hs)
    · exact ih later (fun n hn => before n (List.mem_cons_of_mem _ hn))
        (fun n hn => after n (List.mem_cons_of_mem _ hn)) _ (before n List.mem_cons_self s hs)

def Gives (Q : α → Prop) (m : Action σ α) : Prop := ∀ s a, (m s).result = .ok a → Q a

namespace Gives

variable {Q : α → Prop} {R : β → Prop}

theorem pure {a : α} (h : Q a) : Gives Q (pure a : Action σ α) := by
  intro s b hb
  cases hb
  exact h

theorem fail (e : Fault) : Gives Q (fail e : Action σ α) := fun _ _ h => by cases h

theorem bind {m : Action σ α} {f : α → Action σ β} (first : Gives Q m)
    (next : ∀ a, Q a → Gives R (f a)) : Gives R (m >>= f) := by
  intro s b hb
  have h := first s
  rw [bind_apply] at hb
  rcases hm : m s with ⟨_ | a, s'⟩ <;> rw [hm] at h hb
  · cases hb
  · exact next a (h a rfl) s' b hb

end Gives

def Succeeds (m : Action σ α) : Prop := ∀ s, ∃ a, (m s).result = .ok a

namespace Succeeds

theorem pure (a : α) : Succeeds (pure a : Action σ α) := fun _ => ⟨a, rfl⟩

theorem get : Succeeds (get : Action σ σ) := fun s => ⟨s, rfl⟩

theorem modify (f : σ → σ) : Succeeds (modify f) := fun _ => ⟨(), rfl⟩

theorem total (f : σ → α × σ) : Succeeds (total f) := fun s => ⟨(f s).1, rfl⟩

theorem bind {m : Action σ α} {f : α → Action σ β} (first : Succeeds m)
    (next : ∀ a, Succeeds (f a)) : Succeeds (m >>= f) := by
  intro s
  obtain ⟨a, ok⟩ := first s
  rw [bind_apply]
  rcases hm : m s with ⟨r, s'⟩
  rw [hm] at ok
  cases ok
  exact next a s'

theorem discard {m : Action σ α} (h : Succeeds m) : Succeeds (discard m) := by
  intro s
  obtain ⟨a, ok⟩ := h s
  exact ⟨⟨⟩, by rw [discard_apply, ok]; rfl⟩

theorem onFirst {m : Action σ α} (h : Succeeds m) :
    Succeeds (onFirst m : Action (σ × τ) α) := fun s => h s.1

theorem onSecond {m : Action τ α} (h : Succeeds m) :
    Succeeds (onSecond m : Action (σ × τ) α) := fun s => h s.2

end Succeeds
end StatementCache.Action
