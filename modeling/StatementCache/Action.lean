import StatementCache.Fault

/-! Operations on a state that may fail half way. A failure keeps what was done before it, so a
caller sees both the fault and the state it left behind. -/
namespace StatementCache

structure Outcome (σ α : Type) where
  result : Except Fault α
  state : σ

def Action (σ α : Type) := σ → Outcome σ α

namespace Action

variable {σ τ α β : Type}

protected def pure (a : α) : Action σ α := fun s => ⟨.ok a, s⟩

protected def bind (m : Action σ α) (f : α → Action σ β) : Action σ β := fun s =>
  match m s with
  | ⟨.ok a, s⟩ => f a s
  | ⟨.error e, s⟩ => ⟨.error e, s⟩

instance : Monad (Action σ) where
  pure := Action.pure
  bind := Action.bind

theorem bind_apply (m : Action σ α) (f : α → Action σ β) (s : σ) :
    (m >>= f) s = match m s with
      | ⟨.ok a, s⟩ => f a s
      | ⟨.error e, s⟩ => ⟨.error e, s⟩ := rfl

@[simp] theorem pure_apply (a : α) (s : σ) : (pure a : Action σ α) s = ⟨.ok a, s⟩ := rfl

instance : LawfulMonad (Action σ) :=
  LawfulMonad.mk' (Action σ)
    (by
      intro α m
      funext s
      change (match m s with
        | ⟨.ok a, s⟩ => (⟨.ok (id a), s⟩ : Outcome σ α)
        | ⟨.error e, s⟩ => ⟨.error e, s⟩) = m s
      rcases m s with ⟨_ | _, _⟩ <;> rfl)
    (fun _ _ => rfl)
    (by
      intro α β γ m f g
      funext s
      simp only [bind_apply]
      rcases m s with ⟨_ | _, _⟩ <;> rfl)

def fail (e : Fault) : Action σ α := fun s => ⟨.error e, s⟩

def get : Action σ σ := fun s => ⟨.ok s, s⟩

def modify (f : σ → σ) : Action σ Unit := fun s => ⟨.ok (), f s⟩

def total (f : σ → α × σ) : Action σ α := fun s => ⟨.ok (f s).1, (f s).2⟩

def ofExcept (e : Except Fault α) : Action σ α := fun s => ⟨e, s⟩

def attempt (m : Action σ α) : Action σ (Except Fault α) := fun s =>
  ⟨.ok (m s).result, (m s).state⟩

/-- Both run; the first fault counts. -/
def both (m n : Action σ Unit) : Action σ Unit := fun s =>
  let first := m s
  let second := n first.state
  ⟨first.result.bind fun _ => second.result, second.state⟩

/-- Runs every action, whether or not those before it failed; the first fault counts. -/
def all : List (Action σ Unit) → Action σ Unit
  | [] => pure ()
  | m :: rest => both m (all rest)

def onFirst (m : Action σ α) : Action (σ × τ) α := fun (s, t) =>
  let o := m s
  ⟨o.result, (o.state, t)⟩

def onSecond (m : Action τ α) : Action (σ × τ) α := fun (s, t) =>
  let o := m t
  ⟨o.result, (s, o.state)⟩

@[simp] theorem fail_apply (e : Fault) (s : σ) : (fail e : Action σ α) s = ⟨.error e, s⟩ := rfl

@[simp] theorem get_apply (s : σ) : (get : Action σ σ) s = ⟨.ok s, s⟩ := rfl

@[simp] theorem modify_apply (f : σ → σ) (s : σ) : modify f s = ⟨.ok (), f s⟩ := rfl

@[simp] theorem total_apply (f : σ → α × σ) (s : σ) : total f s = ⟨.ok (f s).1, (f s).2⟩ := rfl

@[simp] theorem ofExcept_apply (e : Except Fault α) (s : σ) : ofExcept e s = ⟨e, s⟩ := rfl

@[simp] theorem attempt_apply (m : Action σ α) (s : σ) :
    attempt m s = ⟨.ok (m s).result, (m s).state⟩ := rfl

@[simp] theorem onFirst_apply (m : Action σ α) (s : σ) (t : τ) :
    onFirst m (s, t) = ⟨(m s).result, ((m s).state, t)⟩ := rfl

@[simp] theorem onSecond_apply (m : Action τ α) (s : σ) (t : τ) :
    onSecond m (s, t) = ⟨(m t).result, (s, (m t).state)⟩ := rfl

@[simp] theorem map_apply (f : α → β) (m : Action σ α) (s : σ) :
    (f <$> m) s = ⟨(m s).result.map f, (m s).state⟩ := by
  change (match m s with
    | ⟨.ok a, s⟩ => (⟨.ok (f a), s⟩ : Outcome σ β)
    | ⟨.error e, s⟩ => ⟨.error e, s⟩) = _
  rcases m s with ⟨_ | _, _⟩ <;> rfl

@[simp] theorem discard_apply (m : Action σ α) (s : σ) :
    discard m s = ⟨(m s).result.map fun _ => ⟨⟩, (m s).state⟩ := map_apply ..

theorem state_discard (m : Action σ α) (s : σ) : (discard m s).state = (m s).state := by
  rw [discard_apply]

theorem state_all (ms : List (Action σ Unit)) (s : σ) :
    (all ms s).state = ms.foldl (fun s m => (m s).state) s := by
  induction ms generalizing s with
  | nil => rfl
  | cons m ms ih => exact ih (m s).state

end Action
end StatementCache
