import StatementCache.Cache.Chain

/-! What one unit of work has buffered for one shared cache. Lookups read through; writes wait
until the unit of work ends; a clear is remembered and hides what is shared. Every key that missed
is remembered too: a commit puts a placeholder under it and a rollback removes it, so a blocking
layer below lets other threads at it again. -/
namespace StatementCache

/-- How the cache behind a reference is found; none when nobody owns it any more. -/
abbrev Directory (σ : Type) := CacheRef → σ → Option (Store σ)

structure Overlay where
  target : CacheRef
  clearOnCommit : Bool
  /-- The last value written for each key since the last clear. -/
  pending : Table CacheKey Entry
  /-- Keys whose lookup found no value, each once. -/
  missed : List CacheKey

namespace Overlay

variable {σ : Type}

def fresh (target : CacheRef) : Overlay := ⟨target, false, .empty, []⟩

def id (o : Overlay) : String := o.target.id

def reset (o : Overlay) : Overlay := fresh o.target

def put (o : Overlay) (k : CacheKey) (e : Entry) : Overlay :=
  { o with pending := o.pending.insert k e }

/-- Buffered writes are dropped at once, shared entries at the commit. -/
def clear (o : Overlay) : Overlay := { o with clearOnCommit := true, pending := .empty }

def miss (o : Overlay) (k : CacheKey) : Overlay :=
  if k ∈ o.missed then o else { o with missed := o.missed ++ [k] }

@[simp] theorem mem_missed_miss {o : Overlay} {k j : CacheKey} :
    j ∈ (o.miss k).missed ↔ j = k ∨ j ∈ o.missed := by
  unfold miss
  split
  · rename_i mem
    exact ⟨.inr, fun h => h.elim (fun e => e ▸ mem) (fun h => h)⟩
  · simp [or_comm]

theorem nodup_missed_miss {o : Overlay} (k : CacheKey) (h : o.missed.Nodup) :
    (o.miss k).missed.Nodup := by
  unfold miss
  split
  · exact h
  · rename_i new
    exact List.nodup_append.mpr ⟨h, by simp, fun a ha b hb => by
      rintro rfl
      exact new (List.mem_singleton.mp hb ▸ ha)⟩

@[simp] theorem target_miss (o : Overlay) (k : CacheKey) : (o.miss k).target = o.target := by
  unfold miss
  split <;> rfl

@[simp] theorem clearOnCommit_miss (o : Overlay) (k : CacheKey) :
    (o.miss k).clearOnCommit = o.clearOnCommit := by
  unfold miss
  split <;> rfl

@[simp] theorem pending_miss (o : Overlay) (k : CacheKey) : (o.miss k).pending = o.pending := by
  unfold miss
  split <;> rfl

def unavailable (o : Overlay) : Fault :=
  .cacheUnavailable ("cache '" ++ o.id ++ "' was dropped before the unit of work ended")

/-- A placeholder counts as absent. Buffered writes are not visible here. -/
def get (directory : Directory σ) (k : CacheKey) : Action (Overlay × σ) (Option Entry) := do
  let (o, s) ← Action.get
  match directory o.target s with
  | none => Action.fail o.unavailable
  | some store =>
    let found := (← Action.onSecond (store.get k)).filter fun e => !e.isPlaceholder
    if found.isNone then Action.onFirst (Action.modify (·.miss k))
    pure (if o.clearOnCommit then none else found)

theorem get_of_none {directory : Directory σ} {o : Overlay} {s : σ}
    (h : directory o.target s = none) (k : CacheKey) :
    get directory k (o, s) = ⟨.error o.unavailable, (o, s)⟩ := by
  simp only [get, Action.bind_apply, Action.get_apply, h, Action.fail_apply]

theorem get_of_some {directory : Directory σ} {o : Overlay} {s : σ} {store : Store σ}
    (h : directory o.target s = some store) (k : CacheKey) :
    get directory k (o, s) = match store.get k s with
      | ⟨.error e, s⟩ => ⟨.error e, (o, s)⟩
      | ⟨.ok found, s⟩ =>
        let value := found.filter fun e => !e.isPlaceholder
        ⟨.ok (if o.clearOnCommit then none else value), (if value.isNone then o.miss k else o, s)⟩ := by
  simp only [get, Action.bind_apply, Action.get_apply, h, Action.onSecond_apply]
  rcases store.get k s with ⟨e | found, s⟩
  · rfl
  · dsimp only
    split
    · simp [Action.bind_apply]
    · simp

/-- Buffered values first, then a placeholder for every missed key that has none; every write is
tried. The keys come in no particular order: what depends on it is stated for every order. -/
def flush (o : Overlay) (store : Store σ) : Action σ Unit :=
  Action.all ((o.pending.entries.map fun (k, e) => store.put k e) ++
    (o.missed.filter fun k => !o.pending.contains k).map fun k => store.put k .placeholder)

def releaseMissed (o : Overlay) (store : Store σ) : Action σ Unit :=
  Action.all (o.missed.map fun k => discard (store.remove k))

/-- After a clear that failed nothing is written, but missed keys are released. -/
def publish (o : Overlay) (store : Store σ) : Action σ Unit :=
  if o.clearOnCommit then do
    match ← Action.attempt store.clear with
    | .ok () => o.flush store
    | .error e => do
      discard (Action.attempt (o.releaseMissed store))
      Action.fail e
  else o.flush store

def settle (directory : Directory σ) (work : Overlay → Store σ → Action σ Unit) :
    Action (Overlay × σ) Unit := fun (o, s) =>
  let outcome : Outcome σ Unit := match directory o.target s with
    | none => ⟨.error o.unavailable, s⟩
    | some store => work o store s
  ⟨outcome.result, (o.reset, outcome.state)⟩

def commit (directory : Directory σ) : Action (Overlay × σ) Unit := settle directory publish

def rollback (directory : Directory σ) : Action (Overlay × σ) Unit := settle directory releaseMissed

end Overlay
end StatementCache
