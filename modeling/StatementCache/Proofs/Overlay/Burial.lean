import StatementCache.Proofs.Overlay.Attempts
import StatementCache.Proofs.Overlay.History
import StatementCache.Proofs.Overlay.Rollback

/-! Several units of work over one map, in any interleaving. A commit puts a placeholder under every
key that its unit of work has looked up in vain and holds no value for. What another one has
published under such a key meanwhile is buried; a value that was there at the lookup is not. -/
namespace StatementCache.Overlay

open StatementCache.Action Function World

/-- The order in which an overlay walks its work, which is not specified. -/
structure Walk where
  order : Overlay → Overlay
  reorders : ∀ o, (order o).Reorders o

inductive Act where
  | accessed (request : Access)
  | ended (walk : Walk) (ending : Ending)

def Act.run {σ : Type} (directory : Directory σ) : Act → Action (Overlay × σ) Unit
  | .accessed request => access directory request
  | .ended walk ending => fun (o, s) => ending.run directory (walk.order o, s)

def Act.ends : Act → Bool
  | .accessed _ => false
  | .ended _ _ => true

structure Deed where
  owner : Nat
  host : Host
  act : Act

def Deed.commit (owner : Nat) (host : Host) (walk : Walk) : Deed :=
  ⟨owner, host, .ended walk .commit⟩

/-- The value that a unit of work has buffered for a key: the last one that it put there since it
last cleared the cache. -/
def holding (k : CacheKey) (unit : List Moment) : Option Entry :=
  lastPut k (unit.reverse.map (·.request))

structure Rivals where
  overlays : Nat → Overlay
  world : World

namespace Rivals

def start (ref : CacheRef) (w : World) : Rivals := ⟨fun _ => fresh ref, w⟩

def step (s : Rivals) (d : Deed) : Rivals :=
  let o := d.act.run (World.find? d.host) (s.overlays d.owner, s.world)
  ⟨update s.overlays d.owner o.state.1, o.state.2⟩

def run (s : Rivals) (deeds : List Deed) : Rivals := deeds.foldl step s

def note (i : Nat) (s : Rivals) (history : List Moment) (d : Deed) : List Moment :=
  if d.owner = i then
    match d.act with
    | .accessed request => history ++ [⟨d.host, s.world, request⟩]
    | .ended _ _ => []
  else history

/-- The accesses of a unit of work since its owner last ended one, after some deeds of all. -/
def unit (i : Nat) (s : Rivals) (history : List Moment) : List Deed → List Moment
  | [] => history
  | d :: deeds => unit i (s.step d) (s.note i history d) deeds

variable {ref : CacheRef} {id : String} {s : Rivals} {i : Nat}

theorem note_of_ne {d : Deed} (other : d.owner ≠ i) (s : Rivals) (history : List Moment) :
    s.note i history d = history := if_neg other

theorem overlays_step_of_ne {d : Deed} (other : d.owner ≠ i) (s : Rivals) :
    (s.step d).overlays i = s.overlays i := update_of_ne (Ne.symm other) ..

theorem run_append (s : Rivals) (first second : List Deed) :
    s.run (first ++ second) = (s.run first).run second := List.foldl_append ..

theorem unit_append (i : Nat) (s : Rivals) (history : List Moment) (first second : List Deed) :
    s.unit i history (first ++ second) = (s.run first).unit i (s.unit i history first) second := by
  induction first generalizing s history with
  | nil => rfl
  | cons d first ih => exact ih (s.step d) (s.note i history d)

/-- The cache is still the map, and every overlay holds what its unit of work tells. -/
structure Tells (ref : CacheRef) (id : String) (s : Rivals) (units : Nat → List Moment) : Prop where
  shaped : s.world.shape ref.serial = some (.base id)
  reflects : ∀ i, Reflects ref (units i) (s.overlays i)

def leaves (o : Overlay) : Ending → (CacheKey → Option Entry) → CacheKey → Option Entry
  | .commit => o.published
  | .rollback => o.released

theorem ended_map {o : Overlay} {w : World} (shaped : w.shape o.target.serial = some (.base id))
    (host : Host) (ending : Ending) :
    let done := ending.run (World.find? host) (o, w)
    done.state.1 = fresh o.target ∧
      w.Becomes (update w.contents o.target.serial (leaves o ending (w.contents o.target.serial)))
        done.state.2 := by
  obtain ⟨entries, there, -⟩ := found_of_shape shaped
  have ran := run_of_some (World.find?_of_some there host) ending
  rw [ran]
  refine ⟨rfl, ?_⟩
  cases ending with
  | commit => exact (changes_publish host o w shaped).2
  | rollback => exact (changes_releaseMissed host (Chain.direct_base id) o w shaped).2

theorem shape_access {o : Overlay} {w : World} (shaped : w.shape o.target.serial = some (.base id))
    (host : Host) (request : Access) :
    (access (World.find? host) request (o, w)).state.2.shape = w.shape := by
  cases request with
  | get k =>
    obtain ⟨w', kept, looked⟩ := access_get (Chain.direct_base id) shaped host k
    rw [looked]
    exact kept.shape_eq
  | put k e => rfl
  | clear => rfl

theorem Tells.step {units : Nat → List Moment} (h : Tells ref id s units) (d : Deed) :
    Tells ref id (s.step d) fun i => s.note i (units i) d := by
  obtain ⟨owner, host, act⟩ := d
  have target : (s.overlays owner).target = ref := (h.reflects owner).target_eq
  -- the acting overlay tells its new unit of work, the others are as before
  suffices own : (s.step ⟨owner, host, act⟩).world.shape = s.world.shape ∧
      Reflects ref (s.note owner (units owner) ⟨owner, host, act⟩)
        ((s.step ⟨owner, host, act⟩).overlays owner) by
    refine ⟨by rw [own.1, h.shaped], fun i => ?_⟩
    by_cases same : owner = i
    · subst same
      exact own.2
    · rw [note_of_ne same, overlays_step_of_ne same]
      exact h.reflects i
  simp only [Rivals.step, note, if_true, update_self]
  cases act with
  | accessed request =>
    have shaped : s.world.shape (s.overlays owner).target.serial = some (.base id) := by
      rw [target, h.shaped]
    refine ⟨shape_access shaped host request, ?_⟩
    exact (h.reflects owner).step (m := ⟨host, s.world, request⟩) (Chain.direct_base id) h.shaped
  | ended walk ending =>
    have aimed : (walk.order (s.overlays owner)).target = ref :=
      (walk.reorders _).target_eq.trans target
    have shaped :
        s.world.shape (walk.order (s.overlays owner)).target.serial = some (.base id) := by
      rw [aimed, h.shaped]
    obtain ⟨ended, became⟩ := ended_map shaped host ending
    refine ⟨became.shape_eq, ?_⟩
    simp only [Act.run, ended, aimed]
    exact reflects_fresh ref

theorem tells_run {units : Nat → List Moment} (h : Tells ref id s units) (deeds : List Deed) :
    Tells ref id (s.run deeds) fun i => s.unit i (units i) deeds := by
  induction deeds generalizing s units with
  | nil => exact h
  | cons d deeds ih => exact ih (h.step d)

theorem tells_start {w : World} (shaped : w.shape ref.serial = some (.base id)) :
    Tells ref id (start ref w) fun _ => [] := ⟨shaped, fun _ => reflects_fresh ref⟩

/-- A commit makes of the entries what its unit of work tells, in whichever order it walks. -/
theorem contents_commit {units : Nat → List Moment} (h : Tells ref id s units) (host : Host)
    (walk : Walk) (i : Nat) :
    (s.step (.commit i host walk)).world.contents ref.serial =
      outcome ref.serial (units i) (s.world.contents ref.serial) := by
  have reordered := walk.reorders (s.overlays i)
  have target : (walk.order (s.overlays i)).target = ref :=
    reordered.target_eq.trans (h.reflects i).target_eq
  have shaped : s.world.shape (walk.order (s.overlays i)).target.serial = some (.base id) := by
    rw [target, h.shaped]
  obtain ⟨-, became⟩ := ended_map shaped host .commit
  rw [target] at became
  refine (congrFun became.contents_eq ref.serial).trans ?_
  rw [update_self]
  exact (reordered.published_eq _).trans ((h.reflects i).published_eq _)

theorem outcome_of_holding {serial : Nat} {history : List Moment} {k : CacheKey} {e : Entry}
    (held : holding k history = some e) (base : CacheKey → Option Entry) :
    outcome serial history base k = some e := by
  unfold holding at held
  rw [outcome, held]

theorem outcome_eq_placeholder_iff {serial : Nat} {history : List Moment}
    {base : CacheKey → Option Entry} {k : CacheKey} {rows : Rows}
    (held : base k = some (.rows rows)) :
    outcome serial history base k = some .placeholder ↔
      holding k history = some .placeholder ∨
        holding k history = none ∧ history.any (·.misses serial k) = true := by
  unfold outcome holding
  cases lastPut k (history.reverse.map (·.request)) with
  | some e => simp
  | none =>
    simp only [reduceCtorEq, false_or, true_and]
    split
    · rename_i missed
      simp [missed]
    · rename_i known
      simp only [known]
      split
      · simp
      · simp [held]

/-- While a value is there no lookup misses it, so what a unit of work has missed it had missed
before, unless it has ended since. -/
theorem misses_unit {serial : Nat} {k : CacheKey} {rows : Rows} (i : Nat) {history : List Moment}
    {deeds : List Deed} (there : ∀ done, done <+: deeds →
      (s.run done).world.contents serial k = some (.rows rows)) :
    (s.unit i history deeds).any (·.misses serial k) = true ↔
      (∀ d ∈ deeds, d.owner = i → d.act.ends = false) ∧
        history.any (·.misses serial k) = true := by
  induction deeds generalizing s history with
  | nil => simp [unit]
  | cons d deeds ih =>
    have now : s.world.contents serial k = some (.rows rows) := there [] List.nil_prefix
    have later : ∀ done, done <+: deeds →
        ((s.step d).run done).world.contents serial k = some (.rows rows) :=
      fun done earlier => there (d :: done) (List.cons_prefix_cons.mpr ⟨rfl, earlier⟩)
    rw [unit, ih later, List.forall_mem_cons, note]
    split
    · rename_i own
      cases act : d.act with
      | accessed request =>
        have found : Moment.misses serial k ⟨d.host, s.world, request⟩ = false := by
          cases request <;> simp [Moment.misses, now, Entry.isPlaceholder]
        simp [Act.ends, found, own]
      | ended walk ending => simp [Act.ends, own]
    · rename_i other
      simp [other]

/-- A row list that one unit of work has published is still there when another one commits. That
commit puts a placeholder in its place exactly if its own unit of work holds a placeholder for the
key, or holds nothing for it, has not ended since the publication and had looked the key up in vain
before. -/
theorem commit_buries_iff {w : World} (shaped : w.shape ref.serial = some (.base id)) {i j : Nat}
    (other : j ≠ i) (host host' : Host) (walk walk' : Walk) (past between : List Deed)
    {k : CacheKey} {rows : Rows} (published : holding k ((start ref w).unit j [] past) = some (.rows rows))
    (stays : ∀ done, done <+: between →
      ((start ref w).run (past ++ .commit j host walk :: done)).world.contents ref.serial k =
        ((start ref w).run (past ++ [.commit j host walk])).world.contents ref.serial k) :
    let before := past ++ .commit j host walk :: between
    let unit := (start ref w).unit i [] before
    ((start ref w).run before).world.contents ref.serial k = some (.rows rows) ∧
      (((start ref w).run (before ++ [.commit i host' walk'])).world.contents ref.serial k =
          some .placeholder ↔
        holding k unit = some .placeholder ∨
          holding k unit = none ∧ (∀ d ∈ between, d.owner = i → d.act.ends = false) ∧
            ((start ref w).unit i [] past).any (·.misses ref.serial k) = true) := by
  intro before unit
  have told := tells_run (tells_start shaped) before
  let since := ((start ref w).run past).step (.commit j host walk)
  have resumed (done : List Deed) :
      (start ref w).run (past ++ .commit j host walk :: done) = since.run done := run_append ..
  have first : since.world.contents ref.serial k = some (.rows rows) := by
    have committed := contents_commit (tells_run (tells_start shaped) past) host walk j
    rw [show since.world.contents ref.serial = _ from committed]
    exact outcome_of_holding published _
  have there : ∀ done, done <+: between →
      (since.run done).world.contents ref.serial k = some (.rows rows) := by
    intro done earlier
    have same := stays done earlier
    rw [resumed, resumed] at same
    exact same.trans first
  have now : ((start ref w).run before).world.contents ref.serial k = some (.rows rows) := by
    rw [show (start ref w).run before = _ from resumed between]
    exact there between (List.prefix_refl _)
  -- the commit of the other one is no part of this unit of work
  have split : unit = since.unit i ((start ref w).unit i [] past) between := by
    simp only [unit, before, unit_append, Rivals.unit]
    rw [note_of_ne other]
  refine ⟨now, ?_⟩
  have last := contents_commit told host' walk' i
  rw [run_append]
  refine (iff_of_eq (congrArg (· = some Entry.placeholder) (congrFun last k))).trans ?_
  rw [outcome_eq_placeholder_iff now, ← misses_unit i there, ← split]

end Rivals

def Walk.asKept : Walk := ⟨fun o => o, Reorders.refl⟩

/-- The first one looks the key up, the second one publishes rows under it, which the first one
finds when it looks again. -/
theorem commit_buries_iff_of_lookups :
    let host : Host := ⟨0, 0, fun _ _ => false⟩
    let k : CacheKey := .ofValues [.integer 1]
    let past : List Deed :=
      [⟨0, host, .accessed (.get k)⟩, ⟨1, host, .accessed (.put k (.rows []))⟩]
    let again : Deed := ⟨0, host, .accessed (.get k)⟩
    let start := Rivals.start ⟨0, "names"⟩ (numbered [])
    let before := past ++ [.commit 1 host .asKept, again]
    start.world.shape 0 = some (.base "names") ∧ 1 ≠ 0 ∧
      holding k (start.unit 1 [] past) = some (.rows []) ∧
      (∀ done, done <+: [again] →
        (start.run (past ++ .commit 1 host .asKept :: done)).world.contents 0 k =
          (start.run (past ++ [.commit 1 host .asKept])).world.contents 0 k) ∧
      (start.run before).world.contents 0 k = some (.rows []) ∧
      (start.run (before ++ [.commit 0 host .asKept])).world.contents 0 k = some .placeholder := by
  intro host k past again start before
  have stays : ∀ done, done <+: [again] →
      (start.run (past ++ .commit 1 host .asKept :: done)).world.contents 0 k =
        (start.run (past ++ [.commit 1 host .asKept])).world.contents 0 k := by
    intro done earlier
    rcases List.prefix_cons_iff.mp earlier with rfl | ⟨rest, rfl, none⟩
    · rfl
    · rw [List.prefix_nil.mp none]
      rfl
  have shaped : (numbered []).shape (CacheRef.serial ⟨0, "names"⟩) = some (.base "names") := rfl
  obtain ⟨now, buried⟩ := Rivals.commit_buries_iff shaped Nat.one_ne_zero host host .asKept .asKept
    past [again] rfl stays
  refine ⟨rfl, Nat.one_ne_zero, rfl, stays, now, buried.mpr (.inr ⟨rfl, ?_, rfl⟩)⟩
  intro d mem _
  rw [List.mem_singleton.mp mem]
  rfl

/-- Rows that one unit of work has published are buried by the commit of another one. -/
theorem commit_buries_published :
    let host : Host := ⟨0, 0, fun _ _ => false⟩
    let k : CacheKey := .ofValues [.integer 1]
    let published := (Rivals.start ⟨0, "names"⟩ (numbered [])).run
      [⟨0, host, .accessed (.get k)⟩, ⟨1, host, .accessed (.put k (.rows [[.integer 1]]))⟩,
        .commit 1 host .asKept]
    published.world.contents 0 k = some (.rows [[.integer 1]]) ∧
      (published.step (.commit 0 host .asKept)).world.contents 0 k = some .placeholder :=
  ⟨rfl, rfl⟩

end StatementCache.Overlay
