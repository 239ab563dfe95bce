import StatementCache.Proofs.Overlay.Settled
import Mathlib.Data.List.Induction

/-! The life of one overlay over a cache that others use too. What a commit publishes is told from
what was asked of the overlay and what its lookups met, and the order in which the overlay keeps its
work does not matter. -/
namespace StatementCache.Overlay

open StatementCache.Action Function World

inductive Access where
  | get (k : CacheKey)
  | put (k : CacheKey) (e : Entry)
  | clear

def access {σ : Type} (directory : Directory σ) : Access → Action (Overlay × σ) Unit
  | .get k => discard (get directory k)
  | .put k e => onFirst (modify (·.put k e))
  | .clear => onFirst (modify Overlay.clear)

/-- An access, and the caches as it finds them: between two accesses others may have done
anything. -/
structure Moment where
  host : Host
  world : World
  request : Access

def accessed (o : Overlay) (m : Moment) : Overlay :=
  (access (World.find? m.host) m.request (o, m.world)).state.1

def after (o : Overlay) (history : List Moment) : Overlay := history.foldl accessed o

/-- The value that was put last under a key, unless a clear came after it. The latest access comes
first. -/
def lastPut (k : CacheKey) : List Access → Option Entry
  | [] => none
  | .put j e :: earlier => if j = k then some e else lastPut k earlier
  | .clear :: _ => none
  | .get _ :: earlier => lastPut k earlier

def Access.clears : Access → Bool
  | .clear => true
  | .get _ | .put _ _ => false

def Moment.misses (serial : Nat) (k : CacheKey) (m : Moment) : Bool :=
  match m.request with
  | .get j => decide (j = k) && (m.world.contents serial k).all (·.isPlaceholder)
  | .put _ _ | .clear => false

def outcome (serial : Nat) (history : List Moment) (base : CacheKey → Option Entry) (k : CacheKey) :
    Option Entry :=
  match lastPut k (history.reverse.map (·.request)) with
  | some e => some e
  | none =>
    if history.any (·.misses serial k) then some .placeholder
    else if history.any (·.request.clears) then none
    else base k

/-- The same work in another order. -/
structure Reorders (o o' : Overlay) : Prop where
  target_eq : o.target = o'.target
  clears_eq : o.clearOnCommit = o'.clearOnCommit
  pending : o.pending.entries.Perm o'.pending.entries
  missed : o.missed.Perm o'.missed

variable {o o' : Overlay} {ref : CacheRef} {c : Chain} {host : Host} {w : World}

theorem Reorders.refl (o : Overlay) : o.Reorders o := ⟨rfl, rfl, .refl _, .refl _⟩

theorem Reorders.get?_pending (h : o.Reorders o') (k : CacheKey) :
    o.pending.get? k = o'.pending.get? k := by
  ext e
  simp only [Table.get?_eq_some_iff, h.pending.mem_iff]

theorem Reorders.published_eq (h : o.Reorders o') (old : CacheKey → Option Entry) :
    o.published old = o'.published old := by
  funext k
  simp only [published, written, h.get?_pending, h.missed.mem_iff, h.clears_eq]

theorem isNone_filter_iff (found : Option Entry) :
    (found.filter fun e => !e.isPlaceholder).isNone = found.all (·.isPlaceholder) := by
  cases found with
  | none => rfl
  | some e => cases h : e.isPlaceholder <;> simp [Option.filter, h]

/-- A lookup through the overlay leaves the entries alone and notes a miss, whether or not a clear
hides what it found. -/
theorem access_get (direct : c.Direct) (shaped : w.shape o.target.serial = some c) (host : Host)
    (k : CacheKey) :
    ∃ w', w.Becomes w.contents w' ∧
      (access (World.find? host) (.get k) (o, w)).state =
        (if (w.contents o.target.serial k).all (·.isPlaceholder) then o.miss k else o, w') := by
  obtain ⟨s, there, -⟩ := found_of_shape shaped
  obtain ⟨got, kept⟩ := get_direct host direct shaped k
  refine ⟨_, kept, ?_⟩
  rw [access, state_discard, get_of_some (World.find?_of_some there host)]
  rcases done : (World.store host o.target).get k w with ⟨result, w'⟩
  rw [done] at got
  dsimp only at got
  subst got
  dsimp only
  rw [isNone_filter_iff]

structure Reflects (ref : CacheRef) (history : List Moment) (o : Overlay) : Prop where
  target_eq : o.target = ref
  clears_eq : o.clearOnCommit = history.any (·.request.clears)
  buffered : ∀ k, o.pending.get? k = lastPut k (history.reverse.map (·.request))
  missed : ∀ k, k ∈ o.missed ↔ history.any (·.misses ref.serial k) = true

theorem reflects_fresh (ref : CacheRef) : Reflects ref [] (fresh ref) :=
  ⟨rfl, rfl, fun _ => rfl, fun _ => by simp [fresh]⟩

theorem Reflects.put {history : List Moment} (h : Reflects ref history o) (host : Host) (w : World)
    (k : CacheKey) (e : Entry) : Reflects ref (history ++ [⟨host, w, .put k e⟩]) (o.put k e) := by
  refine ⟨h.target_eq, ?_, fun j => ?_, fun j => ?_⟩
  · simpa [Access.clears, Overlay.put] using h.clears_eq
  · simp only [Overlay.put, Table.get?_insert, h.buffered j, List.reverse_append,
      List.reverse_singleton, List.singleton_append, List.map_cons, lastPut]
  · simpa [Moment.misses, Overlay.put] using h.missed j

theorem Reflects.clear {history : List Moment} (h : Reflects ref history o) (host : Host)
    (w : World) : Reflects ref (history ++ [⟨host, w, .clear⟩]) o.clear := by
  refine ⟨h.target_eq, ?_, fun j => ?_, fun j => ?_⟩
  · simp [Access.clears, Overlay.clear]
  · simp [Overlay.clear, lastPut]
  · simpa [Moment.misses, Overlay.clear] using h.missed j

theorem Reflects.get {history : List Moment} (h : Reflects ref history o) (host : Host) (w : World)
    (k : CacheKey) :
    Reflects ref (history ++ [⟨host, w, .get k⟩])
      (if (w.contents ref.serial k).all (·.isPlaceholder) then o.miss k else o) := by
  have missing : ∀ j, Moment.misses ref.serial j ⟨host, w, .get k⟩ = true ↔
      j = k ∧ (w.contents ref.serial k).all (·.isPlaceholder) = true := by
    intro j
    simp only [Moment.misses, Bool.and_eq_true, decide_eq_true_eq]
    constructor
    · rintro ⟨rfl, absent⟩
      exact ⟨rfl, absent⟩
    · rintro ⟨rfl, absent⟩
      exact ⟨rfl, absent⟩
  refine ⟨?_, ?_, fun j => ?_, fun j => ?_⟩
  · split <;> simp [h.target_eq]
  · split <;> simpa [Access.clears] using h.clears_eq
  · split <;> simpa [lastPut] using h.buffered j
  · rw [List.any_append, Bool.or_eq_true, ← h.missed j, List.any_cons, List.any_nil, Bool.or_false,
      missing j]
    split
    · rename_i absent
      simp only [mem_missed_miss, absent, and_true, or_comm]
    · rename_i known
      simp [known]

theorem Reflects.step {history : List Moment} (h : Reflects ref history o) (direct : c.Direct)
    {m : Moment} (shaped : m.world.shape ref.serial = some c) :
    Reflects ref (history ++ [m]) (o.accessed m) := by
  obtain ⟨host, w, request⟩ := m
  cases request with
  | put k e => exact h.put host w k e
  | clear => exact h.clear host w
  | get k =>
    rw [← h.target_eq] at shaped
    obtain ⟨w', -, looked⟩ := access_get direct shaped host k
    rw [h.target_eq] at looked
    rw [accessed, looked]
    exact h.get host w k

theorem reflects_after (direct : c.Direct) {history : List Moment}
    (shaped : ∀ m ∈ history, m.world.shape ref.serial = some c) :
    Reflects ref history ((fresh ref).after history) := by
  induction history using List.reverseRecOn with
  | nil => exact reflects_fresh ref
  | append_singleton history m ih =>
    have earlier := ih fun m' mem => shaped m' (List.mem_append_left _ mem)
    rw [after, List.foldl_append]
    exact earlier.step direct (shaped m (List.mem_append_right _ (List.mem_singleton_self m)))

theorem Reflects.published_eq {history : List Moment} (h : Reflects ref history o)
    (old : CacheKey → Option Entry) : o.published old = outcome ref.serial history old := by
  funext k
  unfold published written outcome
  rw [h.buffered k, h.clears_eq]
  cases lastPut k (history.reverse.map (·.request)) with
  | some e => rfl
  | none =>
    simp only [h.missed k]
    split
    · rfl
    · split <;> rfl

theorem commit_fresh {id : String} (shaped : w.shape ref.serial = some (.base id)) (host : Host) :
    commit (World.find? host) (fresh ref, w) = ⟨.ok (), (fresh ref, w)⟩ := by
  obtain ⟨s, there, -⟩ := found_of_shape shaped
  have found : World.find? host (fresh ref).target w = _ := World.find?_of_some there host
  simp only [commit, settle, found]
  rfl

/-- The commit of an overlay over a plain map. Whatever was asked of the overlay, whatever others
did to the map in between and whichever order the overlay keeps its work in: the entries are those
that the history tells, other caches are as before, and a second commit changes nothing. -/
theorem commit_publishes_outcome {id : String} (history : List Moment)
    (mapped : ∀ m ∈ history, m.world.shape ref.serial = some (.base id))
    (shaped : w.shape ref.serial = some (.base id)) (host : Host)
    (reordered : o.Reorders ((fresh ref).after history)) :
    let done := commit (World.find? host) (o, w)
    done.result = .ok () ∧
      w.Becomes (update w.contents ref.serial
        (outcome ref.serial history (w.contents ref.serial))) done.state.2 ∧
      ∀ host', commit (World.find? host') done.state = ⟨.ok (), done.state⟩ := by
  intro done
  have reflects := reflects_after (Chain.direct_base id) mapped
  have target : o.target = ref := reordered.target_eq.trans reflects.target_eq
  subst target
  obtain ⟨⟨_, ok⟩, became⟩ := changes_publish host o w shaped
  rw [reordered.published_eq, reflects.published_eq] at became
  obtain ⟨s, there, -⟩ := found_of_shape shaped
  have settled : done = ⟨(o.publish (World.store host o.target) w).result,
      (fresh o.target, (o.publish (World.store host o.target) w).state)⟩ := by
    simp only [done, commit, settle, World.find?_of_some there]
    rfl
  rw [settled]
  refine ⟨ok, became, fun host' => ?_⟩
  apply commit_fresh
  rw [became.shape_eq, shaped]

def numbered (held : List (Int64 × Entry)) : World :=
  let entries : Entries := held.foldl (fun t p => t.insert (.ofValues [.integer p.1]) p.2) .empty
  { World.empty with caches := Table.empty.insert 0 ⟨.base "names", entries⟩, nextSerial := 1 }

/-- Key 7 is missed and written before a clear, 8 and 10 are written after it; at the commit others
have written 7 and 9, and the writes are walked in the other order. -/
theorem commit_publishes_outcome_after_clear :
    let host : Host := ⟨0, 0, fun _ _ => false⟩
    let key (n : Int64) : CacheKey := .ofValues [.integer n]
    let moment (held : List (Int64 × Entry)) : Access → Moment :=
      Moment.mk host (numbered held)
    let history := [moment [] (.get (key 7)), moment [] (.put (key 7) (.rows [])),
      moment [(9, .rows [])] .clear, moment [(9, .rows [])] (.put (key 8) (.rows [])),
      moment [(9, .rows [])] (.put (key 10) .placeholder)]
    let o : Overlay := ⟨⟨0, "names"⟩, true,
      (Table.empty.insert (key 10) .placeholder).insert (key 8) (.rows []), [key 7]⟩
    let done := commit (World.find? host) (o, numbered [(9, .rows []), (7, .rows [])])
    o.Reorders ((fresh ⟨0, "names"⟩).after history) ∧ done.result = .ok () ∧
      [7, 8, 9, 10].map (fun n => done.state.2.contents 0 (key n)) =
        [some .placeholder, some (.rows []), none, some .placeholder] ∧
      commit (World.find? host) done.state = ⟨.ok (), done.state⟩ := by
  intro host key moment history o done
  have buffered : ((fresh ⟨0, "names"⟩).after history).pending.entries =
      [(key 8, .rows []), (key 10, .placeholder)] := rfl
  have swapped : o.pending.entries.Perm ((fresh ⟨0, "names"⟩).after history).pending.entries := by
    rw [buffered]
    exact .swap _ _ _
  have reordered : o.Reorders ((fresh ⟨0, "names"⟩).after history) :=
    ⟨rfl, rfl, swapped, .refl _⟩
  have mapped : ∀ m ∈ history, m.world.shape 0 = some (.base "names") := by
    intro m mem
    simp only [history, List.mem_cons, List.not_mem_nil, or_false] at mem
    rcases mem with rfl | rfl | rfl | rfl | rfl <;> rfl
  obtain ⟨ok, became, again⟩ := commit_publishes_outcome
    (w := numbered [(9, .rows []), (7, .rows [])]) history mapped rfl host reordered
  refine ⟨reordered, ok, ?_, again host⟩
  rw [became.contents_eq]
  rfl

end StatementCache.Overlay
