import StatementCache.Proofs.Overlay.History

/-! The rollback of one overlay. It gives back the keys whose lookups missed and takes nothing else
away, whatever was buffered, so later lookups find the values that earlier ones would have found. -/
namespace StatementCache

open StatementCache.Action Function World

def World.found (host : Host) (ref : CacheRef) (k : CacheKey) (w : World) :
    Except Fault (Option Entry) :=
  (Option.filter fun e => !e.isPlaceholder) <$> ((World.store host ref).get k w).result

theorem World.found_direct {c : Chain} {ref : CacheRef} {w : World} (host : Host) (direct : c.Direct)
    (shaped : w.shape ref.serial = some c) (k : CacheKey) :
    w.found host ref k = .ok ((w.contents ref.serial k).filter fun e => !e.isPlaceholder) := by
  rw [found, (get_direct host direct shaped k).1]
  rfl

namespace Overlay

variable {o : Overlay} {ref : CacheRef} {c : Chain} {w : World}

def accessAll (s : Overlay × World) (requests : List (Host × Access)) : Overlay × World :=
  requests.foldl (fun s r => (access (World.find? r.1) r.2 s).state) s

theorem accessAll_concat (s : Overlay × World) (requests : List (Host × Access))
    (r : Host × Access) : accessAll s (requests ++ [r]) =
      (access (World.find? r.1) r.2 (accessAll s requests)).state := by
  simp only [accessAll, List.foldl_append, List.foldl_cons, List.foldl_nil]

/-- An overlay after accesses that nobody disturbed: the entries are still those of `w`, and what
it notes as missed had no value there. -/
structure Undisturbed (ref : CacheRef) (w : World) (s : Overlay × World) : Prop where
  target_eq : s.1.target = ref
  same : w.Becomes w.contents s.2
  missed : ∀ k ∈ s.1.missed, (w.contents ref.serial k).all (·.isPlaceholder) = true

theorem undisturbed_fresh (ref : CacheRef) (w : World) : Undisturbed ref w (fresh ref, w) :=
  ⟨rfl, .refl w, fun _ mem => by cases mem⟩

theorem Undisturbed.step {s : Overlay × World} (h : Undisturbed ref w s) (direct : c.Direct)
    (shaped : w.shape ref.serial = some c) (host : Host) (request : Access) :
    Undisturbed ref w (access (World.find? host) request s).state := by
  obtain ⟨o, v⟩ := s
  cases request with
  | put k e => exact ⟨h.target_eq, h.same, h.missed⟩
  | clear => exact ⟨h.target_eq, h.same, h.missed⟩
  | get k =>
    have target : o.target = ref := h.target_eq
    subst target
    have shaped' : v.shape o.target.serial = some c := by rw [h.same.shape_eq, shaped]
    obtain ⟨v', kept, looked⟩ := access_get direct shaped' host k
    rw [h.same.contents_eq] at kept looked
    rw [looked]
    refine ⟨?_, h.same.trans kept, fun j mem => ?_⟩
    · dsimp only
      split <;> simp
    · dsimp only at mem
      split at mem
      · rename_i absent
        rcases mem_missed_miss.mp mem with rfl | before
        · exact absent
        · exact h.missed j before
      · exact h.missed j mem

theorem undisturbed_accessAll (direct : c.Direct) (shaped : w.shape ref.serial = some c)
    (requests : List (Host × Access)) :
    Undisturbed ref w (accessAll (fresh ref, w) requests) := by
  induction requests using List.reverseRecOn with
  | nil => exact undisturbed_fresh ref w
  | append_singleton requests r ih =>
    rw [accessAll_concat]
    exact ih.step direct shaped r.1 r.2

theorem rollback_direct (direct : c.Direct) (shaped : w.shape o.target.serial = some c)
    (host : Host) :
    let done := rollback (World.find? host) (o, w)
    done.result = .ok () ∧
      w.Becomes (update w.contents o.target.serial (o.released (w.contents o.target.serial)))
        done.state.2 := by
  obtain ⟨s, there, -⟩ := found_of_shape shaped
  obtain ⟨⟨_, ok⟩, became⟩ := changes_releaseMissed host direct o w shaped
  simp only [rollback, settle, World.find?_of_some there]
  exact ⟨ok, became⟩

/-- What a rollback takes away had no value before the first access. -/
theorem Undisturbed.released_eq {s : Overlay × World} (h : Undisturbed ref w s) (k : CacheKey) :
    s.1.released (w.contents ref.serial) k = w.contents ref.serial k ∨
      s.1.released (w.contents ref.serial) k = none ∧
        (w.contents ref.serial k).all (·.isPlaceholder) = true := by
  unfold released
  split
  · rename_i missed
    exact .inr ⟨rfl, h.missed k missed⟩
  · exact .inl rfl

theorem Undisturbed.filter_released {s : Overlay × World} (h : Undisturbed ref w s) (k : CacheKey) :
    (s.1.released (w.contents ref.serial) k).filter (fun e => !e.isPlaceholder) =
      (w.contents ref.serial k).filter fun e => !e.isPlaceholder := by
  rcases h.released_eq k with same | ⟨gone, absent⟩
  · rw [same]
  · rw [gone]
    cases held : w.contents ref.serial k with
    | none => rfl
    | some e =>
      rw [held, Option.all_some] at absent
      simp [Option.filter, absent]

/-- A rollback of an overlay over a map or over a map with eviction. Where nobody else has used the
cache, every value is still there and every lookup finds what it would have found before. Whatever
others did, the rollback takes away the keys that the overlay missed and leaves all other entries,
of this cache and of others, as it finds them. -/
theorem rollback_frees_missed_only (direct : c.Direct) (ref : CacheRef) :
    (∀ (requests : List (Host × Access)) (w : World) (host : Host),
      w.shape ref.serial = some c →
        let done := rollback (World.find? host) (accessAll (fresh ref, w) requests)
        done.result = .ok () ∧
          (∀ k e, w.contents ref.serial k = some e → e.isPlaceholder = false →
            done.state.2.contents ref.serial k = some e) ∧
          ∀ (reader : Host) (k : CacheKey),
            done.state.2.found reader ref k = w.found reader ref k) ∧
    (∀ (history : List Moment) (w : World) (host : Host),
      (∀ m ∈ history, m.world.shape ref.serial = some c) → w.shape ref.serial = some c →
        let done := rollback (World.find? host) ((fresh ref).after history, w)
        done.result = .ok () ∧
          w.Becomes (update w.contents ref.serial fun k =>
            if history.any (·.misses ref.serial k) then none else w.contents ref.serial k)
            done.state.2) := by
  constructor
  · intro requests w host shaped done
    have h := undisturbed_accessAll direct shaped requests
    have target := h.target_eq
    have shaped' : (accessAll (fresh ref, w) requests).2.shape
        (accessAll (fresh ref, w) requests).1.target.serial = some c := by
      rw [target, h.same.shape_eq, shaped]
    obtain ⟨ok, became⟩ := rollback_direct direct shaped' host
    rw [h.same.contents_eq, target] at became
    have now : ∀ k, done.state.2.contents ref.serial k =
        (accessAll (fresh ref, w) requests).1.released (w.contents ref.serial) k := by
      intro k
      exact (congrFun (congrFun became.contents_eq ref.serial) k).trans (by rw [update_self])
    have shaped'' : done.state.2.shape ref.serial = some c := by
      rw [← target]
      exact (congrFun became.shape_eq _).trans shaped'
    refine ⟨ok, fun k e held value => ?_, fun reader k => ?_⟩
    · rcases h.released_eq k with same | ⟨-, absent⟩
      · rw [now, same, held]
      · rw [held, Option.all_some, value] at absent
        cases absent
    · rw [found_direct reader direct shaped'', found_direct reader direct shaped, now,
        h.filter_released k]
  · intro history w host mapped shaped done
    have reflects := reflects_after direct mapped
    have target := reflects.target_eq
    have shaped' : w.shape ((fresh ref).after history).target.serial = some c := by
      rw [target, shaped]
    obtain ⟨ok, became⟩ := rollback_direct direct shaped' host
    rw [target] at became
    have released : ((fresh ref).after history).released (w.contents ref.serial) = fun k =>
        if history.any (·.misses ref.serial k) then none else w.contents ref.serial k := by
      funext k
      simp only [Overlay.released, reflects.missed k]
    rw [released] at became
    exact ⟨ok, became⟩

def keepingOne (n : Int64) : World :=
  let key : CacheKey := .ofValues [.integer n]
  { World.empty with
    caches := Table.empty.insert 0
      ⟨.lru (.base "names"), (⟨[key], 1⟩, Table.empty.insert key (.rows []))⟩
    nextSerial := 1 }

/-- Key 1 is kept, key 2 is missed, written and cleared. Later key 3 has taken the place of key 1,
and giving back key 2 does not push it out. -/
theorem rollback_frees_missed_only_at_capacity :
    let host : Host := ⟨0, 0, fun _ _ => false⟩
    let key (n : Int64) : CacheKey := .ofValues [.integer n]
    let ref : CacheRef := ⟨0, "names"⟩
    let done := rollback (World.find? host) (accessAll (fresh ref, keepingOne 1)
      [(host, .get (key 1)), (host, .get (key 2)), (host, .put (key 2) (.rows [])), (host, .clear)])
    let late := rollback (World.find? host)
      ((fresh ref).after [⟨host, keepingOne 1, .get (key 2)⟩], keepingOne 3)
    (done.result = .ok () ∧ done.state.2.contents 0 (key 1) = some (.rows []) ∧
      done.state.2.found host ref (key 2) = .ok none) ∧
    late.result = .ok () ∧ late.state.2.contents 0 (key 3) = some (.rows []) := by
  intro host key ref done late
  obtain ⟨alone, disturbed⟩ := rollback_frees_missed_only (c := .lru (.base "names")) trivial ref
  obtain ⟨ok, kept, same⟩ := alone [(host, .get (key 1)), (host, .get (key 2)),
    (host, .put (key 2) (.rows [])), (host, .clear)] (keepingOne 1) host rfl
  obtain ⟨ok', became⟩ := disturbed [⟨host, keepingOne 1, .get (key 2)⟩] (keepingOne 3) host
    (fun m mem => by cases List.mem_singleton.mp mem; rfl) rfl
  refine ⟨⟨ok, kept (key 1) (.rows []) rfl rfl, ?_⟩, ok', ?_⟩
  · exact (same host (key 2)).trans rfl
  · rw [became.contents_eq]
    rfl

end Overlay
end StatementCache
