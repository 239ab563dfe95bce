import Mathlib.Data.List.Perm.Subperm
import StatementCache.Proofs.Contents.View
import StatementCache.Proofs.Locks.Ownership

/-! Layers that evict nothing are faithful: the map itself, the counting, synchronized and blocking
layers, the one that clears at intervals and the one that stores copies. -/
namespace StatementCache

open StatementCache.Action

variable {τ : Type} {inner : Store τ} {v : View τ} {P : Entry → Prop}

def View.base : View Entries where
  sound _ := True
  held entries := entries.get?
  due _ := False
  late _ := False
  limits _ := []
  due_of_late _ := id

def View.scheduled (now : Nat) (v : View τ) : View (Schedule × τ) where
  sound s := v.sound s.2
  held s := v.held s.2
  due s := s.1.interval ≤ now - s.1.lastClear ∨ v.due s.2
  late s := v.due s.2
  limits s := v.limits s.2
  due_of_late _ := .inr

namespace Entry

/-- A result whose lengths can be counted, or a placeholder. -/
def Plain : Entry → Prop
  | .rows r => r.Sized
  | .placeholder => True
  | _ => False

def image : Entry → Entry
  | .rows r => .snapshot (Snapshot.ofRows r)
  | e => e

variable {e : Entry}

theorem encode_of_plain (id : String) (plain : e.Plain) : Layer.encode id e = .ok e.image := by
  cases e with
  | rows r => rfl
  | placeholder => rfl
  | snapshot _ | handle _ => exact plain.elim

theorem decode_image (id : String) (plain : e.Plain) : Layer.decode id e.image = .ok e := by
  cases e with
  | rows r => simp [image, Layer.decode, Snapshot.toRows_ofRows plain]
  | placeholder => rfl
  | snapshot _ | handle _ => exact plain.elim

end Entry

def View.serialized (id : String) (v : View τ) : View τ where
  sound s := (∀ k stored, v.held s k = some stored → ∃ e : Entry, e.Plain ∧ e.image = stored) ∧
    v.sound s
  held s k := (v.held s k).bind fun stored => (Layer.decode id stored).toOption
  due := v.due
  late := v.due
  limits := v.limits
  due_of_late _ due := due

namespace Layer

theorem faithful_base (name : String) : (base name).Faithful View.base P where
  put k e s _ _ := by
    refine ⟨s.insert k e, rfl, trivial, fun j x hx => ?_, rfl⟩
    simp only [View.base, Table.get?_insert] at hx ⊢
    split at hx
    · rename_i same
      exact .inl ⟨same.symm, (Option.some.inj hx).symm⟩
    · rename_i other
      exact .inr ⟨Ne.symm other, hx, id⟩
  get k s _ :=
    ⟨.ok (s.get? k), s, rfl, trivial, ⟨fun _ _ h => ⟨h, id⟩, rfl⟩, fun _ h => ⟨Except.ok.inj h, id⟩⟩
  remove k s _ := by
    refine ⟨s.get? k, s.erase k, rfl, trivial, ⟨fun j e he => ?_, rfl⟩, ?_, fun _ h => ⟨h, id⟩⟩
    · simp only [View.base, Table.get?_erase] at he ⊢
      split at he
      · cases he
      · exact ⟨he, id⟩
    · simp only [View.base, Table.get?_erase, if_true]
  clear s _ := ⟨.empty, rfl, trivial, rfl, Table.get?_empty⟩
  size s _ := by
    refine ⟨s.size, s, rfl, trivial, ⟨fun _ _ h => ⟨h, id⟩, rfl⟩, fun ks all => ?_,
      fun _ limit => by cases limit⟩
    have covered : s.keys ⊆ ks := by
      intro k there
      obtain ⟨e, he⟩ := Option.ne_none_iff_exists'.mp ((s.mem_keys_iff k).mp there)
      exact all k e he
    have : s.keys.length ≤ ks.length := (List.subperm_of_subset s.distinct covered).length_le
    simpa [Table.keys, Table.size] using this

theorem faithful_counted (h : inner.Faithful v P) : (counted inner).Faithful v.passing P where
  put k e s he hs := by
    obtain ⟨t, run, sound, written⟩ := h.put k e s.2 he hs
    exact ⟨(s.1, t), by simp [counted, onSecond, run], sound, written.passing⟩
  get k s hs := by
    obtain ⟨r, t, run, sound, fades, found⟩ := h.get k s.2 hs
    obtain ⟨c, counts⟩ : ∃ c, (counted inner).get k s = ⟨r, (c, t)⟩ := by
      simp only [counted, bind_apply, onFirst, modify_apply, onSecond, run]
      cases r with
      | error e => exact ⟨_, rfl⟩
      | ok answer =>
        dsimp only
        split <;> exact ⟨_, rfl⟩
    exact ⟨r, (c, t), counts, sound, (fades.mono v.due_of_late).passing, found⟩
  remove k s hs := by
    obtain ⟨r, t, run, sound, swept, gone, found⟩ := h.remove k s.2 hs
    exact ⟨r, (s.1, t), by simp [counted, onSecond, run], sound, swept.passing, gone,
      found⟩
  clear s hs := by
    obtain ⟨t, run, sound, limits, gone⟩ := h.clear s.2 hs
    exact ⟨(s.1, t), by simp [counted, onSecond, run], sound, limits, gone⟩
  size s hs := by
    obtain ⟨n, t, run, sound, swept, count, bound⟩ := h.size s.2 hs
    exact ⟨n, (s.1, t), by simp [counted, Store.below, run], sound, swept.passing,
      count, bound⟩

theorem faithful_synchronized (h : inner.Faithful v P) :
    (synchronized inner).Faithful v.outer P where
  put k e s he hs := by
    obtain ⟨t, run, sound, written⟩ := h.put k e s he hs
    exact ⟨t, run, sound, written.outer⟩
  get k s hs := by
    obtain ⟨r, t, run, sound, fades, found⟩ := h.get k s hs
    exact ⟨r, t, run, sound, (fades.mono v.due_of_late).outer, found⟩
  remove k s hs := by
    obtain ⟨r, t, run, sound, swept, gone, found⟩ := h.remove k s hs
    exact ⟨r, t, run, sound, swept.outer, gone, found⟩
  clear := h.clear
  size s hs := by
    obtain ⟨n, t, run, sound, swept, count, bound⟩ := h.size s hs
    exact ⟨n, t, run, sound, swept.outer, count, bound⟩

theorem faithful_blocking (thread : Thread) (h : inner.Faithful v P) :
    (blocking thread inner).Faithful v.passing P where
  put k e s he hs := by
    obtain ⟨t, run, sound, written⟩ := h.put k e s.2 he hs
    exact ⟨(s.1.release thread k, t), by simp [blocking, releasing, run], sound,
      written.passing⟩
  get k s hs := by
    by_cases claimed : (s.1.claim thread k).1 = true
    · obtain ⟨r, t, run, sound, fades, found⟩ := h.get k s.2 hs
      obtain ⟨l, answer⟩ : ∃ l, (blocking thread inner).get k s = ⟨r, (l, t)⟩ :=
        ⟨_, by simp only [blocking_get_of_claimed thread inner k s.1 s.2 claimed, run]; rfl⟩
      exact ⟨r, (l, t), answer, sound, (fades.mono v.due_of_late).passing, found⟩
    · obtain ⟨owner, own, other⟩ := Locks.other_of_not_claimed claimed
      exact ⟨_, s, blocking_get_of_other thread inner k s.1 s.2 own other, hs, .refl s, by simp⟩
  remove k s hs := by
    obtain ⟨r, t, run, sound, swept, gone, found⟩ := h.remove k s.2 hs
    exact ⟨r, (s.1.release thread k, t), by simp [blocking, releasing, run], sound,
      swept.passing, gone, found⟩
  clear s hs := by
    obtain ⟨t, run, sound, limits, gone⟩ := h.clear s.2 hs
    exact ⟨(s.1, t), by simp [blocking, onSecond, run], sound, limits, gone⟩
  size s hs := by
    obtain ⟨n, t, run, sound, swept, count, bound⟩ := h.size s.2 hs
    exact ⟨n, (s.1, t), by simp [blocking, Store.below, run], sound, swept.passing,
      count, bound⟩

theorem adjusts_blocking (thread : Thread) : (blocking thread inner).Adjusts v.passing := by
  intro name value s hs
  simp only [blocking]
  split
  · cases Setting.word "timeout" value with
    | error e => exact ⟨_, s, rfl, hs, fun _ _ he => ⟨he, fun late => late⟩⟩
    | ok ms => exact ⟨_, (_, s.2), rfl, hs, fun _ _ he => ⟨he, fun late => late⟩⟩
  · exact ⟨_, s, rfl, hs, fun _ _ he => ⟨he, fun late => late⟩⟩

theorem clearWhenStale_spec (now : Nat) (h : inner.Faithful v P) {s : Schedule × τ}
    (hs : v.sound s.2) :
    ∃ stale b t, clearWhenStale now inner s = ⟨.ok stale, (b, t)⟩ ∧ v.sound t ∧
      v.limits t = v.limits s.2 ∧
      if stale then ∀ k, v.held t k = none
      else (b, t) = s ∧ ¬s.1.interval ≤ now - s.1.lastClear := by
  by_cases fresh : now - s.1.lastClear < s.1.interval
  · exact ⟨false, s.1, s.2, by simp [clearWhenStale, bind_apply, fresh], hs, rfl, rfl,
      Nat.not_le.mpr fresh⟩
  · obtain ⟨t, run, sound, limits, gone⟩ := h.clear s.2 hs
    exact ⟨true, { s.1 with lastClear := now }, t,
      by simp [clearWhenStale, bind_apply, fresh, onSecond, run, onFirst, Except.map],
      sound, limits, gone⟩

theorem found_after_check {now : Nat} {s : Schedule × τ} {stale : Bool} {b : Schedule} {t : τ}
    (checked : if stale then ∀ k, v.held t k = none
      else (b, t) = s ∧ ¬s.1.interval ≤ now - s.1.lastClear)
    {k : CacheKey} {e : Entry} (there : v.held t k = some e ∧ ¬v.due t) :
    (v.scheduled now).held s k = some e ∧ ¬(v.scheduled now).due s := by
  cases stale with
  | true => cases (checked k).symm.trans there.1
  | false =>
    obtain ⟨same, fresh⟩ := checked
    subst same
    exact ⟨there.1, fun due => due.elim fresh there.2⟩

theorem swept_scheduled {now : Nat} {s : Schedule × τ} {stale : Bool} {b b' : Schedule} {t u : τ}
    (checked : if stale then ∀ k, v.held t k = none
      else (b, t) = s ∧ ¬s.1.interval ≤ now - s.1.lastClear)
    (limits : v.limits t = v.limits s.2) (swept : v.Swept t u) :
    (v.scheduled now).Swept s (b', u) where
  held k e he := found_after_check checked (swept.held k e he)
  limits := swept.limits.trans limits

theorem faithful_scheduled (now : Nat) (h : inner.Faithful v P) :
    (scheduled now inner).Faithful (v.scheduled now) P where
  put k e s he hs := by
    obtain ⟨stale, b, t, check, sound, limits, checked⟩ := clearWhenStale_spec now h hs
    obtain ⟨u, run, sound', written⟩ := h.put k e t he sound
    have put : (scheduled now inner).put k e s = ⟨.ok (), (b, u)⟩ := by
      simp [scheduled, bind_apply, check, onSecond, run, Except.map]
    exact ⟨(b, u), put, sound', fun j x hx => (written.held j x hx).imp_right
      (And.imp_right (found_after_check checked)), written.limits.trans limits⟩
  get k s hs := by
    obtain ⟨stale, b, t, check, sound, limits, checked⟩ := clearWhenStale_spec now h hs
    cases stale with
    | true =>
      exact ⟨.ok none, (b, t), by simp [scheduled, bind_apply, check], sound,
        ⟨fun j x hx => (by cases (checked j).symm.trans hx), limits⟩, by simp⟩
    | false =>
      obtain ⟨same, fresh⟩ := checked
      subst same
      obtain ⟨r, u, run, sound', fades, found⟩ := h.get k t sound
      refine ⟨r, (b, u), by simp [scheduled, bind_apply, check, onSecond, run], sound',
        ⟨fun j x hx => ?_, fades.limits⟩, fun e he => ?_⟩
      · obtain ⟨there, due⟩ := fades.held j x hx
        exact ⟨there, fun stale => v.due_of_late _ (due (stale.resolve_left fresh))⟩
      · obtain ⟨there, early⟩ := found e he
        exact ⟨there, fun due => due.elim fresh early⟩
  remove k s hs := by
    obtain ⟨stale, b, t, check, sound, limits, checked⟩ := clearWhenStale_spec now h hs
    obtain ⟨found, u, run, sound', swept, gone, lookup⟩ := h.remove k t sound
    exact ⟨found, (b, u), by simp [scheduled, bind_apply, check, onSecond, run, Except.map], sound',
      swept_scheduled checked limits swept, gone,
      fun e he => found_after_check checked (lookup e he)⟩
  clear s hs := by
    obtain ⟨t, run, sound, limits, gone⟩ := h.clear s.2 hs
    exact ⟨({ s.1 with lastClear := now }, t),
      by simp [scheduled, bind_apply, onSecond, run, onFirst], sound, limits, gone⟩
  size s hs := by
    obtain ⟨stale, b, t, check, sound, limits, checked⟩ := clearWhenStale_spec now h hs
    obtain ⟨n, u, run, sound', swept, count, bound⟩ := h.size t sound
    exact ⟨n, (b, u), by simp [scheduled, Store.below, check, run], sound',
      swept_scheduled checked limits swept, count, bound⟩

theorem adjusts_scheduled (now : Nat) : (scheduled now inner).Adjusts (v.scheduled now) := by
  intro name value s hs
  simp only [scheduled]
  split
  · cases Setting.word "clearInterval" value with
    | error e => exact ⟨_, s, rfl, hs, fun _ _ he => ⟨he, fun late => late⟩⟩
    | ok ms => exact ⟨_, (_, s.2), rfl, hs, fun _ _ he => ⟨he, fun late => late⟩⟩
  · exact ⟨_, s, rfl, hs, fun _ _ he => ⟨he, fun late => late⟩⟩

theorem held_serialized {name : String} {s : τ} {k : CacheKey} {e : Entry} :
    (v.serialized name).held s k = some e ↔
      ∃ stored, v.held s k = some stored ∧ decode name stored = .ok e := by
  simp only [View.serialized, Option.bind_eq_some_iff]
  refine exists_congr fun stored => and_congr_right fun _ => ?_
  cases decode name stored <;> simp [Except.toOption]

theorem fades_serialized {name : String} {D : τ → Prop} {s t : τ} (h : v.Fades D s t) :
    (v.serialized name).Fades D s t where
  held k e he := by
    obtain ⟨stored, there, reads⟩ := held_serialized.mp he
    obtain ⟨before, due⟩ := h.held k stored there
    exact ⟨held_serialized.mpr ⟨stored, before, reads⟩, due⟩
  limits := h.limits

theorem sound_serialized {name : String} {D : τ → Prop} {s t : τ}
    (hs : (v.serialized name).sound s) (h : v.Fades D s t) (sound : v.sound t) :
    (v.serialized name).sound t :=
  ⟨fun k stored there => hs.1 k stored (h.held k stored there).1, sound⟩

theorem faithful_serialized (h : inner.Faithful v fun _ => True) (name : String) :
    (serialized inner).Faithful (v.serialized name) Entry.Plain where
  put k e s he hs := by
    obtain ⟨t, run, sound, written⟩ := h.put k e.image s trivial hs.2
    have put : (serialized inner).put k e s = ⟨.ok (), t⟩ := by
      simp [serialized, bind_apply, Entry.encode_of_plain inner.id he, run]
    refine ⟨t, put, ⟨fun j stored there => ?_, sound⟩, fun j x hx => ?_, written.limits⟩
    · obtain ⟨-, rfl⟩ | ⟨-, before, -⟩ := written.held j stored there
      · exact ⟨e, he, rfl⟩
      · exact hs.1 j stored before
    · obtain ⟨stored, there, reads⟩ := held_serialized.mp hx
      obtain ⟨same, rfl⟩ | ⟨other, before, early⟩ := written.held j stored there
      · exact .inl ⟨same, Except.ok.inj (reads.symm.trans (Entry.decode_image _ he))⟩
      · exact .inr ⟨other, held_serialized.mpr ⟨stored, before, reads⟩, early⟩
  get k s hs := by
    obtain ⟨r, t, run, sound, fades, found⟩ := h.get k s hs.2
    have fades := fades.mono v.due_of_late
    cases r with
    | error e =>
      exact ⟨.error e, t, by simp [serialized, bind_apply, run], sound_serialized hs fades sound,
        fades_serialized fades, by simp⟩
    | ok answer =>
      refine ⟨decodeFound inner.id answer, t, by simp [serialized, bind_apply, run],
        sound_serialized hs fades sound, fades_serialized fades, fun e he => ?_⟩
      cases answer with
      | none => cases he
      | some stored =>
        obtain ⟨there, early⟩ := found stored rfl
        obtain ⟨x, plain, rfl⟩ := hs.1 k stored there
        have same : x = e := by simpa [decodeFound, Entry.decode_image inner.id plain] using he
        exact ⟨held_serialized.mpr ⟨_, there, same ▸ Entry.decode_image name plain⟩, early⟩
  remove k s hs := by
    obtain ⟨found, t, run, sound, swept, gone, lookup⟩ := h.remove k s hs.2
    have gone : (v.serialized name).held t k = none := by simp only [View.serialized, gone]; rfl
    cases found with
    | none =>
      exact ⟨none, t, by simp [serialized, bind_apply, run, decodeFound],
        sound_serialized hs swept sound, fades_serialized swept, gone, by simp⟩
    | some stored =>
      obtain ⟨there, early⟩ := lookup stored rfl
      obtain ⟨e, plain, rfl⟩ := hs.1 k stored there
      refine ⟨some e, t,
        by simp [serialized, bind_apply, run, decodeFound, Entry.decode_image inner.id plain],
        sound_serialized hs swept sound, fades_serialized swept, gone, fun x hx => ?_⟩
      cases hx
      exact ⟨held_serialized.mpr ⟨_, there, Entry.decode_image name plain⟩, early⟩
  clear s hs := by
    obtain ⟨t, run, sound, limits, gone⟩ := h.clear s hs.2
    refine ⟨t, run, ⟨fun k stored there => (by cases (gone k).symm.trans there), sound⟩, limits,
      fun k => ?_⟩
    simp only [View.serialized, gone k]
    rfl
  size s hs := by
    obtain ⟨n, t, run, sound, swept, count, bound⟩ := h.size s hs.2
    have sound := sound_serialized hs swept sound
    refine ⟨n, t, run, sound, fades_serialized swept,
      fun ks all => count ks fun k stored there => ?_, bound⟩
    obtain ⟨e, plain, rfl⟩ := sound.1 k stored there
    exact all k e (held_serialized.mpr ⟨_, there, Entry.decode_image _ plain⟩)

end Layer
end StatementCache
