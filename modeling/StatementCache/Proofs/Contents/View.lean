import StatementCache.Cache.Chain
import StatementCache.Proofs.Snapshot.RoundTrip

/-! What a cache can still hand out. A layer loses entries by its own bookkeeping and at its own
times; it never brings back what went, and it never mixes up what it keeps. Whether that is so is
told by a view of the state: what is held, which clears are due, and how many entries there may
be. -/
namespace StatementCache

structure View (σ : Type) where
  /-- The bookkeeping of all layers fits what is held. -/
  sound : σ → Prop
  /-- What a lookup finds that is neither refused nor too late. -/
  held : σ → CacheKey → Option Entry
  /-- The interval of a scheduled layer has passed. -/
  due : σ → Prop
  /-- The interval of a scheduled layer below the outermost layer has passed. -/
  late : σ → Prop
  /-- No size is above any of these. -/
  limits : σ → List Nat
  due_of_late : ∀ s, late s → due s

namespace View

variable {σ τ β : Type} (v : View σ)

/-- Nothing comes, and nothing stays without what was due having `D` afterwards. -/
structure Fades (D : σ → Prop) (s s' : σ) : Prop where
  held : ∀ k e, v.held s' k = some e → v.held s k = some e ∧ (v.due s → D s')
  limits : v.limits s' = v.limits s

abbrev Swept : σ → σ → Prop := v.Fades fun _ => False

structure Written (k : CacheKey) (e : Entry) (s s' : σ) : Prop where
  held : ∀ j x, v.held s' j = some x →
    (j = k ∧ x = e) ∨ (j ≠ k ∧ v.held s j = some x ∧ ¬v.due s)
  limits : v.limits s' = v.limits s

variable {v} {D D' : σ → Prop} {s t u : σ} {k : CacheKey} {e : Entry}

namespace Fades

theorem refl (s : σ) : v.Fades v.due s s := ⟨fun _ _ h => ⟨h, id⟩, rfl⟩

theorem mono (h : v.Fades D s t) (weaker : ∀ s, D s → D' s) : v.Fades D' s t :=
  ⟨fun k e he => ⟨(h.held k e he).1, fun due => weaker t ((h.held k e he).2 due)⟩, h.limits⟩

theorem trans (first : v.Fades v.due s t) (second : v.Fades D t u) : v.Fades D s u where
  held k e he := by
    obtain ⟨there, still⟩ := second.held k e he
    obtain ⟨before, due⟩ := first.held k e there
    exact ⟨before, fun h => still (due h)⟩
  limits := second.limits.trans first.limits

theorem found (h : v.Fades v.due s t) (there : v.held t k = some e ∧ ¬v.due t) :
    v.held s k = some e ∧ ¬v.due s := by
  obtain ⟨before, due⟩ := h.held k e there.1
  exact ⟨before, fun h => there.2 (due h)⟩

theorem weaken (h : v.Swept s t) : v.Fades D s t := h.mono fun _ => False.elim

end Fades

theorem Written.trans (first : v.Written k e s t) (second : v.Fades D t u) : v.Written k e s u where
  held j x hx := first.held j x (second.held j x hx).1
  limits := second.limits.trans first.limits

theorem Written.after (first : v.Fades v.due s t) (second : v.Written k e t u) :
    v.Written k e s u where
  held j x hx := (second.held j x hx).imp_right (And.imp_right first.found)
  limits := second.limits.trans first.limits

def comap (f : σ → τ) (v : View τ) : View σ where
  sound s := v.sound (f s)
  held s := v.held (f s)
  due s := v.due (f s)
  late s := v.late (f s)
  limits s := v.limits (f s)
  due_of_late s := v.due_of_late (f s)

def above (fits : β → (CacheKey → Option Entry) → Prop) (own : β → List Nat) (v : View τ) :
    View (β × τ) where
  sound s := fits s.1 (v.held s.2) ∧ v.sound s.2
  held s := v.held s.2
  due s := v.due s.2
  late s := v.due s.2
  limits s := own s.1 ++ v.limits s.2
  due_of_late _ := id

theorem Fades.comap {v : View τ} {f : σ → τ} {t' : τ} {D : τ → Prop} (same : f t = t')
    (h : v.Fades D (f s) t') : (v.comap f).Fades (fun s => D (f s)) s t := by
  subst same
  exact ⟨h.held, h.limits⟩

theorem Swept.comap {v : View τ} {f : σ → τ} {t' : τ} (same : f t = t')
    (h : v.Swept (f s) t') : (v.comap f).Swept s t := Fades.comap same h

theorem Written.comap {v : View τ} {f : σ → τ} {t' : τ} (same : f t = t')
    (h : v.Written k e (f s) t') : (v.comap f).Written k e s t := by
  subst same
  exact ⟨h.held, h.limits⟩

def passing (v : View τ) : View (β × τ) where
  sound s := v.sound s.2
  held s := v.held s.2
  due s := v.due s.2
  late s := v.due s.2
  limits s := v.limits s.2
  due_of_late _ := id

def outer (v : View τ) : View τ := { v with late := v.due, due_of_late := fun _ => id }

variable {fits : β → (CacheKey → Option Entry) → Prop} {own : β → List Nat} {v : View τ}

theorem Fades.passing {t t' : τ} {D : τ → Prop} (h : v.Fades D t t') {b b' : β} :
    v.passing.Fades (fun s => D s.2) (b, t) (b', t') := ⟨h.held, h.limits⟩

theorem Written.passing {t t' : τ} (h : v.Written k e t t') {b b' : β} :
    v.passing.Written k e (b, t) (b', t') := ⟨h.held, h.limits⟩

theorem Fades.outer {t t' : τ} {D : τ → Prop} (h : v.Fades D t t') : v.outer.Fades D t t' :=
  ⟨h.held, h.limits⟩

theorem Written.outer {t t' : τ} (h : v.Written k e t t') : v.outer.Written k e t t' :=
  ⟨h.held, h.limits⟩

theorem Fades.above {t t' : τ} {D : τ → Prop} (h : v.Fades D t t') {b b' : β}
    (same : own b' = own b) : (v.above fits own).Fades (fun s => D s.2) (b, t) (b', t') :=
  ⟨h.held, by simp only [View.above, same, h.limits]⟩

theorem Written.above {t t' : τ} (h : v.Written k e t t') {b b' : β} (same : own b' = own b) :
    (v.above fits own).Written k e (b, t) (b', t') :=
  ⟨h.held, by simp only [View.above, same, h.limits]⟩

end View

namespace Store

variable {σ τ : Type}

/-- The store loses entries and nothing else. Entries that may be put have `P`. -/
structure Faithful (store : Store σ) (v : View σ) (P : Entry → Prop) : Prop where
  put : ∀ k e s, P e → v.sound s →
    ∃ s', store.put k e s = ⟨.ok (), s'⟩ ∧ v.sound s' ∧ v.Written k e s s'
  get : ∀ k s, v.sound s →
    ∃ r s', store.get k s = ⟨r, s'⟩ ∧ v.sound s' ∧ v.Fades v.late s s' ∧
      ∀ e, r = .ok (some e) → v.held s k = some e ∧ ¬v.due s
  remove : ∀ k s, v.sound s →
    ∃ found s', store.remove k s = ⟨.ok found, s'⟩ ∧ v.sound s' ∧ v.Swept s s' ∧
      v.held s' k = none ∧ ∀ e, found = some e → v.held s k = some e ∧ ¬v.due s
  clear : ∀ s, v.sound s →
    ∃ s', store.clear s = ⟨.ok (), s'⟩ ∧ v.sound s' ∧ v.limits s' = v.limits s ∧
      ∀ k, v.held s' k = none
  /-- The size counts what is held, so a list with all held keys is as long at least. -/
  size : ∀ s, v.sound s →
    ∃ n s', store.size s = (n, s') ∧ v.sound s' ∧ v.Swept s s' ∧
      (∀ ks : List CacheKey, (∀ k e, v.held s' k = some e → k ∈ ks) → n ≤ ks.length) ∧
      ∀ limit ∈ v.limits s', n ≤ limit

def Adjusts (store : Store σ) (v : View σ) : Prop :=
  ∀ name value s, v.sound s →
    ∃ r s', store.assign name value s = ⟨r, s'⟩ ∧ v.sound s' ∧
      ∀ k e, v.held s' k = some e → v.held s k = some e ∧ (v.late s → v.late s')

variable {store : Store σ} {v : View σ} {P : Entry → Prop}

theorem Adjusts.of_noSettings (h : ∀ name value, store.assign name value = pure false) :
    store.Adjusts v := by
  intro name value s sound
  exact ⟨.ok false, s, by rw [h]; rfl, sound, fun _ _ he => ⟨he, fun late => late⟩⟩

theorem Faithful.mono {Q : Entry → Prop} (h : store.Faithful v P) (weaker : ∀ e, Q e → P e) :
    store.Faithful v Q :=
  { h with put := fun k e s he => h.put k e s (weaker e he) }

theorem Faithful.beside (h : store.Faithful v P) :
    (store.beside : Store (σ × τ)).Faithful (v.comap Prod.fst) P where
  put k e s he hs := by
    obtain ⟨s', run, sound, written⟩ := h.put k e s.1 he hs
    exact ⟨(s', s.2), by simp [Store.beside, Action.onFirst, run], sound, written.comap rfl⟩
  get k s hs := by
    obtain ⟨r, s', run, sound, fades, found⟩ := h.get k s.1 hs
    exact ⟨r, (s', s.2), by simp [Store.beside, Action.onFirst, run], sound, fades.comap rfl, found⟩
  remove k s hs := by
    obtain ⟨r, s', run, sound, swept, gone, found⟩ := h.remove k s.1 hs
    exact ⟨r, (s', s.2), by simp [Store.beside, Action.onFirst, run], sound,
      View.Swept.comap rfl swept, gone, found⟩
  clear s hs := by
    obtain ⟨s', run, sound, limits, gone⟩ := h.clear s.1 hs
    exact ⟨(s', s.2), by simp [Store.beside, Action.onFirst, run], sound, limits, gone⟩
  size s hs := by
    obtain ⟨n, s', run, sound, swept, count, bound⟩ := h.size s.1 hs
    exact ⟨n, (s', s.2), by simp [Store.beside, run], sound,
      View.Swept.comap rfl swept, count, bound⟩

theorem Faithful.regroup {store : Store τ} {v : View τ} (h : store.Faithful v P) (split : σ → τ)
    (join : τ → σ) (inverse : ∀ t, split (join t) = t) :
    (store.regroup split join).Faithful (v.comap split) P where
  put k e s he hs := by
    obtain ⟨t, run, sound, written⟩ := h.put k e (split s) he hs
    obtain ⟨s', joined, rfl⟩ : ∃ s', join t = s' ∧ split s' = t := ⟨_, rfl, inverse t⟩
    exact ⟨s', by simp [Store.regroup, run, joined], sound, written.comap rfl⟩
  get k s hs := by
    obtain ⟨r, t, run, sound, fades, found⟩ := h.get k (split s) hs
    obtain ⟨s', joined, rfl⟩ : ∃ s', join t = s' ∧ split s' = t := ⟨_, rfl, inverse t⟩
    exact ⟨r, s', by simp [Store.regroup, run, joined], sound, fades.comap rfl, found⟩
  remove k s hs := by
    obtain ⟨r, t, run, sound, swept, gone, found⟩ := h.remove k (split s) hs
    obtain ⟨s', joined, rfl⟩ : ∃ s', join t = s' ∧ split s' = t := ⟨_, rfl, inverse t⟩
    exact ⟨r, s', by simp [Store.regroup, run, joined], sound, View.Swept.comap rfl swept, gone,
      found⟩
  clear s hs := by
    obtain ⟨t, run, sound, limits, gone⟩ := h.clear (split s) hs
    obtain ⟨s', joined, rfl⟩ : ∃ s', join t = s' ∧ split s' = t := ⟨_, rfl, inverse t⟩
    exact ⟨s', by simp [Store.regroup, run, joined], sound, limits, gone⟩
  size s hs := by
    obtain ⟨n, t, run, sound, swept, count, bound⟩ := h.size (split s) hs
    obtain ⟨s', joined, rfl⟩ : ∃ s', join t = s' ∧ split s' = t := ⟨_, rfl, inverse t⟩
    exact ⟨n, s', by simp [Store.regroup, run, joined], sound, View.Swept.comap rfl swept, count,
      bound⟩

theorem Adjusts.regroup {store : Store τ} {v : View τ} (h : store.Adjusts v) (split : σ → τ)
    (join : τ → σ) (inverse : ∀ t, split (join t) = t) :
    (store.regroup split join).Adjusts (v.comap split) := by
  intro name value s hs
  obtain ⟨r, t, run, sound, kept⟩ := h name value (split s) hs
  obtain ⟨s', joined, rfl⟩ : ∃ s', join t = s' ∧ split s' = t := ⟨_, rfl, inverse t⟩
  exact ⟨r, s', by simp [Store.regroup, run, joined], sound, kept⟩

end Store
end StatementCache
