import StatementCache.Proofs.Sessions.Scene

/-! What sessions have read for one cache. From some point of a run on, sessions that are opened
later and one that starts over can be told apart from the older ones: all they have was read after
that point. -/
namespace StatementCache

namespace Ledger

def rowsIn (serial : Nat) (V : List Event → CacheKey → Rows → Prop) : Ledger :=
  fun log j k e => j = serial → ∀ rows, e = .rows rows → V log k rows

variable {serial : Nat} {V W : List Event → CacheKey → Rows → Prop}

theorem rowsIn_persists
    (grow : ∀ log log' k rows, log <+: log' → V log k rows → V log' k rows) :
    (rowsIn serial V).Persists :=
  fun log log' _ k _ longer h same rows eq => grow log log' k rows longer (h same rows eq)

theorem holds_rowsIn {c : Cache} {log log' : List Event} {j : Nat}
    (h : c.Holds (rowsIn serial V log j)) (weaker : ∀ k rows, V log k rows → W log' k rows) :
    c.Holds (rowsIn serial W log' j) := by
  refine ⟨h.builtIn, fun copies => ?_, fun k e found same rows eq =>
    weaker k rows (h.entry k e found same rows eq)⟩
  intro id k e e' coded _ same rows eq
  subst eq
  rcases coded with encoded | decoded
  · cases e with
    | rows r => cases encoded
    | snapshot bytes => cases encoded
    | handle _ => cases encoded
    | placeholder => cases encoded
  · cases e with
    | rows r => cases decoded
    | handle _ => cases decoded
    | placeholder => cases decoded
    | snapshot bytes =>
      -- a snapshot has the property for want of rows, so what it is decoded to has it too
      have valid : rowsIn serial V log j k (.snapshot bytes) := fun _ rows eq => by cases eq
      exact weaker k rows (h.copyable copies id k _ _ (.inr decoded) valid same rows rfl)

theorem rowsIn_grows
    (grow : ∀ log log' k rows, log <+: log' → V log k rows → V log' k rows) :
    (rowsIn serial V).Grows :=
  fun log log' _ _ longer h => holds_rowsIn h fun k rows => grow log log' k rows longer

theorem rowsIn_publishes (weaker : ∀ log k rows, V log k rows → W log k rows) :
    (rowsIn serial V).Publishes (rowsIn serial W) :=
  ⟨fun log _ k _ h same rows eq => weaker log k rows (h same rows eq),
    fun _ _ _ _ rows eq => by cases eq⟩

theorem holds_cleared {B : Nat → CacheKey → Entry → Prop} {os : Overlays} {ref : CacheRef}
    {log : List Event}
    (h : Overlays.Holds B ⟨os.bySerial.insert ref.serial (os.overlay ref).clear⟩) :
    Overlays.Holds (rowsIn ref.serial V log)
      ⟨os.bySerial.insert ref.serial (os.overlay ref).clear⟩ := by
  intro j o filed
  refine ⟨(h j o filed).1, fun k e pending same => ?_⟩
  subst same
  dsimp only at filed
  rw [Table.get?_insert, if_pos rfl] at filed
  cases filed
  cases pending

theorem rowsIn_other (log : List Event) {j : Nat} (other : j ≠ serial) :
    rowsIn serial V log j = free log j := by
  funext k e
  exact propext ⟨fun _ => trivial, fun _ same => absurd same other⟩

end Ledger

namespace Application

/-- The part of the report from which a session has its results: everything for a session older
than the write, what follows the write for the writer and for every later session. -/
def startOf (writer first : Nat) (mark : List Event) (i : Nat) : List Event :=
  if i = writer ∨ first ≤ i then mark else []

def reading (a : Application) (serial : Nat) (since : Nat → List Event) (i : Nat) : Ledger :=
  Ledger.rowsIn serial (a.Obtained i (since i))

variable {a : Application} {w : World} {writer first : Nat} {mark : List Event} {s : Scene}

theorem reading_persists (serial : Nat) (since : Nat → List Event) (i : Nat) :
    (a.reading serial since i).Persists :=
  Ledger.rowsIn_persists fun _ _ _ _ longer h => h.mono longer

theorem reading_receives (serial : Nat) (since : Nat → List Event) (i : Nat) :
    (a.reading serial since i).Receives a i (since i) := by
  rintro log j key rows obtained - _ eq
  cases eq
  exact obtained

/-- Whatever the sessions do, they have read what they buffer. -/
theorem inCustody_reading {serial : Nat}
    (h : a.InCustody (fun _ => []) w (a.reading serial fun _ => []) .free s) (moves : List Move) :
    a.InCustody (fun _ => []) w (a.reading serial fun _ => []) .free (a.resume s moves) :=
  inCustody_resume (reading_persists serial _) Ledger.free_grows (reading_receives serial _)
    (fun _ => Ledger.publishes_free _) h moves

theorem inCustody_begun (builtIn : w.BuiltIn) (serial : Nat) :
    a.InCustody (fun _ => []) w (a.reading serial fun _ => []) .free ⟨[], w⟩ :=
  ⟨World.Onward.refl w, fun j c found => Ledger.holds_free (builtIn j c found),
    fun _ _ there => by cases there⟩

theorem startOf_writer : startOf writer first mark writer = mark := if_pos (.inl rfl)

theorem startOf_later {i : Nat} (later : first ≤ i) : startOf writer first mark i = mark :=
  if_pos (.inr later)

theorem startOf_older {i : Nat} (other : i ≠ writer) (older : i < first) :
    startOf writer first mark i = [] := by
  apply if_neg
  omega

theorem mark_reported {B : Nat → Ledger} {P : Ledger}
    (h : a.InCustody (startOf writer first mark) w B P s) (there : writer < s.sessions.length) :
    mark <+: s.world.log := by
  have custody := h.sessions writer _ (List.getElem?_eq_getElem there)
  rw [startOf_writer] at custody
  exact custody.after

theorem inCustody_restarted {serial : Nat}
    (h : a.InCustody (fun _ => []) w (a.reading serial fun _ => []) .free s)
    (restarted : ∀ x, s.sessions[writer]? = some x → a.Custody writer mark w
      (Ledger.rowsIn serial (a.Obtained writer mark)) .free (x.executor, s.world)) :
    a.InCustody (startOf writer s.sessions.length mark) w
      (a.reading serial (startOf writer s.sessions.length mark)) .free s := by
  refine ⟨h.onward, h.shared, fun i x there => ?_⟩
  unfold reading
  by_cases same : i = writer
  · subst same
    rw [startOf_writer]
    exact restarted x there
  · obtain ⟨older, -⟩ := List.getElem?_eq_some_iff.mp there
    rw [startOf_older same older]
    exact h.sessions i x there

theorem inCustody_opened_later {serial : Nat}
    (h : a.InCustody (fun _ => []) w (a.reading serial fun _ => []) .free s)
    (point : mark <+: s.world.log) (moves : List Move) :
    let since := startOf s.sessions.length s.sessions.length mark
    a.InCustody since s.world (a.reading serial since) .free (a.resume s moves) := by
  intro since
  let I (t : Scene) : Prop := s.sessions.length ≤ t.sessions.length ∧
    a.InCustody since s.world (a.reading serial since) .free t
  suffices I (a.resume s moves) from this.2
  apply resume_induction
  · refine ⟨Nat.le_refl _, (inCustody_restarted h fun x there => ?_).raise⟩
    obtain ⟨range, -⟩ := List.getElem?_eq_some_iff.mp there
    exact absurd range (Nat.lt_irrefl _)
  · rintro t m ⟨older, h⟩
    refine ⟨Nat.le_trans older (length_act m), ?_⟩
    apply inCustody_act (reading_persists serial _) Ledger.free_grows h
    refine ⟨fun _ => ?_, fun i _ _ _ _ => reading_receives serial since i,
      fun _ _ _ _ _ => Ledger.publishes_free _⟩
    rw [show since t.sessions.length = mark from startOf_later older]
    exact point.trans h.onward.grown

end Application
end StatementCache
