import StatementCache.Proofs.Contents.Faithful
import StatementCache.Proofs.Snapshot.Canonical

/-! What a map of copies takes, and what it gives back of it. A handle is refused. A result and a
placeholder come back as they were put. Bytes are taken unread, so they come back as the result that
they start with, and as an error when they start with none. -/
namespace StatementCache

namespace Entry

def Counted : Entry → Prop
  | .rows r => r.Sized
  | .snapshot _ | .handle _ | .placeholder => True

/-- What a lookup gives of a value that has been taken. -/
inductive ReadBack : Entry → Except Fault (Option Entry) → Prop
  | same {v : Entry} (foreign : ∀ bytes, v ≠ .snapshot bytes) : ReadBack v (.ok (some v))
  | decoded {bytes : List UInt8} {rows : Rows} (sized : rows.Sized)
      (front : Snapshot.ofRows rows <+: bytes) :
      ReadBack (.snapshot bytes) (.ok (some (.rows rows)))
  | unreadable {bytes : List UInt8} {reason : String}
      (none : ∀ rows : Rows, rows.Sized → ¬Snapshot.ofRows rows <+: bytes) :
      ReadBack (.snapshot bytes) (.error (.serialization reason))

theorem ReadBack.eq_of_foreign {v : Entry} {read : Except Fault (Option Entry)}
    (h : v.ReadBack read) (foreign : ∀ bytes, v ≠ .snapshot bytes) : read = .ok (some v) := by
  cases h with
  | same => rfl
  | decoded | unreadable => exact absurd rfl (foreign _)

end Entry

namespace Layer

variable {id : String} {m : Entries} {k : CacheKey} {v stored : Entry}

theorem handle_of_encode_error {fault : Fault} (h : encode id v = .error fault) :
    (∃ handle, v = .handle handle) ∧ ∃ reason, fault = .notSerializable reason := by
  cases v with
  | handle handle => exact ⟨⟨handle, rfl⟩, _, (Except.error.inj h).symm⟩
  | rows _ | snapshot _ | placeholder => cases h

theorem readBack_snapshot (id : String) (bytes : List UInt8) :
    (Entry.snapshot bytes).ReadBack (some <$> decode id (.snapshot bytes)) := by
  cases read : Snapshot.toRows bytes with
  | ok rows =>
    obtain ⟨sized, front⟩ := Snapshot.toRows_eq_ok_iff.mp read
    rw [decode_snapshot_iff.mpr ⟨sized, front⟩]
    exact .decoded sized front
  | error defect =>
    have refused : decode id (.snapshot bytes) = .error (.serialization defect.message) := by
      rw [decode, read]
    rw [refused]
    refine .unreadable fun rows sized front => ?_
    cases read.symm.trans (Snapshot.toRows_eq_ok_iff.mpr ⟨sized, front⟩)

/-- The two case analyses agree: what can be written can be read, as far as it is a value at all. -/
theorem readBack_of_encode (counted : v.Counted) (h : encode id v = .ok stored) :
    v.ReadBack (some <$> decode id stored) := by
  have back (plain : v.Plain) : decode id stored = .ok v := by
    rw [Entry.encode_of_plain id plain] at h
    rw [← Except.ok.inj h, Entry.decode_image id plain]
  cases v with
  | rows r =>
    rw [back counted]
    exact .same (by simp)
  | placeholder =>
    rw [back trivial]
    exact .same (by simp)
  | snapshot bytes =>
    cases h
    exact readBack_snapshot id bytes
  | handle _ => cases h

theorem put_copies_of_error {fault : Fault} (h : encode id v = .error fault) :
    (serialized (base id)).put k v m = ⟨.error fault, m⟩ := by
  simp [serialized, base, Action.bind_apply, h]

theorem put_copies_of_ok (h : encode id v = .ok stored) :
    (serialized (base id)).put k v m = ⟨.ok (), m.insert k stored⟩ := by
  simp [serialized, base, Action.bind_apply, h]

theorem get_copies_insert (j : CacheKey) : (serialized (base id)).get j (m.insert k stored) =
    ⟨if k = j then some <$> decode id stored else ((serialized (base id)).get j m).result,
      m.insert k stored⟩ := by
  change (⟨decodeFound id ((m.insert k stored).get? j), m.insert k stored⟩ : Outcome _ _) = _
  rw [Table.get?_insert]
  split <;> rfl

/-- A value is taken, and then it is read back under its key, again and again, and under the other
keys there is what was there; or it is a handle, the map is as before, and the error says so. Bytes
are kept as they are. -/
theorem taken_values_come_back (id : String) (m : Entries) (k : CacheKey) (v : Entry)
    (counted : v.Counted) :
    let layer := serialized (base id)
    let written := layer.put k v m
    let read := layer.get k written.state
    ((∀ handle, v ≠ .handle handle) ∧ written.result = .ok () ∧
        v.ReadBack read.result ∧ read.state = written.state ∧
        (∀ j, j ≠ k → (layer.get j written.state).result = (layer.get j m).result) ∧
        ∀ bytes, v = .snapshot bytes → written.state.get? k = some v) ∨
      (∃ handle, v = .handle handle) ∧ written.state = m ∧
        ∃ reason, written.result = .error (.notSerializable reason) := by
  intro layer written read
  cases coded : encode id v with
  | error fault =>
    have refused : written = ⟨.error fault, m⟩ := put_copies_of_error coded
    obtain ⟨handle, reason, rfl⟩ := handle_of_encode_error coded
    rw [refused]
    exact .inr ⟨handle, rfl, reason, rfl⟩
  | ok stored =>
    have put : written = ⟨.ok (), m.insert k stored⟩ := put_copies_of_ok coded
    have got : read = ⟨some <$> decode id stored, m.insert k stored⟩ := by
      simp only [read, layer, put, get_copies_insert, if_true]
    rw [got, put]
    refine .inl ⟨?_, rfl, readBack_of_encode counted coded, rfl, fun j other => ?_, ?_⟩
    · rintro handle rfl
      cases coded
    · simp only [layer, get_copies_insert, if_neg (Ne.symm other)]
    · rintro bytes rfl
      cases coded
      rw [Table.get?_insert, if_pos rfl]

theorem taken_values_come_back_of_nested :
    let layer := serialized (base "orders")
    let written := layer.put .empty (.rows nested) .empty
    (Entry.rows nested).Counted ∧ written.result = .ok () ∧
      (layer.get .empty written.state).result = .ok (some (.rows nested)) := by
  have counted : (Entry.rows nested).Counted := sized_nested
  obtain ⟨-, ok, back, -⟩ | ⟨⟨_, handle⟩, -⟩ :=
    taken_values_come_back "orders" .empty .empty (.rows nested) counted
  · exact ⟨counted, ok, back.eq_of_foreign (by simp)⟩
  · cases handle

/-- Bytes do not come back as they were put: an empty result's come back as the result, and with
bytes that are no result's the key cannot be read. -/
theorem bytes_do_not_come_back :
    let layer := serialized (base "users")
    let after (bytes : List UInt8) := layer.put .empty (.snapshot bytes) .empty
    let zeros : List UInt8 := [0, 0, 0, 0, 0, 0, 0, 0]
    (after zeros).result = .ok () ∧
      (layer.get .empty (after zeros).state).result = .ok (some (.rows [])) ∧
      (after [1]).result = .ok () ∧ (layer.get .empty (after [1]).state).result =
        .error (.serialization "io error: unexpected end of file") ∧
      ¬∀ (id : String) (m : Entries) (k : CacheKey) (v : Entry), v.Counted →
        let written := (serialized (base id)).put k v m
        (∃ fault, written.result = .error fault) ∧ written.state = m ∨
          written.result = .ok () ∧
            ((serialized (base id)).get k written.state).result = .ok (some v) := by
  intro layer after zeros
  refine ⟨rfl, rfl, rfl, rfl, fun claim => ?_⟩
  obtain ⟨⟨fault, refused⟩, -⟩ | ⟨-, same⟩ := claim "users" .empty .empty (.snapshot zeros) trivial
  · cases refused
  · cases same

end Layer
end StatementCache
