import StatementCache.Cache.Snapshot
import StatementCache.Cache.Store

/-! Results are stored as snapshots and read back from them, so no two readers share one. What has
no snapshot is refused before the inner cache is touched. -/
namespace StatementCache.Layer

variable {τ : Type}

/-- Bytes from outside are stored as they are. -/
def encode (id : String) : Entry → Except Fault Entry
  | .rows r => .ok (.snapshot (Snapshot.ofRows r))
  | .placeholder => .ok .placeholder
  | .snapshot bytes => .ok (.snapshot bytes)
  | .handle _ =>
    .error (.notSerializable ("cache '" ++ id ++
      "' copies values on read; in-process handles cannot be stored"))

def decode (id : String) : Entry → Except Fault Entry
  | .snapshot bytes =>
    match Snapshot.toRows bytes with
    | .ok r => .ok (.rows r)
    | .error d => .error (.serialization d.message)
  | .placeholder => .ok .placeholder
  | e =>
    .error (.serialization ("cache '" ++ id ++ "' holds an unencoded value: " ++ e.diagnose))

def decodeFound (id : String) : Option Entry → Except Fault (Option Entry)
  | none => .ok none
  | some e => some <$> decode id e

def serialized (inner : Store τ) : Store τ where
  id := inner.id
  put k e := do
    let encoded ← Action.ofExcept (encode inner.id e)
    inner.put k encoded
  get k := do
    let found ← inner.get k
    Action.ofExcept (decodeFound inner.id found)
  remove k := do
    let found ← inner.remove k
    Action.ofExcept (decodeFound inner.id found)
  clear := inner.clear
  size := inner.size
  stats := fun s => (none, s)
  assign := Store.noSettings

end StatementCache.Layer
