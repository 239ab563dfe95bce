import StatementCache.Overlay.Basic

/-! The overlays of one unit of work, one for each shared cache that it has touched. Caches are
told apart by their serial numbers, so two caches with equal identities have overlays of their
own. -/
namespace StatementCache

structure Overlays where
  bySerial : Table Nat Overlay

namespace Overlays

variable {σ α : Type}

def empty : Overlays := ⟨.empty⟩

def touched (os : Overlays) : Nat := os.bySerial.size

def onOverlay (ref : CacheRef) (m : Action (Overlay × σ) α) : Action (Overlays × σ) α :=
  fun (os, s) =>
    let r := m ((os.bySerial.get? ref.serial).getD (.fresh ref), s)
    ⟨r.result, (⟨os.bySerial.insert ref.serial r.state.1⟩, r.state.2)⟩

def clear (ref : CacheRef) : Action (Overlays × σ) Unit :=
  onOverlay ref (Action.onFirst (Action.modify Overlay.clear))

def get (directory : Directory σ) (ref : CacheRef) (k : CacheKey) :
    Action (Overlays × σ) (Option Entry) :=
  onOverlay ref (Overlay.get directory k)

def put (ref : CacheRef) (k : CacheKey) (e : Entry) : Action (Overlays × σ) Unit :=
  onOverlay ref (Action.onFirst (Action.modify (·.put k e)))

def settle (work : Action (Overlay × σ) Unit) : Action (Overlays × σ) Unit := fun (os, s) =>
  let o := Action.all (os.bySerial.values.map fun overlay s =>
    let r := work (overlay, s)
    ⟨r.result, r.state.2⟩) s
  ⟨o.result, (empty, o.state)⟩

def commit (directory : Directory σ) : Action (Overlays × σ) Unit :=
  settle (Overlay.commit directory)

def rollback (directory : Directory σ) : Action (Overlays × σ) Unit :=
  settle (Overlay.rollback directory)

end Overlays
end StatementCache
