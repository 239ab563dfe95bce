import Mathlib.Data.List.Induction
import StatementCache.Cache.Store

/-! What a cache can be asked for, and runs of such operations one after the other. -/
namespace StatementCache

inductive Demand where
  | put (k : CacheKey) (e : Entry)
  | get (k : CacheKey)
  | remove (k : CacheKey)
  | clear
  | size
  /-- Offers a setting to the outermost layer. -/
  | assign (name value : String)

inductive Response where
  | done
  | found (e : Option Entry)
  | count (n : Nat)
  | known (b : Bool)

def Demand.on {σ : Type} (store : Store σ) : Demand → Action σ Response
  | .put k e => (fun _ => .done) <$> store.put k e
  | .get k => .found <$> store.get k
  | .remove k => .found <$> store.remove k
  | .clear => (fun _ => .done) <$> store.clear
  | .size => Action.total fun s => (.count (store.size s).1, (store.size s).2)
  | .assign name value => .known <$> store.assign name value

namespace Action

variable {ι σ α : Type} (step : ι → Action σ α)

def played (steps : List ι) (s : σ) : σ := steps.foldl (fun s i => (step i s).state) s

@[simp] theorem played_nil (s : σ) : played step [] s = s := rfl

theorem played_cons (i : ι) (steps : List ι) (s : σ) :
    played step (i :: steps) s = played step steps (step i s).state := rfl

theorem played_concat (steps : List ι) (i : ι) (s : σ) :
    played step (steps ++ [i]) s = (step i (played step steps s)).state := by
  simp only [played, List.foldl_append, List.foldl_cons, List.foldl_nil]

end Action
end StatementCache
