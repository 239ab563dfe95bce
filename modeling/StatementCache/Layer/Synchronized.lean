import StatementCache.Cache.Store

/-! One operation at a time: every operation of the inner cache happens as a whole. Operations
here are whole already, so the layer shows only in that it has no settings. -/
namespace StatementCache.Layer

variable {τ : Type}

def synchronized (inner : Store τ) : Store τ where
  id := inner.id
  put := inner.put
  get := inner.get
  remove := inner.remove
  clear := inner.clear
  size := inner.size
  stats := inner.stats
  assign := Store.noSettings

end StatementCache.Layer
