import StatementCache.Cache.Store
import StatementCache.Table

/-! The map at the bottom of a cache. It keeps everything until it is told not to. -/
namespace StatementCache

abbrev Entries := Table CacheKey Entry

namespace Entries

def diagnose (id : String) (entries : Entries) : String :=
  "MapCache \x7b id: " ++ Text.quoted id ++ ", size: " ++ toString entries.size ++ " \x7d"

end Entries

namespace Layer

def base (id : String) : Store Entries where
  id := id
  put k e := Action.modify (·.insert k e)
  get k := Action.total fun entries => (entries.get? k, entries)
  remove k := Action.total fun entries => (entries.get? k, entries.erase k)
  clear := Action.modify fun _ => .empty
  size := fun entries => (entries.size, entries)
  stats := fun entries => (none, entries)
  assign := Store.noSettings

end Layer
end StatementCache
