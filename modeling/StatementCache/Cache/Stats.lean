import StatementCache.Binary64.Style

/-! How often lookups found a value. -/
namespace StatementCache

structure Stats where
  requests : UInt64
  hits : UInt64
  size : Nat
  deriving DecidableEq

namespace Stats

def default : Stats := ⟨0, 0, 0⟩

def misses (s : Stats) : UInt64 := s.requests - s.hits

def ratio (requests hits : UInt64) : Binary64 :=
  if requests = 0 then .zero
  else (Binary64.ofNat hits.toNat).quotient (Binary64.ofNat requests.toNat)

def hitRate (s : Stats) : Binary64 := ratio s.requests s.hits

def display (s : Stats) : String :=
  "Cache: " ++ toString s.size ++ " entries, " ++
    (s.hitRate.product (.ofNat 100)).oneDecimal ++ "% hit rate (" ++
    toString s.hits.toNat ++ " hits, " ++ toString s.misses.toNat ++ " misses)"

end Stats
end StatementCache
