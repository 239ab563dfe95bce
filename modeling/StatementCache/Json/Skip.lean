import StatementCache.Json.Number
import StatementCache.Json.Quoted

/-! Values of unknown members: their grammar is checked, whatever they are and however deep they
nest, and nothing is kept of them. -/
namespace StatementCache.Json.Reader

def skipHead : Reader (Option Char) := do
  match ← look with
  | none => fail .truncated
  | some 'n' => advance; keyword ['u', 'l', 'l']; pure none
  | some 't' => advance; keyword ['r', 'u', 'e']; pure none
  | some 'f' => advance; keyword ['a', 'l', 's', 'e']; pure none
  | some '"' => advance; skipString; pure none
  | some '[' => advance; pure (some '[')
  | some '\x7b' => advance; pure (some '\x7b')
  | some c =>
    if c = '-' ∨ c.isDigit then do skipNumber; pure none else fail .malformed
where
  someDigits : Reader Unit := do
    if (← digits).isEmpty then fail .malformed
  skipNumber : Reader Unit := do
    if (← peek) = some '-' then advance
    let ds ← digits
    match ds with
    | [] => fail .malformed
    | 0 :: _ :: _ => fail .malformed
    | _ =>
      if (← peek) = some '.' then
        advance
        someDigits
      if (← peek) = some 'e' ∨ (← peek) = some 'E' then
        advance
        if (← peek) = some '+' ∨ (← peek) = some '-' then advance
        someDigits

def skipName (container : Char) : Reader Unit := do
  if container = '\x7b' then
    match ← look with
    | none => fail .truncated
    | some '"' => advance; skipString; punctuation ':'
    | some _ => fail .malformed

/-- Closes containers until an item follows; `afterItem` says whether a comma may stand here. The
result holds the containers that are still open, the innermost first. -/
def skipClosings : Bool → List Char → Reader (List Char)
  | _, [] => pure []
  | afterItem, container :: outer => do
    match ← look with
    | none => fail .truncated
    | some c =>
      if c = ',' ∧ afterItem then
        advance
        skipName container
        pure (container :: outer)
      else if c = (if container = '[' then ']' else '\x7d') then
        advance
        skipClosings true outer
      else if afterItem then fail .malformed
      else
        skipName container
        pure (container :: outer)

def skipFrom : Nat → List Char → Reader Unit
  | 0, _ => fail .truncated
  | fuel + 1, stack => do
    let rest ← (do
      match ← skipHead with
      | none => skipClosings true stack
      | some container => skipClosings false (container :: stack))
    if rest.isEmpty then pure () else skipFrom fuel rest

def skip : Reader Unit := do
  let s ← get
  skipFrom (s.length + 1) []

end StatementCache.Json.Reader
