import RelAlg.Command
import RelAlg.Expr.Eval

set_option autoImplicit false

namespace RelAlg

structure History.Entry where
  query : String
  count : Nat
  result : Relation
deriving DecidableEq

structure History where
  capacity : Nat
  entries : List History.Entry
deriving DecidableEq

namespace History

def empty (capacity : Nat) : History := ⟨capacity, []⟩

/-- The room for all entries is set aside at the start, 72 bytes for each, and has to be
addressable. -/
def fits (capacity : Nat) : Bool := 72 * capacity < Nat.pow 2 63

/-- Entries beyond the capacity are forgotten, the oldest first. -/
def record (h : History) (query : String) (result : Relation) : History :=
  if h.capacity = 0 then h
  else { h with entries := (⟨query, result.length, result⟩ :: h.entries).take h.capacity }

end History

def defaultHistory : Nat := 50

structure Session where
  store : Store
  maxDepth : Nat
  history : History

namespace Session

def start (store : Store) (maxDepth capacity : Nat) : Session :=
  ⟨store, maxDepth, .empty capacity⟩

/-- Answers a query and records it without its outer blanks. A blank one is refused. -/
def execute (s : Session) (query : String) : Except QueryError (Relation × Session) :=
  let query := Text.trimmed query
  if query.isEmpty then .error (.parse .emptyQuery query)
  else do
    let r ← s.store.query s.maxDepth query
    return (r, { s with history := s.history.record query r })

def edit (s : Session) (line : String) : Except CommandError (Option (String × Session)) := do
  match ← Command.parse line.toList with
  | none => return none
  | some command =>
    let (message, store) ← command.apply s.store
    return some (message, { s with store })

end Session

end RelAlg
