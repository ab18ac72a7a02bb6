import RelAlg.Session

/-!
Edits in place. A step works on the state itself, and if it fails, whatever it had changed by then
stays changed: a stored relation takes on columns before a tuple goes in, and it is replaced under
its name also when the edit on it failed.
-/

set_option autoImplicit false

namespace RelAlg

/-- Works on a state and may fail. A failure takes nothing back. -/
abbrev Edit (σ ε α : Type) := ExceptT ε (StateM σ) α

namespace Edit

variable {σ ε α : Type}

def runOn (e : Edit σ ε α) (s : σ) : Except ε α × σ := Id.run (StateT.run (ExceptT.run e) s)

/-- The tuple in the order of the columns. If there are none, its names become the columns. -/
def conform (name : String) (t : Tuple) : Edit Stored StoreError Tuple := do
  let s ← get
  if s.columns.isEmpty then
    set { s with columns := t.names }
    return t
  else if t.size == s.columns.length && s.columns.all t.contains then return t.project s.columns
  else throw (.columnMismatch name s.columns t.names)

def checkIndex (name : String) (index : Nat) : Edit Stored StoreError Unit := do
  let s ← get
  if s.tuples.length ≤ index then throw (.indexOutOfRange name index s.tuples.length)

def append (name : String) (t : Tuple) : Edit Stored StoreError Unit := do
  let t ← conform name t
  modify fun s => { s with tuples := s.tuples ++ [t] }

def settle (name : String) (index : Nat) (taken : Option (Tuple × Relation)) :
    Edit Stored StoreError Tuple := do
  match taken with
  | some (old, tuples) =>
    modify fun s => { s with tuples }
    return old
  | none => throw (.indexOutOfRange name index (← get).tuples.length)

def replace (name : String) (index : Nat) (t : Tuple) : Edit Stored StoreError Tuple := do
  checkIndex name index
  let t ← conform name t
  settle name index ((← get).tuples.replace? index t)

def delete (name : String) (index : Nat) : Edit Stored StoreError Tuple := do
  checkIndex name index
  settle name index ((← get).tuples.remove? index)

def onStored (name : String) (e : Edit Stored StoreError α) : Edit Store StoreError α := do
  let r ← ofExcept ((← get).find name)
  let (x, r) := e.runOn r
  modify (·.put name r)
  ofExcept x

def create (name : String) (columns : List String) : Edit Store StoreError Unit := do
  let name ← ofExcept ((← get).newName name)
  let columns ← ofExcept (Store.newColumns name [] columns)
  modify (·.put name ⟨columns, []⟩)

def drop (name : String) : Edit Store StoreError Relation := do
  let found := (← get).stored? name
  modify fun s => ⟨s.relations.erase name⟩
  match found with
  | some r => return r.tuples
  | none => throw (.notFound name)

def insertTuple (name : String) (t : Tuple) : Edit Store StoreError Unit :=
  onStored name (append name t)

def updateTuple (name : String) (index : Nat) (t : Tuple) : Edit Store StoreError Tuple :=
  onStored name (replace name index t)

def deleteTuple (name : String) (index : Nat) : Edit Store StoreError Tuple :=
  onStored name (delete name index)

def command : Command → Edit Store CommandError String
  | .create name columns => do
    ExceptT.adapt .store (create name columns)
    return (Command.Done.created name columns.length).message
  | .insert name values => do
    let t ← ofExcept (Command.tupleFor (← get) name values)
    ExceptT.adapt .store (insertTuple name t)
    let size := (((← get).get? name).map List.length).getD 0
    return (Command.Done.inserted (size - 1) name).message
  | .update name index values => do
    let t ← ofExcept (Command.tupleFor (← get) name values)
    let _ ← ExceptT.adapt .store (updateTuple name index t)
    return (Command.Done.updated index name).message
  | .delete name index => do
    let _ ← ExceptT.adapt .store (deleteTuple name index)
    return (Command.Done.deleted index name).message
  | .drop name => do
    let r ← ExceptT.adapt .store (drop name)
    return (Command.Done.dropped name r.length).message

def onStore (e : Edit Store ε α) : Edit Session ε α := do
  let (x, store) := e.runOn (← get).store
  modify fun s => { s with store }
  ofExcept x

/-- Runs the command of a line; none if the line is no command. -/
def line (text : String) : Edit Session CommandError (Option String) := do
  match ← ofExcept (Command.parse text.toList) with
  | none => return none
  | some c => return some (← onStore (command c))

def query (text : String) : Edit Session QueryError Relation := do
  let query := Text.trimmed text
  if query.isEmpty then throw (.parse .emptyQuery query)
  else
    let s ← get
    let r ← ofExcept (s.store.query s.maxDepth query)
    modify fun s => { s with history := s.history.record query r }
    return r

end Edit

namespace Session

inductive Step where
  | query (text : String)
  | line (text : String)
deriving DecidableEq

inductive Answer where
  | relation (r : Relation)
  | edited (message : String)
  | noCommand
deriving DecidableEq

inductive Fault where
  | query (error : QueryError)
  | command (error : CommandError)
deriving DecidableEq

def step : Step → Edit Session Fault Answer
  | .query text => do return .relation (← ExceptT.adapt .query (Edit.query text))
  | .line text => do
    match ← ExceptT.adapt .command (Edit.line text) with
    | some message => return .edited message
    | none => return .noCommand

end Session

end RelAlg
