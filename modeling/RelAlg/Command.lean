import RelAlg.Number.Word
import RelAlg.Store.Basic

set_option autoImplicit false

namespace RelAlg

inductive Command where
  | create (name : String) (columns : List String)
  | insert (name : String) (values : List Value)
  | update (name : String) (index : Nat) (values : List Value)
  | delete (name : String) (index : Nat)
  | drop (name : String)
deriving DecidableEq

inductive Command.Form where
  | create
  | insert
  | update
  | delete
  | drop
deriving DecidableEq

def Command.Form.usage : Command.Form → String
  | create => ":create NAME col1, col2, ..."
  | insert => ":insert NAME v1, v2, ..."
  | update => ":update NAME INDEX v1, v2, ..."
  | delete => ":delete NAME INDEX"
  | drop => ":drop NAME"

inductive CommandError where
  | usage (form : Command.Form)
  | invalidIndex (text : String)
  | valueCount (name : String) (expected found : Nat)
  | store (error : StoreError)
deriving DecidableEq

def CommandError.message : CommandError → String
  | usage form => "Usage: " ++ form.usage
  | invalidIndex text => "Invalid tuple index: " ++ Text.quoted text
  | valueCount name expected found =>
    "Relation " ++ name ++ " has " ++ expected.repr ++ " column(s), got " ++ found.repr ++
      " value(s)"
  | store error => error.message

namespace Command

inductive Done where
  | created (name : String) (columns : Nat)
  | inserted (index : Nat) (name : String)
  | updated (index : Nat) (name : String)
  | deleted (index : Nat) (name : String)
  | dropped (name : String) (tuples : Nat)

def Done.message : Done → String
  | created name columns =>
    "Created relation " ++ name ++ " with " ++ columns.repr ++ " column(s)"
  | inserted index name => "Inserted tuple " ++ index.repr ++ " into " ++ name
  | updated index name => "Updated tuple " ++ index.repr ++ " of " ++ name
  | deleted index name => "Deleted tuple " ++ index.repr ++ " of " ++ name
  | dropped name tuples => "Dropped relation " ++ name ++ " (" ++ tuples.repr ++ " tuple(s))"

def Form.ofKeyword? (cs : List Char) : Option Form :=
  match String.ofList cs with
  | ":create" => some .create
  | ":insert" => some .insert
  | ":update" => some .update
  | ":delete" => some .delete
  | ":drop" => some .drop
  | _ => none

/-- The parts between commas, without outer blanks; none of a blank text. -/
def splitList (cs : List Char) : List String :=
  if (Text.trim cs).isEmpty then []
  else (cs.splitOn ',').map fun part => String.ofList (Text.trim part)

def parseValues (cs : List Char) : List Value :=
  (splitList cs).map Value.ofInput

/-- The index at the start of the text, and the rest. -/
def parseIndex (form : Form) (cs : List Char) : Except CommandError Nat :=
  if cs.isEmpty then .error (.usage form)
  else
    match readWord? cs with
    | some n => .ok n
    | none => .error (.invalidIndex (String.ofList cs))

def parseForm (form : Form) (name : String) (cs : List Char) : Except CommandError Command :=
  match form with
  | .create =>
    let columns := splitList cs
    if columns.isEmpty then .error (.usage form) else .ok (.create name columns)
  | .insert => .ok (.insert name (parseValues cs))
  | .update => do
    let (index, values) := Text.splitWord cs
    return .update name (← parseIndex form index) (parseValues values)
  | .delete =>
    let (index, extra) := Text.splitWord cs
    if !extra.isEmpty then .error (.usage form)
    else do return .delete name (← parseIndex form index)
  | .drop => if !cs.isEmpty then .error (.usage form) else .ok (.drop name)

/-- The command of a line; none if its first word is no keyword. -/
def parse (line : List Char) : Except CommandError (Option Command) :=
  let (keyword, rest) := Text.splitWord line
  match Form.ofKeyword? keyword with
  | none => .ok none
  | some form => do
    let (name, rest) := Text.splitWord rest
    if name.isEmpty then .error (.usage form)
    else return some (← parseForm form (String.ofList name) rest)

def liftStore {α : Type} : Except StoreError α → Except CommandError α
  | .ok a => .ok a
  | .error e => .error (.store e)

def tupleFor (s : Store) (name : String) (values : List Value) : Except CommandError Tuple :=
  match s.columns? name with
  | none => .error (.store (.notFound name))
  | some columns =>
    if columns.length = values.length then .ok (Tuple.ofPairs (columns.zip values))
    else .error (.valueCount name columns.length values.length)

def apply (s : Store) : Command → Except CommandError (String × Store)
  | create name columns => do
    let s' ← liftStore (s.create name columns)
    return ((Done.created name columns.length).message, s')
  | insert name values => do
    let t ← tupleFor s name values
    let s' ← liftStore (s.insertTuple name t)
    let size := ((s'.get? name).map List.length).getD 0
    return ((Done.inserted (size - 1) name).message, s')
  | update name index values => do
    let t ← tupleFor s name values
    let (_, s') ← liftStore (s.updateTuple name index t)
    return ((Done.updated index name).message, s')
  | delete name index => do
    let (_, s') ← liftStore (s.deleteTuple name index)
    return ((Done.deleted index name).message, s')
  | drop name => do
    let (r, s') ← liftStore (s.drop name)
    return ((Done.dropped name r.length).message, s')

end Command

end RelAlg
