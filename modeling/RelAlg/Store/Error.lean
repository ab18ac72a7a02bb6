import RelAlg.Text.Quoted

set_option autoImplicit false

namespace RelAlg

inductive StoreError where
  | notFound (name : String)
  | alreadyExists (name : String)
  | invalidName (name : String)
  | noColumns (name : String)
  | invalidColumn (name column : String)
  | duplicateColumn (name column : String)
  | columnMismatch (name : String) (expected found : List String)
  | indexOutOfRange (name : String) (index size : Nat)
  | unknownSample (name : String)
  | malformedJson
deriving DecidableEq

namespace StoreError

def message : StoreError → String
  | notFound name => "Relation not found: " ++ name
  | alreadyExists name => "Relation already exists: " ++ name
  | invalidName name => "Invalid relation name: " ++ Text.quoted name
  | noColumns name => "Relation " ++ name ++ " needs at least one column"
  | invalidColumn name column =>
    "Invalid column name " ++ Text.quoted column ++ " in relation " ++ name
  | duplicateColumn name column => "Duplicate column " ++ column ++ " in relation " ++ name
  | columnMismatch name expected found =>
    "Tuple does not match relation " ++ name ++ ": expected (" ++
      String.intercalate ", " expected ++ "), found (" ++ String.intercalate ", " found ++ ")"
  | indexOutOfRange name index size =>
    "Tuple index " ++ index.repr ++ " out of range for relation " ++ name ++ " (" ++
      size.repr ++ " tuples)"
  | unknownSample name => "Unknown sample relation: " ++ name
  | malformedJson => "JSON error: malformed seed"

/-- The error behind this one, if it only passes one on. -/
def cause? : StoreError → Option String
  | malformedJson => some "malformed seed"
  | _ => none

end StoreError

end RelAlg
