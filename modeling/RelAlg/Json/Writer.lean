import RelAlg.Json.Number
import RelAlg.Json.Text
import RelAlg.Relation

set_option autoImplicit false

namespace RelAlg.Json

def writeValue : Value → List Char
  | .number n => writeNumber n
  | .text s => writeText s

def inLine (start close : Char) (items : List (List Char)) : List Char :=
  start :: List.intercalate [','] items ++ [close]

def newLine (level : Nat) : List Char :=
  '\n' :: List.replicate (2 * level) ' '

/-- A bracketed list with each item on a line of its own, one level deeper than its brackets. -/
def inLines (level : Nat) (start close : Char) (items : List (List Char)) : List Char :=
  if items.isEmpty then [start, close]
  else
    start :: newLine (level + 1) ++ List.intercalate (',' :: newLine (level + 1)) items ++
      newLine level ++ [close]

def writeTuple (t : Tuple) : String :=
  String.ofList <| inLine '\x7b' '\x7d' <|
    t.attributes.map fun a => writeText a.1 ++ ':' :: writeValue a.2

def indentedTuple (level : Nat) (t : Tuple) : List Char :=
  inLines level '\x7b' '\x7d' <|
    t.attributes.map fun a => writeText a.1 ++ ':' :: ' ' :: writeValue a.2

def indentedRelation (level : Nat) (r : Relation) : List Char :=
  inLines level '[' ']' (r.map (indentedTuple (level + 1)))

def writeRelation (r : Relation) : String :=
  String.ofList (indentedRelation 0 r)

def writeNamedRelations (rs : List (String × Relation)) : String :=
  String.ofList <| inLines 0 '\x7b' '\x7d' <|
    rs.map fun r => writeText r.1 ++ ':' :: ' ' :: indentedRelation 1 r.2

end RelAlg.Json
