import RelAlg.NameMap
import RelAlg.Relation
import RelAlg.Store.Error
import RelAlg.Text.Blank

/-!
Stores: relations under names, each with its columns. A tuple is stored in the order of the columns
and only if it carries exactly those; a relation without columns takes them from its first tuple.
Every edit gives a new store or an error.
-/

set_option autoImplicit false

namespace RelAlg

/-- A stored relation. It keeps its columns also when it has no tuples. -/
structure Stored where
  columns : List String
  tuples : Relation
deriving DecidableEq

namespace Stored

instance : Inhabited Stored := ⟨⟨[], []⟩⟩

/-- The tuple in the order of the columns, and the columns, which it gives if there are none. -/
def conform (s : Stored) (name : String) (t : Tuple) : Except StoreError (List String × Tuple) :=
  if s.columns.isEmpty then .ok (t.names, t)
  else if t.size == s.columns.length && s.columns.all t.contains then
    .ok (s.columns, t.project s.columns)
  else .error (.columnMismatch name s.columns t.names)

def append (s : Stored) (name : String) (t : Tuple) : Except StoreError Stored := do
  let (columns, t) ← s.conform name t
  return ⟨columns, s.tuples ++ [t]⟩

def replace (s : Stored) (name : String) (index : Nat) (t : Tuple) :
    Except StoreError (Tuple × Stored) :=
  match s.tuples[index]? with
  | none => .error (.indexOutOfRange name index s.tuples.length)
  | some old => do
    let (columns, t) ← s.conform name t
    return (old, ⟨columns, s.tuples.set index t⟩)

def delete (s : Stored) (name : String) (index : Nat) : Except StoreError (Tuple × Stored) :=
  match s.tuples[index]? with
  | none => .error (.indexOutOfRange name index s.tuples.length)
  | some old => .ok (old, ⟨s.columns, s.tuples.eraseIdx index⟩)

def ofRelation (name : String) (r : Relation) : Except StoreError Stored :=
  r.foldlM (fun s t => s.append name t) ⟨r.columns?.getD [], []⟩

end Stored

structure Store where
  relations : NameMap Stored

namespace Store

def empty : Store := ⟨.empty⟩

instance : Inhabited Store := ⟨empty⟩

def stored? (s : Store) (name : String) : Option Stored := s.relations.get? name

def get? (s : Store) (name : String) : Option Relation := (s.stored? name).map Stored.tuples

def columns? (s : Store) (name : String) : Option (List String) :=
  (s.stored? name).map Stored.columns

def contains (s : Store) (name : String) : Bool := s.relations.contains name

def names (s : Store) : List String := s.relations.names

def size (s : Store) : Nat := s.relations.entries.length

def isEmpty (s : Store) : Bool := s.relations.entries.isEmpty

def put (s : Store) (name : String) (r : Stored) : Store := ⟨s.relations.insert name r⟩

def find (s : Store) (name : String) : Except StoreError Stored :=
  match s.stored? name with
  | some r => .ok r
  | none => .error (.notFound name)

/-- A new name is taken without its outer blanks; something has to be left, and it has to be
free. -/
def newName (s : Store) (name : String) : Except StoreError String :=
  let name := Text.trimmed name
  if name.isEmpty then .error (.invalidName name)
  else if s.contains name then .error (.alreadyExists name)
  else .ok name

def newColumns (name : String) (taken : List String) :
    List String → Except StoreError (List String)
  | [] => if taken.isEmpty then .error (.noColumns name) else .ok taken
  | column :: columns =>
    let column := Text.trimmed column
    if column.isEmpty then .error (.invalidColumn name column)
    else if taken.contains column then .error (.duplicateColumn name column)
    else newColumns name (taken ++ [column]) columns

def create (s : Store) (name : String) (columns : List String) : Except StoreError Store := do
  let name ← s.newName name
  let columns ← newColumns name [] columns
  return s.put name ⟨columns, []⟩

def drop (s : Store) (name : String) : Except StoreError (Relation × Store) := do
  let r ← s.find name
  return (r.tuples, ⟨s.relations.erase name⟩)

def insertRelation (s : Store) (name : String) (r : Relation) : Except StoreError Store := do
  let name ← s.newName name
  return s.put name (← Stored.ofRelation name r)

def insertTuple (s : Store) (name : String) (t : Tuple) : Except StoreError Store := do
  let r ← s.find name
  return s.put name (← r.append name t)

def updateTuple (s : Store) (name : String) (index : Nat) (t : Tuple) :
    Except StoreError (Tuple × Store) := do
  let r ← s.find name
  let (old, r) ← r.replace name index t
  return (old, s.put name r)

def deleteTuple (s : Store) (name : String) (index : Nat) : Except StoreError (Tuple × Store) := do
  let r ← s.find name
  let (old, r) ← r.delete name index
  return (old, s.put name r)

end Store

end RelAlg
