import RelAlg.Tuple

set_option autoImplicit false

namespace RelAlg

abbrev Relation := List Tuple

namespace Relation

/-- The attribute names of the first tuple; without tuples there are none. -/
def columns? (r : Relation) : Option (List String) :=
  r.head?.map Tuple.names

def arity (r : Relation) : Nat :=
  (r.columns?.getD []).length

def holds (r : Relation) (t : Tuple) : Bool :=
  r.any (·.same t)

def same (r s : Relation) : Bool :=
  r.length == s.length && (r.zip s).all fun p => p.1.same p.2

/-- The tuple at an index and the relation with another one in its place. -/
def replace? (r : Relation) (index : Nat) (t : Tuple) : Option (Tuple × Relation) :=
  r[index]?.map fun old => (old, r.set index t)

def remove? (r : Relation) (index : Nat) : Option (Tuple × Relation) :=
  r[index]?.map fun old => (old, r.eraseIdx index)

/-- The keys of its tuples, each once. -/
def content (r : Relation) : List Tuple.Key :=
  (r.map Tuple.key).eraseDups

def sameContent (r s : Relation) : Bool :=
  r.content.all s.content.contains && s.content.all r.content.contains

end Relation

end RelAlg
