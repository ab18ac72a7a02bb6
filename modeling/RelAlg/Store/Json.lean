import RelAlg.Json.Reader
import RelAlg.Json.Writer
import RelAlg.Store.Basic

set_option autoImplicit false

namespace RelAlg.Store

/-- Under a repeated name the last relation counts. Relations are stored in the order of their
names. -/
def ofJson (text : String) : Except StoreError Store :=
  match Json.read? Json.namedRelations text with
  | none => .error .malformedJson
  | some rs => (NameMap.ofList rs).entries.foldlM (fun s r => s.insertRelation r.1 r.2) empty

def toJson (s : Store) : String :=
  Json.writeNamedRelations (s.relations.entries.map fun r => (r.1, r.2.tuples))

end RelAlg.Store
