import RelAlg.Store.Basic

set_option autoImplicit false

namespace RelAlg.Store

namespace Sample

def text (s : String) : Value := .text s

def whole (n : Nat) : Value := .number (.ofNat n)

def table (columns : List String) (rows : List (List Value)) : Relation :=
  rows.map fun row => Tuple.ofPairs (columns.zip row)

def students : Relation :=
  table ["NumEtudiant", "Nom", "Prenom", "Age", "Ville"]
    [[text "E001", text "Alami", text "Fatima", whole 22, text "Fès"],
     [text "E002", text "Benna", text "Mohammed", whole 21, text "Casablanca"],
     [text "E003", text "Chakir", text "Sara", whole 23, text "Fès"],
     [text "E004", text "Darif", text "Ahmed", whole 20, text "Rabat"]]

def courses : Relation :=
  table ["CodeCours", "Intitule", "NbHeures", "NumEtudiant"]
    [[text "C101", text "Bases de données", whole 40, text "E001"],
     [text "C102", text "Algorithmes", whole 35, text "E001"],
     [text "C103", text "Réseaux", whole 30, text "E002"],
     [text "C104", text "Web", whole 25, text "E003"]]

def names : List String := ["ETUDIANT", "COURS"]

def get? (name : String) : Option Relation :=
  if name = "ETUDIANT" then some students
  else if name = "COURS" then some courses
  else none

end Sample

def loadSample (s : Store) (name : String) : Except StoreError Store :=
  match Sample.get? name with
  | none => .error (.unknownSample name)
  | some r => s.insertRelation name r

/-- Loads samples up to the first that is refused; the ones before it stay. -/
def loadAll (s : Store) : List String → Store × Option StoreError
  | [] => (s, none)
  | name :: names =>
    match s.loadSample name with
    | .ok s' => loadAll s' names
    | .error e => (s, some e)

def loadSamples (s : Store) : Store × Option StoreError :=
  s.loadAll Sample.names

end RelAlg.Store
