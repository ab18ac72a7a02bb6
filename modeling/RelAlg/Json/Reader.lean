import RelAlg.Json.Token
import RelAlg.Relation

set_option autoImplicit false

namespace RelAlg.Json

/-- Takes something from the start of the tokens; the rest is shorter. -/
abbrev Reader (α : Type) :=
  (ts : List Token) → Option (α × { rest : List Token // rest.length < ts.length })

variable {α : Type}

def separated (close : Char) (item : Reader α) : Reader (List α) := fun ts =>
  match item ts with
  | some (a, ⟨.mark c :: rest, h⟩) =>
    if c = close then some ([a], ⟨rest, Nat.lt_trans (Nat.lt_succ_self _) h⟩)
    else if c = ',' then
      have hr : rest.length < ts.length := Nat.lt_trans (Nat.lt_succ_self _) h
      (separated close item rest).map fun p => (a :: p.1, ⟨p.2.1, Nat.lt_trans p.2.2 hr⟩)
    else none
  | _ => none
termination_by ts => ts.length

def bracketed (start close : Char) (item : Reader α) : Reader (List α)
  | .mark c :: ts =>
    if c = start then
      match ts with
      | .mark d :: rest =>
        if d = close then some ([], ⟨rest, Nat.lt_succ_of_lt (Nat.lt_succ_self _)⟩)
        else (separated close item (.mark d :: rest)).map fun p => (p.1, ⟨p.2.1, by grind⟩)
      | ts => (separated close item ts).map fun p => (p.1, ⟨p.2.1, by grind⟩)
    else none
  | _ => none

def member (item : Reader α) : Reader (String × α)
  | .text name :: .mark ':' :: ts =>
    (item ts).map fun p => ((name, p.1), ⟨p.2.1, by grind⟩)
  | _ => none

def value : Reader Value
  | .number n :: ts => some (.number n, ⟨ts, Nat.lt_succ_self _⟩)
  | .text s :: ts => some (.text s, ⟨ts, Nat.lt_succ_self _⟩)
  | _ => none

/-- Of values under the same name the last one counts, in the place of the first. -/
def tuple : Reader Tuple := fun ts =>
  (bracketed '\x7b' '\x7d' (member value) ts).map fun p => (Tuple.ofPairs p.1, p.2)

def relation : Reader Relation :=
  bracketed '[' ']' tuple

def namedRelations : Reader (List (String × Relation)) :=
  bracketed '\x7b' '\x7d' (member relation)

def read? (reader : Reader α) (text : String) : Option α :=
  match tokens? text.toList with
  | none => none
  | some ts =>
    match reader ts with
    | some (a, ⟨[], _⟩) => some a
    | _ => none

end RelAlg.Json
