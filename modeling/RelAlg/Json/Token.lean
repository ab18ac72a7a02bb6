import RelAlg.Json.Number
import RelAlg.Json.Text

/-!
JSON text as tokens: brackets, colons and commas, numbers and texts. The names `true`, `false` and
`null` stand for nothing here, so they are no tokens.
-/

set_option autoImplicit false

namespace RelAlg.Json

inductive Token where
  | mark (c : Char)
  | number (n : Number)
  | text (s : String)
deriving DecidableEq

def isGap (c : Char) : Bool :=
  c = ' ' || c = '\t' || c = '\n' || c = '\r'

def isMark (c : Char) : Bool :=
  "[]\x7b\x7d:,".toList.contains c

def Token.read? (c : Char) (cs : List Char) :
    Option (Token × { rest : List Char // rest.length < (c :: cs).length }) :=
  if isMark c then some (.mark c, ⟨cs, Nat.lt_succ_self _⟩)
  else if c = '"' then
    match h : readText? none cs with
    | none => none
    | some (s, rest) =>
      some (.text (String.ofList s), ⟨rest, Nat.lt_succ_of_lt (length_readText? h)⟩)
  else
    match h : readNumber? (c :: cs) with
    | none => none
    | some (n, rest) => some (.number n, ⟨rest, length_readNumber? h⟩)

def tokens? : List Char → Option (List Token)
  | [] => some []
  | c :: cs =>
    if isGap c then tokens? cs
    else
      match Token.read? c cs with
      | none => none
      | some (t, rest) => (tokens? rest.1).map (t :: ·)
termination_by cs => cs.length
decreasing_by
  · simp
  · exact rest.2

end RelAlg.Json
