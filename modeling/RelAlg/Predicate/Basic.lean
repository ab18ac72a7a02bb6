import RelAlg.Tuple

set_option autoImplicit false

namespace RelAlg

inductive Comparison where
  | eq
  | ne
  | lt
  | le
  | gt
  | ge
deriving DecidableEq

namespace Comparison

def symbol : Comparison → String
  | eq => "="
  | ne => "!="
  | lt => "<"
  | le => "<="
  | gt => ">"
  | ge => ">="

def holds : Comparison → Ordering → Bool
  | eq, o => o == .eq
  | ne, o => o != .eq
  | lt, o => o == .lt
  | le, o => o != .gt
  | gt, o => o == .gt
  | ge, o => o != .lt

end Comparison

inductive Operand where
  | attr (name : String)
  | literal (value : Value)
deriving DecidableEq

namespace Operand

/-- A text between single quotes, with those inside it doubled. -/
def quote (cs : List Char) : List Char :=
  '\'' :: cs.flatMap (fun c => if c = '\'' then ['\'', '\''] else [c]) ++ ['\'']

def toChars : Operand → List Char
  | attr name => name.toList
  | literal (.number n) => n.toText.toList
  | literal (.text s) => quote s.toList

def same : Operand → Operand → Bool
  | attr a, attr b => a == b
  | literal a, literal b => a.same b
  | _, _ => false

end Operand

inductive Predicate where
  | const (b : Bool)
  | compare (op : Comparison) (left right : Operand)
  | conj (terms : List Predicate)
  | disj (terms : List Predicate)

namespace Predicate

instance : Inhabited Predicate := ⟨const true⟩

/-- All the terms at once; a single term stands for itself. -/
def allOf : List Predicate → Predicate
  | [p] => p
  | ps => conj ps

def anyOf : List Predicate → Predicate
  | [p] => p
  | ps => disj ps

mutual

def toChars : Predicate → List Char
  | const b => if b then ['t', 'r', 'u', 'e'] else ['f', 'a', 'l', 's', 'e']
  | compare op left right =>
    left.toChars ++ ' ' :: op.symbol.toList ++ ' ' :: right.toChars
  | conj ps => '(' :: joinedChars [' ', 'A', 'N', 'D', ' '] ps ++ [')']
  | disj ps => '(' :: joinedChars [' ', 'O', 'R', ' '] ps ++ [')']

def joinedChars (link : List Char) : List Predicate → List Char
  | [] => []
  | [p] => p.toChars
  | p :: q :: ps => p.toChars ++ link ++ joinedChars link (q :: ps)

end

def toText (p : Predicate) : String := String.ofList p.toChars

instance : ToString Predicate := ⟨toText⟩

mutual

def same : Predicate → Predicate → Bool
  | const a, const b => a == b
  | compare op l r, compare op' l' r' => op == op' && l.same l' && r.same r'
  | conj ps, conj qs => sameAll ps qs
  | disj ps, disj qs => sameAll ps qs
  | _, _ => false

def sameAll : List Predicate → List Predicate → Bool
  | [], [] => true
  | p :: ps, q :: qs => p.same q && sameAll ps qs
  | _, _ => false

end

end Predicate

end RelAlg
