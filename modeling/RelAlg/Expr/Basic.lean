import RelAlg.Condition
import RelAlg.Schema

set_option autoImplicit false

namespace RelAlg

inductive UnaryOp where
  | select
  | project
  | rename
deriving DecidableEq

/-- The ways to write a unary operator, first the one that is written. -/
def UnaryOp.spellings : List (List Char × UnaryOp) :=
  [(['σ'], .select), (['S', 'e', 'l', 'e', 'c', 't'], .select),
   (['π'], .project), (['P', 'r', 'o', 'j', 'e', 'c', 't'], .project),
   (['ρ'], .rename), (['R', 'e', 'n', 'a', 'm', 'e'], .rename)]

def BinaryOp.spellings : List (List Char × BinaryOp) :=
  [([' ', '∪', ' '], .union), ([' ', 'U', 'N', 'I', 'O', 'N', ' '], .union),
   ([' ', '-', ' '], .difference), ([' ', '−', ' '], .difference),
   ([' ', 'M', 'I', 'N', 'U', 'S', ' '], .difference),
   ([' ', '⨝', ' '], .join), ([' ', '⋈', ' '], .join), ([' ', 'J', 'O', 'I', 'N', ' '], .join)]

def BinaryOp.symbol : BinaryOp → Char
  | union => '∪'
  | difference => '-'
  | join => '⨝'

inductive Expr where
  | relation (name : String)
  | select (condition : Condition) (input : Expr)
  | project (names : List String) (input : Expr)
  | rename (name : String) (input : Expr)
  | binary (op : BinaryOp) (left right : Expr)

namespace Expr

instance : Inhabited Expr := ⟨relation ""⟩

def isBinary : Expr → Bool
  | binary .. => true
  | _ => false

def group (grouped : Bool) (cs : List Char) : List Char :=
  if grouped then '(' :: cs ++ [')'] else cs

def toChars : Expr → List Char
  | relation name => name.toList
  | select c e => 'σ' :: '[' :: c.text.toList ++ ']' :: '(' :: e.toChars ++ [')']
  | project names e =>
    'π' :: '[' :: List.intercalate [',', ' '] (names.map String.toList) ++ ']' :: '(' ::
      e.toChars ++ [')']
  | rename name e => 'ρ' :: '[' :: name.toList ++ ']' :: '(' :: e.toChars ++ [')']
  | binary op l r =>
    group l.isBinary l.toChars ++ ' ' :: op.symbol :: ' ' :: group r.isBinary r.toChars

def toText (e : Expr) : String := String.ofList e.toChars

instance : ToString Expr := ⟨toText⟩

/-- Equality of trees, with the constants of conditions compared as values. -/
def same : Expr → Expr → Bool
  | relation a, relation b => a == b
  | select c e, select d f => c.same d && e.same f
  | project ns e, project ms f => ns == ms && e.same f
  | rename n e, rename m f => n == m && e.same f
  | binary op l r, binary op' l' r' => op == op' && l.same l' && r.same r'
  | _, _ => false

end Expr

end RelAlg
