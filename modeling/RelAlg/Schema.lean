import RelAlg.Relation

/-!
Which relations an operator accepts. Only the columns of the first tuples are looked at; union and
difference count them, a join needs a shared name, a projection needs all its names.
-/

set_option autoImplicit false

namespace RelAlg

inductive BinaryOp where
  | union
  | difference
  | join
deriving DecidableEq

def BinaryOp.name : BinaryOp → String
  | union => "union"
  | difference => "difference"
  | join => "join"

inductive Side where
  | left
  | right
deriving DecidableEq

def Side.name : Side → String
  | left => "left"
  | right => "right"

inductive SchemaError where
  | emptyOperand (op : BinaryOp) (side : Side)
  | arityMismatch (op : BinaryOp) (left right : Nat)
  | noCommonAttributes
  | invalidAttributes (invalid available : List String)
deriving DecidableEq

def SchemaError.message : SchemaError → String
  | emptyOperand op side => "the " ++ side.name ++ " relation of the " ++ op.name ++ " is empty"
  | arityMismatch op left right =>
    op.name ++ " needs the same number of attributes: " ++ left.repr ++ " vs " ++ right.repr
  | noCommonAttributes => "no common attributes for join"
  | invalidAttributes invalid available =>
    "invalid attributes: " ++ String.intercalate ", " invalid ++ ". Available attributes: " ++
      String.intercalate ", " available

namespace Schema

def commonNames (left right : List String) : List String :=
  left.filter right.contains

/-- The names to join on; none are given for the other two operators. -/
def checkBinary (op : BinaryOp) (left right : Relation) : Except SchemaError (List String) :=
  match left.columns?, right.columns? with
  | none, _ => .error (.emptyOperand op .left)
  | some _, none => .error (.emptyOperand op .right)
  | some ls, some rs =>
    match op with
    | .join =>
      let common := commonNames ls rs
      if common.isEmpty then .error .noCommonAttributes else .ok common
    | _ =>
      if ls.length = rs.length then .ok [] else .error (.arityMismatch op ls.length rs.length)

/-- A relation without tuples has every attribute. -/
def checkProjection (names : List String) (r : Relation) : Except SchemaError Unit :=
  match r.columns? with
  | none => .ok ()
  | some available =>
    let invalid := names.filter (!available.contains ·)
    if invalid.isEmpty then .ok () else .error (.invalidAttributes invalid available)

end Schema

end RelAlg
