import RelAlg.Expr.Parser
import RelAlg.Plan
import RelAlg.Store.Basic

set_option autoImplicit false

namespace RelAlg

def orSchemaError {α : Type} : Except SchemaError α → Except QueryError α
  | .ok a => .ok a
  | .error e => .error (.schema e)

def BinaryOp.apply (op : BinaryOp) (l r : Relation) : Except QueryError Relation := do
  let common ← orSchemaError (Schema.checkBinary op l r)
  match op with
  | .union => l.union r
  | .difference => l.difference r
  | .join => l.join r common

def Expr.eval (s : Store) : Expr → Except QueryError Relation
  | relation name =>
    match s.get? name with
    | some r => .ok r
    | none => .error (.unknownRelation name)
  | select c e => do (← e.eval s).select c
  | project names e => do
    let r ← e.eval s
    orSchemaError (Schema.checkProjection names r)
    r.project names
  | rename name e => do (← e.eval s).rename name
  | binary op l r => do
    let a ← l.eval s
    let b ← r.eval s
    op.apply a b

/-- The answer to a query: the relation that has the text for a name, if there is one, else the
value of the expression that the text stands for. -/
def Store.query (s : Store) (limit : Nat) (text : String) : Except QueryError Relation :=
  match s.get? (Text.trimmed text) with
  | some r => .ok r
  | none => do (← Expr.parse limit text.toList).eval s

end RelAlg
