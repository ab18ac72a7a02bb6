import RelAlg.Expr.Error
import RelAlg.Expr.Nesting

/-!
Expressions from text. The first binary operator outside of everything divides the text; without
one, a unary operator takes its argument in brackets and its input in parentheses; else parentheses
around the whole are taken off; else text without any grouping names a relation. Each step goes one
level deeper, which is what the recursion counts down.
-/

set_option autoImplicit false

namespace RelAlg.Expr

def fail {α : Type} (fault : ExprFault) (fragment : List Char) : Except QueryError α :=
  .error (.parse fault (String.ofList fragment))

structure Application where
  op : UnaryOp
  argument : List Char
  input : List Char
deriving DecidableEq

/-- A spelling counts if a bracket or a space follows it. -/
def unaryOp? (cs : List Char) : Option (List Char × UnaryOp) :=
  UnaryOp.spellings.find? fun s =>
    s.1.isPrefixOf cs && (cs[s.1.length]?).any fun c => c = '[' || c = ' '

def application (spelling : List Char) (op : UnaryOp) (cs : List Char) :
    Except QueryError Application :=
  let name := String.ofList spelling
  let between := (cs.drop spelling.length).takeWhile (· != '[')
  match (cs.drop spelling.length).dropWhile (· != '[') with
  | [] => fail (.missingArgument name) cs
  | bracket :: rest =>
    if !(Text.trim between).isEmpty then fail (.textBeforeArgument name) cs
    else
      let argument := rest.takeWhile (· != ']')
      match rest.dropWhile (· != ']') with
      | [] => fail (.openArgument name) cs
      | close :: behind =>
        if behind.head? != some '(' then fail (.missingInput name) cs
        else
          let before := spelling ++ between ++ bracket :: argument ++ [close]
          match enclosed? (Nesting.start.run before) behind with
          | none => fail .openParentheses cs
          | some (input, trailing) =>
            let trailing := Text.trim trailing
            if trailing.isEmpty then .ok ⟨op, Text.trim argument, input⟩
            else fail (.textAfterInput name) trailing

def attributeNames (argument cs : List Char) : Except QueryError (List String) :=
  if argument.isEmpty then fail .noAttributes cs
  else (argument.splitOn ',').mapM fun part =>
    let part := Text.trim part
    if part.isEmpty then fail .emptyAttribute cs else .ok (String.ofList part)

def Application.toExpr (a : Application) (limit : Nat) (cs : List Char) (input : Expr) :
    Except QueryError Expr :=
  match a.op with
  | .select =>
    match Condition.parse limit a.argument with
    | .ok c => .ok (.select c input)
    | .error e => .error (.condition (String.ofList a.argument) e)
  | .project => do return .project (← attributeNames a.argument cs) input
  | .rename =>
    if a.argument.isEmpty then fail .missingName cs
    else .ok (.rename (String.ofList a.argument) input)

def group? (cs : List Char) : Except QueryError (Option (List Char)) :=
  if cs.head? = some '(' then
    match enclosed? .start cs with
    | none => fail .openParentheses cs
    | some (inside, []) => .ok (some inside)
    | some _ => .ok none
  else .ok none

/-- An expression with at most `levels` levels; `limit` is for conditions and the message. -/
def parseLevels (limit : Nat) : (levels : Nat) → List Char → Except QueryError Expr
  | 0, _ => .error (.nestingTooDeep limit)
  | levels + 1, text => do
    let cs := Text.trim text
    if cs.isEmpty then fail .emptyExpression cs
    else
      match split? cs with
      | some s =>
        if (Text.trim s.left).isEmpty || (Text.trim s.right).isEmpty then
          fail (.missingOperand s.op) cs
        else
          let left ← parseLevels limit levels s.left
          let right ← parseLevels limit levels s.right
          return .binary s.op left right
      | none =>
        match unaryOp? cs with
        | some (spelling, op) =>
          let a ← application spelling op cs
          let input ← parseLevels limit levels a.input
          a.toExpr limit cs input
        | none =>
          match ← group? cs with
          | some inside => parseLevels limit levels inside
          | none =>
            if hasGrouping cs then fail .unrecognized cs
            else return .relation (String.ofList cs)

def parse (limit : Nat) (cs : List Char) : Except QueryError Expr :=
  parseLevels limit limit cs

end RelAlg.Expr
