import RelAlg.Expr.Basic

set_option autoImplicit false

namespace RelAlg

/-- What is wrong with the text of an expression. Operators are named as they were spelled. -/
inductive ExprFault where
  | emptyQuery
  | emptyExpression
  | missingOperand (op : BinaryOp)
  | missingArgument (spelling : String)
  | textBeforeArgument (spelling : String)
  | openArgument (spelling : String)
  | missingInput (spelling : String)
  | openParentheses
  | textAfterInput (spelling : String)
  | noAttributes
  | emptyAttribute
  | missingName
  | unrecognized
deriving DecidableEq

def ExprFault.message : ExprFault → String
  | emptyQuery => "empty query"
  | emptyExpression => "empty expression"
  | missingOperand op => "missing operand for " ++ op.name
  | missingArgument s => "missing '[' after " ++ s
  | textBeforeArgument s => "unexpected text between " ++ s ++ " and '['"
  | openArgument s => "missing ']' after " ++ s
  | missingInput s => "missing '(' after ']' of " ++ s
  | openParentheses => "unmatched parentheses"
  | textAfterInput s => "unexpected text after the operand of " ++ s
  | noAttributes => "empty attribute list for π"
  | emptyAttribute => "empty attribute name in π"
  | missingName => "missing name for ρ"
  | unrecognized => "unrecognized expression"

inductive QueryError where
  | parse (fault : ExprFault) (fragment : String)
  | unknownRelation (name : String)
  | schema (error : SchemaError)
  | condition (text : String) (error : ConditionError)
  | nestingTooDeep (limit : Nat)
deriving DecidableEq

namespace QueryError

def message : QueryError → String
  | parse fault fragment => "Parse error: " ++ fault.message ++ ": `" ++ fragment ++ "`"
  | unknownRelation name => "Unknown relation: " ++ name
  | schema error => "Schema error: " ++ error.message
  | condition text error => "Invalid condition `" ++ text ++ "`: " ++ error.message
  | nestingTooDeep limit => "Expression nested deeper than " ++ limit.repr ++ " levels"

def cause? : QueryError → Option String
  | schema error => some error.message
  | condition _ error => some error.message
  | _ => none

end QueryError

end RelAlg
