import RelAlg.Condition.Token

set_option autoImplicit false

namespace RelAlg

namespace Condition

inductive Expected where
  | operand
  | comparison
  | closing
  | finish
deriving DecidableEq

def finishText : String := "end of condition"

def Expected.toText : Expected → String
  | operand => "attribute or literal"
  | comparison => "comparison operator"
  | closing => ")"
  | finish => finishText

end Condition

inductive ConditionError where
  | empty
  | unexpectedCharacter (c : Char) (position : Nat)
  | unterminatedText (position : Nat)
  | unexpectedToken (expected : Condition.Expected) (found : Option Condition.Token)
  | invalidNumber (literal : String)
  | nestingTooDeep (limit : Nat)
  | unknownAttribute (name : String)
deriving DecidableEq

namespace ConditionError

def message : ConditionError → String
  | empty => "empty condition"
  | unexpectedCharacter c position =>
    "unexpected character '" ++ c.toString ++ "' at position " ++ position.repr
  | unterminatedText position => "unterminated string starting at position " ++ position.repr
  | unexpectedToken expected found =>
    "expected " ++ expected.toText ++ ", found " ++
      (found.map Condition.Token.toText).getD Condition.finishText
  | invalidNumber literal => "invalid number: " ++ literal
  | nestingTooDeep limit => "condition nested deeper than " ++ limit.repr ++ " levels"
  | unknownAttribute name => "unknown attribute: " ++ name

/-- Found on a tuple, not in the text. -/
def isAboutTuple : ConditionError → Bool
  | unknownAttribute _ => true
  | _ => false

end ConditionError

end RelAlg
