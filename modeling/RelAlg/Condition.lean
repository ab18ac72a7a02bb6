import RelAlg.Condition.Parser
import RelAlg.Predicate.Eval

set_option autoImplicit false

namespace RelAlg

/-- Levels of parentheses and of expressions that are accepted unless another limit is given. -/
def defaultDepth : Nat := 100

structure Condition where
  text : String
  predicate : Predicate

namespace Condition

def LexicalFault.toError (position : Nat) : LexicalFault → ConditionError
  | unexpected c => .unexpectedCharacter c position
  | unterminated => .unterminatedText position

def tokenize (cs : List Char) : Except ConditionError (List Token) :=
  match lex cs with
  | (ts, none) => .ok ts
  | (_, some (fault, position)) => .error (fault.toError position)

def parsePredicate (limit : Nat) (cs : List Char) : Except ConditionError Predicate := do
  parseTokens limit (← tokenize cs)

def parse (limit : Nat) (cs : List Char) : Except ConditionError Condition := do
  let cs := Text.trim cs
  return ⟨String.ofList cs, ← parsePredicate limit cs⟩

def holds (c : Condition) (t : Tuple) : Except ConditionError Bool :=
  c.predicate.eval t

def same (c d : Condition) : Bool :=
  c.text == d.text && c.predicate.same d.predicate

end Condition

end RelAlg
