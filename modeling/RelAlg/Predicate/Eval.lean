import RelAlg.Condition.Error
import RelAlg.Predicate.Basic

/-!
The truth of a predicate on a tuple. Every part is evaluated, from left to right, so an attribute
that the tuple lacks is always found.
-/

set_option autoImplicit false

namespace RelAlg

def Operand.eval (t : Tuple) : Operand → Except ConditionError Value
  | attr name =>
    match t.get? name with
    | some value => .ok value
    | none => .error (.unknownAttribute name)
  | literal value => .ok value

namespace Predicate

mutual

def eval (t : Tuple) : Predicate → Except ConditionError Bool
  | const b => .ok b
  | compare op left right => do
    let a ← left.eval t
    let b ← right.eval t
    return op.holds (a.compare b)
  | conj ps => do return (← evalAll t ps).all id
  | disj ps => do return (← evalAll t ps).any id

def evalAll (t : Tuple) : List Predicate → Except ConditionError (List Bool)
  | [] => .ok []
  | p :: ps => do
    let b ← p.eval t
    let bs ← evalAll t ps
    return b :: bs

end

end Predicate

end RelAlg
