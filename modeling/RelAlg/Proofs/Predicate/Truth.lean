import RelAlg.Predicate.Eval

set_option autoImplicit false

namespace RelAlg

namespace Operand

def valueIn (get : String → Option Value) : Operand → Value
  | attr name => (get name).getD (.text "")
  | literal value => value

def names : Operand → List String
  | attr name => [name]
  | literal _ => []

end Operand

namespace Predicate

mutual

/-- The names of a predicate from left to right. -/
def names : Predicate → List String
  | const _ => []
  | compare _ left right => left.names ++ right.names
  | conj ps => allNames ps
  | disj ps => allNames ps

def allNames : List Predicate → List String
  | [] => []
  | p :: ps => p.names ++ allNames ps

end

mutual

def truth (get : String → Option Value) : Predicate → Bool
  | const b => b
  | compare op left right => op.holds ((left.valueIn get).compare (right.valueIn get))
  | conj ps => (truths get ps).all id
  | disj ps => (truths get ps).any id

def truths (get : String → Option Value) : List Predicate → List Bool
  | [] => []
  | p :: ps => p.truth get :: truths get ps

end

end Predicate

namespace Tuple

def missing? (t : Tuple) (names : List String) : Option String :=
  names.find? fun n => !t.contains n

theorem missing?_append (t : Tuple) (ns ms : List String) :
    t.missing? (ns ++ ms) = (t.missing? ns).or (t.missing? ms) :=
  List.find?_append

theorem missing?_eq_none_iff {t : Tuple} {names : List String} :
    t.missing? names = none ↔ ∀ n ∈ names, n ∈ t.names := by
  rw [missing?, List.find?_eq_none]
  refine forall_congr' fun n => imp_congr_right fun _ => ?_
  rw [← contains_iff, Bool.not_eq_true, Bool.not_eq_false']

/-- Either the first missing name, or what follows if there is none. -/
def orMissing {α : Type} (t : Tuple) (names : List String) (a : α) : Except ConditionError α :=
  match t.missing? names with
  | some n => .error (.unknownAttribute n)
  | none => .ok a

end Tuple

theorem Operand.eval_eq (t : Tuple) (o : Operand) :
    o.eval t = t.orMissing o.names (o.valueIn t.get?) := by
  cases o with
  | literal v => rfl
  | attr n =>
    cases h : t.get? n <;>
      simp [eval, valueIn, names, Tuple.orMissing, Tuple.missing?, Tuple.contains, h]

namespace Predicate

mutual

theorem eval_eq (t : Tuple) : (p : Predicate) → p.eval t = t.orMissing p.names (p.truth t.get?)
  | const b => by
    rw [eval, names, truth]
    rfl
  | compare op l r => by
    rw [eval, Operand.eval_eq, Operand.eval_eq, names, truth, Tuple.orMissing, Tuple.orMissing,
      Tuple.orMissing, Tuple.missing?_append]
    cases t.missing? l.names <;> cases t.missing? r.names <;> rfl
  | conj ps => by
    rw [eval, evalAll_eq t ps, names, truth, Tuple.orMissing, Tuple.orMissing]
    cases t.missing? (allNames ps) <;> rfl
  | disj ps => by
    rw [eval, evalAll_eq t ps, names, truth, Tuple.orMissing, Tuple.orMissing]
    cases t.missing? (allNames ps) <;> rfl

theorem evalAll_eq (t : Tuple) : (ps : List Predicate) →
    evalAll t ps = t.orMissing (allNames ps) (truths t.get? ps)
  | [] => by
    rw [evalAll, allNames, truths]
    rfl
  | p :: ps => by
    rw [evalAll, eval_eq t p, evalAll_eq t ps, allNames, truths, Tuple.orMissing, Tuple.orMissing,
      Tuple.orMissing, Tuple.missing?_append]
    cases t.missing? p.names <;> cases t.missing? (allNames ps) <;> rfl

end

end Predicate

end RelAlg
