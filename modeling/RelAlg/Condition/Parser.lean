import RelAlg.Condition.Error
import RelAlg.Predicate.Basic

/-!
Predicates from the tokens of a condition: terms joined by OR, of terms joined by AND, of
comparisons, constants and parenthesised conditions. Parentheses may be nested only as deep as the
limit allows; it is also what the recursion counts down.
-/

set_option autoImplicit false

namespace RelAlg.Condition

/-- Takes something from the start of the tokens; the rest is shorter. -/
abbrev Step (α : Type) :=
  (ts : List Token) → Except ConditionError (α × { rest : List Token // rest.length < ts.length })

def unexpected {α : Type} (expected : Expected) (ts : List Token) : Except ConditionError α :=
  .error (.unexpectedToken expected ts.head?)

/-- One or more items with a link between them. -/
def chain (link : Token) (item : Step Predicate) : Step (List Predicate) := fun ts =>
  match item ts with
  | .error e => .error e
  | .ok (p, ⟨[], h⟩) => .ok ([p], ⟨[], h⟩)
  | .ok (p, ⟨t :: rest, h⟩) =>
    if t = link then
      have hr : rest.length < ts.length := Nat.lt_trans (Nat.lt_succ_self _) h
      match chain link item rest with
      | .error e => .error e
      | .ok (ps, ⟨rest', h'⟩) => .ok (p :: ps, ⟨rest', Nat.lt_trans h' hr⟩)
    else .ok ([p], ⟨t :: rest, h⟩)
termination_by ts => ts.length

def operand : Step Operand
  | .identifier name :: ts => .ok (.attr name, ⟨ts, Nat.lt_succ_self _⟩)
  | .text s :: ts => .ok (.literal (.text s), ⟨ts, Nat.lt_succ_self _⟩)
  | .number literal :: ts =>
    match Number.read? literal.toList with
    | some n => .ok (.literal (.number n), ⟨ts, Nat.lt_succ_self _⟩)
    | none => .error (.invalidNumber literal)
  | ts => unexpected .operand ts

def Token.comparison? : Token → Option Comparison
  | equal => some .eq
  | notEqual => some .ne
  | less => some .lt
  | lessEqual => some .le
  | greater => some .gt
  | greaterEqual => some .ge
  | _ => none

def comparison : Step Comparison
  | t :: ts =>
    match t.comparison? with
    | some op => .ok (op, ⟨ts, Nat.lt_succ_self _⟩)
    | none => unexpected .comparison (t :: ts)
  | [] => unexpected .comparison []

def compared : Step Predicate := fun ts => do
  let (left, ⟨ts₁, h₁⟩) ← operand ts
  let (op, ⟨ts₂, h₂⟩) ← comparison ts₁
  let (right, ⟨ts₃, h₃⟩) ← operand ts₂
  return (.compare op left right, ⟨ts₃, Nat.lt_trans h₃ (Nat.lt_trans h₂ h₁)⟩)

def closing : Step Unit
  | .rightParen :: ts => .ok ((), ⟨ts, Nat.lt_succ_self _⟩)
  | ts => unexpected .closing ts

def primary (inner : Step Predicate) : Step Predicate
  | .leftParen :: ts => do
    let (p, ⟨ts₁, h₁⟩) ← inner ts
    let (_, ⟨ts₂, h₂⟩) ← closing ts₁
    return (p, ⟨ts₂, Nat.lt_succ_of_lt (Nat.lt_trans h₂ h₁)⟩)
  | .true :: ts => .ok (.const true, ⟨ts, Nat.lt_succ_self _⟩)
  | .false :: ts => .ok (.const false, ⟨ts, Nat.lt_succ_self _⟩)
  | ts => compared ts

def conjunction (inner : Step Predicate) : Step Predicate := fun ts => do
  let (ps, rest) ← chain .and (primary inner) ts
  return (.allOf ps, rest)

/-- A condition with at most `levels` levels, itself included; `limit` is for the message. -/
def disjunction (limit : Nat) : (levels : Nat) → Step Predicate
  | 0 => fun _ => .error (.nestingTooDeep limit)
  | levels + 1 => fun ts => do
    let (ps, rest) ← chain .or (conjunction (disjunction limit levels)) ts
    return (.anyOf ps, rest)

def parseTokens (limit : Nat) (ts : List Token) : Except ConditionError Predicate :=
  if ts.isEmpty then .error .empty
  else do
    let (p, ⟨rest, _⟩) ← disjunction limit limit ts
    if rest.isEmpty then return p else unexpected .finish rest

end RelAlg.Condition
