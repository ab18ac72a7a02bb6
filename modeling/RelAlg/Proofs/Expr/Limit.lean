import RelAlg.Expr.Eval
import RelAlg.Proofs.Condition.Limit
import RelAlg.Proofs.Expr.Derivation
import RelAlg.Proofs.Expr.RoundTrip

set_option autoImplicit false

namespace RelAlg

/-- The expression or a condition in it is found to be too deep. -/
def QueryError.TooDeep (limit : Nat) (e : QueryError) : Prop :=
  e = .nestingTooDeep limit ∨ ∃ text, e = .condition text (.nestingTooDeep limit)

namespace Expr

open Text

section Outcomes

variable {limit limit' : Nat}

theorem upTo_toExpr (h : limit ≤ limit') (a : Application) (cs : List Char) (input : Expr) :
    UpTo (QueryError.TooDeep limit) (a.toExpr limit cs input) (a.toExpr limit' cs input) := by
  obtain ⟨op, argument, text⟩ := a
  cases op with
  | select =>
    rw [Application.toExpr, Application.toExpr]
    rcases Condition.upTo_parse h argument with ⟨e, hc, rfl⟩ | hc
    · simp only [hc]
      exact .error (.inr ⟨_, rfl⟩) _
    · rw [hc]
      exact .refl _
  | project => exact .refl _
  | rename => exact .refl _

/-- By induction on the levels of the lower limit. Up to the recursive calls both runs do the same,
and the first error of either ends it. -/
theorem upTo_parseLevels (h : limit ≤ limit') (levels k : Nat) (cs : List Char) :
    UpTo (QueryError.TooDeep limit) (parseLevels limit levels cs)
      (parseLevels limit' (k + levels) cs) := by
  induction levels generalizing cs with
  | zero => exact .error (.inl rfl) _
  | succ levels ih =>
    change UpTo _ (parseLevels limit (levels + 1) cs) (parseLevels limit' (k + levels + 1) cs)
    simp only [parseLevels]
    split
    · exact .refl _
    · cases split? (trim cs) with
      | some s =>
        dsimp only
        split
        · exact .refl _
        · exact (ih s.left).bind fun l => (ih s.right).bind fun r => .refl _
      | none =>
        cases unaryOp? (trim cs) with
        | some s =>
          refine (UpTo.refl (application s.1 s.2 (trim cs))).bind fun a => ?_
          exact (ih a.input).bind fun input => upTo_toExpr h a (trim cs) input
        | none =>
          refine (UpTo.refl (group? (trim cs))).bind fun inside => ?_
          cases inside with
          | some inside => exact ih inside
          | none => exact .refl _

theorem upTo_parse (h : limit ≤ limit') (cs : List Char) :
    UpTo (QueryError.TooDeep limit) (parse limit cs) (parse limit' cs) := by
  obtain ⟨k, rfl⟩ := Nat.exists_eq_add_of_le' h
  exact upTo_parseLevels h limit k cs

end Outcomes

/-- The most operators and names on the way to a name, that one included. -/
def height : Expr → Nat
  | relation _ => 1
  | select _ e => e.height + 1
  | project _ e => e.height + 1
  | rename _ e => e.height + 1
  | binary _ l r => max l.height r.height + 1

section Heights

variable {limit levels : Nat} {cs : List Char} {e input : Expr}

theorem toExpr_ok {a : Application} (h : a.toExpr limit cs input = .ok e) :
    e.height = input.height + 1 ∧
      ∀ c ∈ e.conditions, c ∈ input.conditions ∨ Condition.parse limit a.argument = .ok c := by
  obtain ⟨op, argument, text⟩ := a
  cases op with
  | select =>
    rw [Application.toExpr] at h
    cases hc : Condition.parse limit argument with
    | error x =>
      simp only [hc] at h
      cases h
    | ok c =>
      simp only [hc] at h
      cases h
      refine ⟨rfl, fun d hd => ?_⟩
      rcases List.mem_cons.1 hd with rfl | hd
      · exact .inr rfl
      · exact .inl hd
  | project =>
    obtain ⟨names, -, h⟩ := bind_ok h
    cases h
    exact ⟨rfl, fun d hd => .inl hd⟩
  | rename =>
    simp only [Application.toExpr] at h
    split at h
    · cases h
    · cases h
      exact ⟨rfl, fun d hd => .inl hd⟩

theorem Derives.height_le (h : Derives limit levels cs e) : e.height ≤ levels := by
  induction h with
  | binary _ _ _ _ _ ihl ihr => exact Nat.succ_le_succ (Nat.max_le.2 ⟨ihl, ihr⟩)
  | unary _ _ _ _ _ he ih =>
    rw [(toExpr_ok he).1]
    exact Nat.succ_le_succ ih
  | group _ _ _ _ _ ih => exact Nat.le_succ_of_le ih
  | relation => exact Nat.succ_le_succ (Nat.zero_le _)

theorem Derives.height_conditions (h : Derives limit levels cs e) :
    ∀ c ∈ e.conditions, c.predicate.height ≤ 2 * limit := by
  induction h with
  | binary _ _ _ _ _ ihl ihr => exact List.forall_mem_append.2 ⟨ihl, ihr⟩
  | unary _ _ _ _ _ he ih =>
    intro c hc
    rcases (toExpr_ok he).2 c hc with hc | hc
    · exact ih c hc
    · exact Condition.height_of_parsePredicate (Condition.parsePredicate_of_parse hc)
  | group _ _ _ _ _ ih => exact ih
  | relation => exact List.forall_mem_nil _

end Heights

def evalBody (s : Store) (rec : Expr → Except QueryError Relation) :
    Expr → Except QueryError Relation
  | relation name =>
    match s.get? name with
    | some r => .ok r
    | none => .error (.unknownRelation name)
  | select c e => do (← rec e).select c
  | project names e => do
    let r ← rec e
    orSchemaError (Schema.checkProjection names r)
    r.project names
  | rename name e => do (← rec e).rename name
  | binary op l r => do
    let a ← rec l
    let b ← rec r
    op.apply a b

def charsBody (rec : Expr → List Char) : Expr → List Char
  | relation name => name.toList
  | select c e => 'σ' :: '[' :: c.text.toList ++ ']' :: '(' :: rec e ++ [')']
  | project names e =>
    'π' :: '[' :: List.intercalate [',', ' '] (names.map String.toList) ++ ']' :: '(' ::
      rec e ++ [')']
  | rename name e => 'ρ' :: '[' :: name.toList ++ ']' :: '(' :: rec e ++ [')']
  | binary op l r => group l.isBinary (rec l) ++ ' ' :: op.symbol :: ' ' :: group r.isBinary (rec r)

theorem height_pos (e : Expr) : 0 < e.height := by
  cases e <;> exact Nat.succ_pos _

theorem settles_eval (s : Store) (e : Expr) : Settles (evalBody s) e.height e (e.eval s) := by
  refine settles_of_size height_pos ?_ e
  intro rec e h
  cases e with
  | relation name => rfl
  | select c e => rw [evalBody, eval, h e (Nat.lt_succ_self _)]
  | project names e => rw [evalBody, eval, h e (Nat.lt_succ_self _)]
  | rename name e => rw [evalBody, eval, h e (Nat.lt_succ_self _)]
  | binary op l r =>
    rw [evalBody, eval, h l (Nat.lt_succ_of_le (Nat.le_max_left _ _)),
      h r (Nat.lt_succ_of_le (Nat.le_max_right _ _))]

theorem settles_toChars (e : Expr) : Settles charsBody e.height e e.toChars := by
  refine settles_of_size height_pos ?_ e
  intro rec e h
  cases e with
  | relation name => rfl
  | select c e => rw [charsBody, toChars, h e (Nat.lt_succ_self _)]
  | project names e => rw [charsBody, toChars, h e (Nat.lt_succ_self _)]
  | rename name e => rw [charsBody, toChars, h e (Nat.lt_succ_self _)]
  | binary op l r =>
    rw [charsBody, toChars, h l (Nat.lt_succ_of_le (Nat.le_max_left _ _)),
      h r (Nat.lt_succ_of_le (Nat.le_max_right _ _))]

/-- An expression that a limit lets through, with what it costs to use it: calls inside each other
for the expression, and for each of its conditions. -/
structure Shallow (limit : Nat) (e : Expr) : Prop where
  height : e.height ≤ limit
  eval : ∀ s, Settles (evalBody s) limit e (e.eval s)
  toChars : Settles charsBody limit e e.toChars
  condition_height : ∀ c ∈ e.conditions, c.predicate.height + 1 ≤ 2 * limit + 1
  condition_eval : ∀ c ∈ e.conditions, ∀ t,
    Settles (Predicate.evalBody t) (2 * limit + 1) c.predicate (c.predicate.eval t)
  condition_toChars : ∀ c ∈ e.conditions,
    Settles Predicate.charsBody (2 * limit + 1) c.predicate c.predicate.toChars

theorem Derives.shallow {limit : Nat} {cs : List Char} {e : Expr}
    (h : Derives limit limit cs e) : e.Shallow limit := by
  have hc : ∀ c ∈ e.conditions, c.predicate.height + 1 ≤ 2 * limit + 1 := fun c hm =>
    Nat.succ_le_succ (h.height_conditions c hm)
  exact ⟨h.height_le, fun s => (settles_eval s e).mono h.height_le,
    (settles_toChars e).mono h.height_le, hc,
    fun c hm t => (Predicate.settles_eval t c.predicate).mono (hc c hm),
    fun c hm => (Predicate.settles_toChars c.predicate).mono (hc c hm)⟩

/-- A limit only refuses. Under it a text is too deep, or has the same tree or the same error as
under any higher one; and the trees it lets through are no higher than it, each of their conditions
no higher than twice as much and one, which is as deep as evaluating and writing them goes. -/
theorem limit_refuses {limit limit' : Nat} (h : limit ≤ limit') (cs : List Char) :
    UpTo (QueryError.TooDeep limit) (parse limit cs) (parse limit' cs) ∧
      ∀ e, parse limit cs = .ok e → e.Shallow limit :=
  ⟨upTo_parse h cs, fun _ he => (derives_of_parseLevels he).shallow⟩

def either : Predicate :=
  .disj [.compare .eq (.attr "a") (.literal (.text "x")), .const true]

theorem parsePredicate_either :
    Condition.parsePredicate 2 "(a = 'x' OR true)".toList = .ok either := by
  have hname : Condition.IsName "a" := ⟨⟨'a', [], rfl, by decide +kernel, by simp⟩, by decide⟩
  have hp : either.Printable := .disj (by decide) <|
    List.forall_mem_cons.2 ⟨.compare hname trivial, List.forall_mem_singleton.2 (.const true)⟩
  have ht : either.toText.toList = "(a = 'x' OR true)".toList := by decide
  rw [← ht, Condition.parsePredicate_toText hp]
  rfl

theorem limit_refuses_grouped : 2 ≤ 7 ∧
    parse 2 "σ[(a = 'x' OR true)](R)".toList =
      .ok (select ⟨"(a = 'x' OR true)", either⟩ (relation "R")) ∧
    parse 7 "σ[(a = 'x' OR true)](R)".toList =
      .ok (select ⟨"(a = 'x' OR true)", either⟩ (relation "R")) ∧
    (select ⟨"(a = 'x' OR true)", either⟩ (relation "R")).Shallow 2 := by
  let e : Expr := select ⟨"(a = 'x' OR true)", either⟩ (relation "R")
  have hp : e.Printable := by
    simp [e, Printable, Ungrouped]
    decide
  have hc : ∀ c ∈ e.conditions, Condition.parsePredicate 2 c.text.toList = .ok c.predicate :=
    List.forall_mem_singleton.2 parsePredicate_either
  have ht : e.toChars = "σ[(a = 'x' OR true)](R)".toList := by decide
  have h₂ : parse 2 "σ[(a = 'x' OR true)](R)".toList = .ok e := by
    rw [← ht]
    exact parseLevels_toChars hp hc 2
  have hle : 2 ≤ 7 := by decide
  obtain ⟨hu, hs⟩ := limit_refuses hle "σ[(a = 'x' OR true)](R)".toList
  exact ⟨hle, h₂, hu.eq_ok h₂, hs e h₂⟩

end Expr

end RelAlg
