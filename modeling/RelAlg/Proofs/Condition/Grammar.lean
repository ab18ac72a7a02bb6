import RelAlg.Condition.Parser
import RelAlg.Proofs.Number.Literal

set_option autoImplicit false

namespace RelAlg.Condition

inductive Atom where
  | identifier (name : String)
  | number (n : Number.Literal)
  | text (s : String)

mutual

inductive Disjunction where
  | single (c : Conjunction)
  | or (c : Conjunction) (rest : Disjunction)

inductive Conjunction where
  | single (p : Primary)
  | and (p : Primary) (rest : Conjunction)

inductive Primary where
  | group (d : Disjunction)
  | compare (left : Atom) (op : Comparison) (right : Atom)
  | const (b : Bool)

end

namespace Atom

def token : Atom → Token
  | identifier name => .identifier name
  | number n => .number (String.ofList n.toChars)
  | text s => .text s

def operand : Atom → Operand
  | identifier name => .attr name
  | number n => .literal (.number n.value)
  | text s => .literal (.text s)

end Atom

def comparisonToken : Comparison → Token
  | .eq => .equal
  | .ne => .notEqual
  | .lt => .less
  | .le => .lessEqual
  | .gt => .greater
  | .ge => .greaterEqual

mutual

def Disjunction.tokens : Disjunction → List Token
  | .single c => c.tokens
  | .or c rest => c.tokens ++ .or :: rest.tokens

def Conjunction.tokens : Conjunction → List Token
  | .single p => p.tokens
  | .and p rest => p.tokens ++ .and :: rest.tokens

def Primary.tokens : Primary → List Token
  | .group d => .leftParen :: (d.tokens ++ [.rightParen])
  | .compare left op right => [left.token, comparisonToken op, right.token]
  | .const b => [if b then .true else .false]

end

mutual

/-- How many groups stand inside each other. -/
def Disjunction.depth : Disjunction → Nat
  | .single c => c.depth
  | .or c rest => max c.depth rest.depth

def Conjunction.depth : Conjunction → Nat
  | .single p => p.depth
  | .and p rest => max p.depth rest.depth

def Primary.depth : Primary → Nat
  | .group d => d.depth + 1
  | .compare _ _ _ => 0
  | .const _ => 0

end

mutual

/-- The predicates of the terms in their order; a group is its condition. -/
def Disjunction.terms : Disjunction → List Predicate
  | .single c => [.allOf c.terms]
  | .or c rest => .allOf c.terms :: rest.terms

def Conjunction.terms : Conjunction → List Predicate
  | .single p => [p.predicate]
  | .and p rest => p.predicate :: rest.terms

def Primary.predicate : Primary → Predicate
  | .group d => .anyOf d.terms
  | .compare left op right => .compare op left.operand right.operand
  | .const b => .const b

end

def Disjunction.predicate (d : Disjunction) : Predicate :=
  .anyOf d.terms

def Conjunction.predicate (c : Conjunction) : Predicate :=
  .allOf c.terms

/-- Number tokens hold number literals, as they do in every token that is read from a text. -/
def Token.Lexical (t : Token) : Prop :=
  ∀ literal, t = .number literal → ∃ n : Number.Literal, literal = String.ofList n.toChars

theorem Atom.token_injective : Function.Injective Atom.token := by
  intro a b h
  cases a with
  | identifier name =>
    cases b <;> cases h
    rfl
  | number n =>
    cases b with
    | number m =>
      have hc : n.toChars = m.toChars := String.ofList_injective (Token.number.inj h)
      rw [Number.Literal.toChars_injective hc]
    | identifier name => cases h
    | text s => cases h
  | text s =>
    cases b <;> cases h
    rfl

theorem comparisonToken_injective : Function.Injective comparisonToken := by
  intro a b h
  cases a <;> cases b <;> first | rfl | cases h

-- What follows the tokens is kept general, but for the links that could go on, so that the parts of
-- two trees can be cut off one after the other.
mutual

theorem Disjunction.tokens_inj : ∀ (d d' : Disjunction) (r r' : List Token),
    d.tokens ++ r = d'.tokens ++ r' → r.head? ≠ some .or → r'.head? ≠ some .or →
      r.head? ≠ some .and → r'.head? ≠ some .and → d = d' ∧ r = r'
  | .single c, .single c', r, r', h, _, _, ha, ha' => by
    obtain ⟨rfl, hr⟩ := c.tokens_inj c' r r' h ha ha'
    exact ⟨rfl, hr⟩
  | .single c, .or c' rest', r, r', h, ho, _, ha, _ => by
    rw [Disjunction.tokens, Disjunction.tokens, List.append_assoc] at h
    obtain ⟨-, hr⟩ := c.tokens_inj c' r _ h ha (by simp)
    exact absurd (by rw [hr]; rfl) ho
  | .or c rest, .single c', r, r', h, _, ho', _, ha' => by
    rw [Disjunction.tokens, Disjunction.tokens, List.append_assoc] at h
    obtain ⟨-, hr⟩ := c.tokens_inj c' _ r' h (by simp) ha'
    exact absurd (by rw [← hr]; rfl) ho'
  | .or c rest, .or c' rest', r, r', h, ho, ho', ha, ha' => by
    rw [Disjunction.tokens, Disjunction.tokens, List.append_assoc, List.append_assoc] at h
    obtain ⟨rfl, hl⟩ := c.tokens_inj c' _ _ h (by simp) (by simp)
    obtain ⟨rfl, hr⟩ := rest.tokens_inj rest' r r' (List.cons.inj hl).2 ho ho' ha ha'
    exact ⟨rfl, hr⟩

theorem Conjunction.tokens_inj : ∀ (c c' : Conjunction) (r r' : List Token),
    c.tokens ++ r = c'.tokens ++ r' → r.head? ≠ some .and → r'.head? ≠ some .and → c = c' ∧ r = r'
  | .single p, .single p', r, r', h, _, _ => by
    obtain ⟨rfl, hr⟩ := p.tokens_inj p' r r' h
    exact ⟨rfl, hr⟩
  | .single p, .and p' rest', r, r', h, ha, _ => by
    rw [Conjunction.tokens, Conjunction.tokens, List.append_assoc] at h
    obtain ⟨-, hr⟩ := p.tokens_inj p' r _ h
    exact absurd (by rw [hr]; rfl) ha
  | .and p rest, .single p', r, r', h, _, ha' => by
    rw [Conjunction.tokens, Conjunction.tokens, List.append_assoc] at h
    obtain ⟨-, hr⟩ := p.tokens_inj p' _ r' h
    exact absurd (by rw [← hr]; rfl) ha'
  | .and p rest, .and p' rest', r, r', h, ha, ha' => by
    rw [Conjunction.tokens, Conjunction.tokens, List.append_assoc, List.append_assoc] at h
    obtain ⟨rfl, hl⟩ := p.tokens_inj p' _ _ h
    obtain ⟨rfl, hr⟩ := rest.tokens_inj rest' r r' (List.cons.inj hl).2 ha ha'
    exact ⟨rfl, hr⟩

theorem Primary.tokens_inj : ∀ (p p' : Primary) (r r' : List Token),
    p.tokens ++ r = p'.tokens ++ r' → p = p' ∧ r = r'
  | .group d, .group d', r, r', h => by
    rw [Primary.tokens, Primary.tokens, List.cons_append, List.cons_append, List.append_assoc,
      List.append_assoc] at h
    obtain ⟨rfl, hr⟩ := d.tokens_inj d' _ _ (List.cons.inj h).2 (by simp) (by simp) (by simp)
      (by simp)
    exact ⟨rfl, (List.cons.inj hr).2⟩
  | .compare a op b, .compare a' op' b', r, r', h => by
    obtain ⟨ha, h⟩ := List.cons.inj h
    obtain ⟨ho, h⟩ := List.cons.inj h
    obtain ⟨hb, hr⟩ := List.cons.inj h
    rw [Atom.token_injective ha, comparisonToken_injective ho, Atom.token_injective hb]
    exact ⟨rfl, hr⟩
  | .const b, .const b', r, r', h => by
    cases b <;> cases b' <;> cases h <;> exact ⟨rfl, rfl⟩
  | .group _, .compare a _ _, _, _, h => by cases a <;> cases h
  | .group _, .const b, _, _, h => by cases b <;> cases h
  | .compare a _ _, .group _, _, _, h => by cases a <;> cases h
  | .compare a _ _, .const b, _, _, h => by cases a <;> cases b <;> cases h
  | .const b, .group _, _, _, h => by cases b <;> cases h
  | .const b, .compare a _ _, _, _, h => by cases a <;> cases b <;> cases h

end

end RelAlg.Condition
