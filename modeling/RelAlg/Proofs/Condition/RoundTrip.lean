import RelAlg.Proofs.Condition.Depth
import RelAlg.Proofs.Condition.Spelling

set_option autoImplicit false

namespace RelAlg

namespace Condition

def keywords : List String := ["AND", "OR", "true", "TRUE", "false", "FALSE"]

structure IsName (name : String) : Prop where
  word : ∃ c w, name.toList = c :: w ∧ startsName c = true ∧ ∀ d ∈ w, continuesName d = true
  not_keyword : name ∉ keywords

theorem ofWord_eq_identifier_iff (word name : String) :
    Token.ofWord word = .identifier name ↔ word = name ∧ name ∉ keywords := by
  have hk : name ∉ keywords ↔ name ≠ "AND" ∧ name ≠ "OR" ∧ (name ≠ "true" ∧ name ≠ "TRUE") ∧
      name ≠ "false" ∧ name ≠ "FALSE" := by
    simp [keywords, and_assoc]
  rw [hk]
  constructor
  · intro h
    rw [Token.ofWord] at h
    split at h
    · cases h
    split at h
    · cases h
    split at h
    · cases h
    split at h
    · cases h
    rename_i h₁ h₂ h₃ h₄
    cases h
    exact ⟨rfl, h₁, h₂, not_or.1 h₃, not_or.1 h₄⟩
  · rintro ⟨rfl, h₁, h₂, h₃, h₄⟩
    rw [Token.ofWord, if_neg h₁, if_neg h₂, if_neg (not_or.2 h₃), if_neg (not_or.2 h₄)]

end Condition

open Condition

namespace Operand

def Printable : Operand → Prop
  | attr name => IsName name
  | literal (.number n) => n.isFinite = true
  | literal (.text _) => True

end Operand

namespace Predicate

/-- The predicates that can be written: attributes have names, numbers are finite, and two terms or
more are joined. -/
inductive Printable : Predicate → Prop where
  | const (b : Bool) : Printable (.const b)
  | compare {op : Comparison} {left right : Operand} : left.Printable → right.Printable →
      Printable (.compare op left right)
  | conj {ps : List Predicate} : 2 ≤ ps.length → (∀ p ∈ ps, Printable p) → Printable (.conj ps)
  | disj {ps : List Predicate} : 2 ≤ ps.length → (∀ p ∈ ps, Printable p) → Printable (.disj ps)

mutual

/-- The most joined lists of terms on the way to a comparison or a constant. -/
def height : Predicate → Nat
  | const _ => 0
  | compare _ _ _ => 0
  | conj ps => maxHeight ps + 1
  | disj ps => maxHeight ps + 1

def maxHeight : List Predicate → Nat
  | [] => 0
  | p :: ps => max p.height (maxHeight ps)

end

end Predicate

namespace Condition

theorem exists_atom {o : Operand} (h : o.Printable) :
    ∃ a : Atom, a.operand = o ∧ Writes o.toChars [a.token] := by
  match o, h with
  | .attr name, h =>
    obtain ⟨⟨c, w, hn, hc, hw⟩, hk⟩ := h
    have ht := writes_word hc hw
    rw [← hn, String.ofList_toList, (ofWord_eq_identifier_iff name name).2 ⟨rfl, hk⟩] at ht
    exact ⟨.identifier name, rfl, ht⟩
  | .literal (.number n), h =>
    obtain ⟨l, ht, hv⟩ := n.exists_literal h
    refine ⟨.number l, congrArg (fun n => Operand.literal (.number n)) hv, ?_⟩
    rw [Operand.toChars, ht, String.toList_ofList]
    exact writes_number l
  | .literal (.text s), _ => exact ⟨.text s, rfl, writes_text s⟩

theorem writes_keyword {c : Char} {w : List Char} {t : Token} (hc : startsName c = true)
    (hw : w.all continuesName = true) (ht : Token.ofWord (String.ofList (c :: w)) = t) :
    Writes (c :: w) [t] := by
  rw [← ht]
  exact writes_word hc (List.all_eq_true.1 hw)

theorem writes_and : Writes ['A', 'N', 'D'] [.and] :=
  writes_keyword (by decide +kernel) (by decide +kernel) rfl

theorem writes_or : Writes ['O', 'R'] [.or] :=
  writes_keyword (by decide +kernel) (by decide +kernel) rfl

theorem writes_const (b : Bool) :
    Writes (Predicate.const b).toChars (Primary.const b).tokens := by
  cases b with
  | true => exact writes_keyword (by decide +kernel) (by decide +kernel) rfl
  | false => exact writes_keyword (by decide +kernel) (by decide +kernel) rfl

theorem allOf_of_length {ps : List Predicate} (h : 2 ≤ ps.length) :
    Predicate.allOf ps = .conj ps := by
  match ps, h with
  | _ :: _ :: _, _ => rfl

theorem anyOf_of_length {ps : List Predicate} (h : 2 ≤ ps.length) :
    Predicate.anyOf ps = .disj ps := by
  match ps, h with
  | _ :: _ :: _, _ => rfl

-- The groups of the tree are the joined lists of the predicate, so the induction is on the
-- predicate and, inside a list, on its terms.
mutual

theorem exists_primary : ∀ p : Predicate, p.Printable →
    ∃ q : Primary, q.predicate = p ∧ q.depth = p.height ∧ Writes p.toChars q.tokens
  | .const b, _ => ⟨.const b, rfl, rfl, writes_const b⟩
  | .compare op left right, h => by
    obtain _ | ⟨hl, hr⟩ := h
    obtain ⟨a, rfl, ha⟩ := exists_atom hl
    obtain ⟨b, rfl, hb⟩ := exists_atom hr
    exact ⟨.compare a op b, rfl, rfl, (ha.spaced (writes_comparison op)).spaced hb⟩
  | .conj ps, h => by
    obtain _ | _ | ⟨h2, hp⟩ := h
    obtain ⟨c, ht, hd, hw⟩ := exists_conjunction ps (List.ne_nil_of_length_pos (by omega)) hp
    refine ⟨.group (.single c), ?_, congrArg (· + 1) hd, hw.paren⟩
    change Predicate.allOf c.terms = _
    rw [ht, allOf_of_length h2]
  | .disj ps, h => by
    obtain _ | _ | _ | ⟨h2, hp⟩ := h
    obtain ⟨d, ht, hd, hw⟩ := exists_disjunction ps (List.ne_nil_of_length_pos (by omega)) hp
    refine ⟨.group d, ?_, congrArg (· + 1) hd, hw.paren⟩
    change Predicate.anyOf d.terms = _
    rw [ht, anyOf_of_length h2]

theorem exists_conjunction : ∀ ps : List Predicate, ps ≠ [] → (∀ p ∈ ps, p.Printable) →
    ∃ c : Conjunction, c.terms = ps ∧ c.depth = Predicate.maxHeight ps ∧
      Writes (Predicate.joinedChars [' ', 'A', 'N', 'D', ' '] ps) c.tokens
  | [], hne, _ => absurd rfl hne
  | [p], _, hp => by
    obtain ⟨q, hq, hd, hw⟩ := exists_primary p (hp p List.mem_cons_self)
    exact ⟨.single q, congrArg ([·]) hq, hd.trans (Nat.max_zero _).symm, hw⟩
  | p :: r :: ps, _, hp => by
    obtain ⟨q, hq, hd, hw⟩ := exists_primary p (hp p List.mem_cons_self)
    obtain ⟨c, hc, hcd, hcw⟩ := exists_conjunction (r :: ps) (List.cons_ne_nil r ps)
      fun p h => hp p (List.mem_cons_of_mem _ h)
    refine ⟨.and q c, congrArg₂ List.cons hq hc, congrArg₂ max hd hcd, ?_⟩
    rw [Predicate.joinedChars, List.append_assoc]
    exact hw.spaced (writes_and.spaced hcw)

theorem exists_disjunction : ∀ ps : List Predicate, ps ≠ [] → (∀ p ∈ ps, p.Printable) →
    ∃ d : Disjunction, d.terms = ps ∧ d.depth = Predicate.maxHeight ps ∧
      Writes (Predicate.joinedChars [' ', 'O', 'R', ' '] ps) d.tokens
  | [], hne, _ => absurd rfl hne
  | [p], _, hp => by
    obtain ⟨q, hq, hd, hw⟩ := exists_primary p (hp p List.mem_cons_self)
    exact ⟨.single (.single q), congrArg ([·]) hq, hd.trans (Nat.max_zero _).symm, hw⟩
  | p :: r :: ps, _, hp => by
    obtain ⟨q, hq, hd, hw⟩ := exists_primary p (hp p List.mem_cons_self)
    obtain ⟨d, hc, hcd, hcw⟩ := exists_disjunction (r :: ps) (List.cons_ne_nil r ps)
      fun p h => hp p (List.mem_cons_of_mem _ h)
    refine ⟨.or (.single q) d, congrArg₂ List.cons hq hc, congrArg₂ max hd hcd, ?_⟩
    rw [Predicate.joinedChars, List.append_assoc]
    exact hw.spaced (writes_or.spaced hcw)

end

/-- What is written for a predicate stands for it, within one level more than its height. -/
theorem parsePredicate_toText {p : Predicate} (hp : p.Printable) (limit : Nat) :
    parsePredicate limit p.toText.toList =
      if p.height + 1 ≤ limit then .ok p else .error (.nestingTooDeep limit) := by
  obtain ⟨q, rfl, hd, hw⟩ := exists_primary p hp
  let d : Disjunction := .single (.single q)
  have hl : lex q.predicate.toText.toList = (d.tokens, none) := by
    rw [Predicate.toText, String.toList_ofList]
    exact hw.lex_eq
  rw [parsePredicate_of_lex limit hl, ← hd]
  rfl

theorem Reads.isName {c : Char} {cs : List Char} {t : Token} {count : Nat}
    (h : Reads c cs t count) : ∀ name, t = .identifier name → IsName name := by
  intro name ht
  cases h with
  | leftParen => cases ht
  | rightParen => cases ht
  | symbol hs _ =>
    rw [ht] at hs
    simp [symbols] at hs
  | text _ _ => cases ht
  | number _ => cases ht
  | word hc =>
    obtain ⟨rfl, hk⟩ := (ofWord_eq_identifier_iff _ _).1 ht
    exact ⟨⟨c, _, String.toList_ofList, hc, fun d hd => List.mem_takeWhile_imp hd⟩, hk⟩

def Token.Finite (t : Token) : Prop :=
  ∀ literal n, t = .number literal → Number.read? literal.toList = some n → n.isFinite

def FiniteNumbers (cs : List Char) : Prop :=
  ∀ t ∈ (lex cs).1, t.Finite

/-- A token that an operand can be written for. -/
def Token.Printable (t : Token) : Prop :=
  (∀ name, t = .identifier name → IsName name) ∧ t.Finite

theorem Atom.printable {a : Atom} (h : a.token.Printable) : a.operand.Printable := by
  cases a with
  | identifier name => exact h.1 name rfl
  | number l => exact h.2 _ l.value rfl (by rw [String.toList_ofList, l.read?_toChars])
  | text s => trivial

theorem printable_allOf {ps : List Predicate} (hne : ps ≠ []) (h : ∀ p ∈ ps, p.Printable) :
    (Predicate.allOf ps).Printable := by
  match ps, hne, h with
  | [p], _, h => exact h p List.mem_cons_self
  | _ :: _ :: _, _, h => exact .conj (by simp) h

theorem printable_anyOf {ps : List Predicate} (hne : ps ≠ []) (h : ∀ p ∈ ps, p.Printable) :
    (Predicate.anyOf ps).Printable := by
  match ps, hne, h with
  | [p], _, h => exact h p List.mem_cons_self
  | _ :: _ :: _, _, h => exact .disj (by simp) h

theorem Conjunction.terms_ne_nil (c : Conjunction) : c.terms ≠ [] := by
  cases c <;> exact List.cons_ne_nil _ _

theorem Disjunction.terms_ne_nil (d : Disjunction) : d.terms ≠ [] := by
  cases d <;> exact List.cons_ne_nil _ _

mutual

theorem Disjunction.printable : ∀ d : Disjunction, (∀ t ∈ d.tokens, t.Printable) →
    ∀ p ∈ d.terms, p.Printable
  | .single c, h => by
    rw [Disjunction.terms, List.forall_mem_singleton]
    exact printable_allOf c.terms_ne_nil (c.printable h)
  | .or c d, h => by
    rw [Disjunction.tokens, List.forall_mem_append, List.forall_mem_cons] at h
    rw [Disjunction.terms, List.forall_mem_cons]
    exact ⟨printable_allOf c.terms_ne_nil (c.printable h.1), d.printable h.2.2⟩

theorem Conjunction.printable : ∀ c : Conjunction, (∀ t ∈ c.tokens, t.Printable) →
    ∀ p ∈ c.terms, p.Printable
  | .single p, h => by
    rw [Conjunction.terms, List.forall_mem_singleton]
    exact p.printable h
  | .and p c, h => by
    rw [Conjunction.tokens, List.forall_mem_append, List.forall_mem_cons] at h
    rw [Conjunction.terms, List.forall_mem_cons]
    exact ⟨p.printable h.1, c.printable h.2.2⟩

theorem Primary.printable : ∀ p : Primary, (∀ t ∈ p.tokens, t.Printable) → p.predicate.Printable
  | .group d, h => by
    rw [Primary.tokens, List.forall_mem_cons, List.forall_mem_append] at h
    exact printable_anyOf d.terms_ne_nil (d.printable h.2.1)
  | .compare a op b, h => by
    rw [Primary.tokens, List.forall_mem_cons, List.forall_mem_cons, List.forall_mem_singleton] at h
    exact .compare (Atom.printable h.1) (Atom.printable h.2.2)
  | .const b, _ => .const b

end

theorem printable_of_parsePredicate {limit : Nat} {cs : List Char} {p : Predicate}
    (hf : FiniteNumbers cs) (h : parsePredicate limit cs = .ok p) : p.Printable := by
  obtain ⟨d, hl, -, rfl⟩ := (parsePredicate_eq_ok_iff limit cs p).1 h
  have hn := forall_lex Reads.isName cs
  rw [FiniteNumbers, hl] at hf
  rw [hl] at hn
  exact printable_anyOf d.terms_ne_nil (d.printable fun t ht => ⟨hn t ht, hf t ht⟩)

/-- To write a predicate and to read it undo each other. What is written is read as the same
predicate if there is a level more than lists are nested, and else is too deep; and whatever is read
can be written, if its numbers are finite. -/
theorem reads_written :
    (∀ (p : Predicate) (limit : Nat), p.Printable →
      parsePredicate limit p.toText.toList =
        if p.height + 1 ≤ limit then .ok p else .error (.nestingTooDeep limit)) ∧
    ∀ (limit : Nat) (cs : List Char) (p : Predicate), FiniteNumbers cs →
      parsePredicate limit cs = .ok p → p.Printable :=
  ⟨fun _ limit hp => parsePredicate_toText hp limit, fun _ _ _ => printable_of_parsePredicate⟩

def nested : Predicate :=
  .conj [.compare .lt (.attr "a") (.literal (.number (.negate .zero))),
    .disj [.compare .ne (.attr "_b2") (.literal (.text "it's")),
      .compare .eq (.literal (.text "AND")) (.attr "a"), .const true]]

theorem reads_written_nested : nested.Printable ∧
    parsePredicate 3 "(a < -0 AND (_b2 != 'it''s' OR 'AND' = a OR true))".toList = .ok nested ∧
    parsePredicate 2 "(a < -0 AND (_b2 != 'it''s' OR 'AND' = a OR true))".toList =
      .error (.nestingTooDeep 2) ∧
    FiniteNumbers "true".toList ∧ (Predicate.const true).Printable := by
  have ha : IsName "a" := ⟨⟨'a', [], rfl, by decide +kernel, by simp⟩, by decide⟩
  have hb : IsName "_b2" :=
    ⟨⟨'_', ['b', '2'], rfl, by decide +kernel, List.all_eq_true.1 (by decide +kernel)⟩, by decide⟩
  have hz : (Number.negate .zero).isFinite = true := by decide
  have hd : (Predicate.disj [.compare .ne (.attr "_b2") (.literal (.text "it's")),
      .compare .eq (.literal (.text "AND")) (.attr "a"), .const true]).Printable :=
    .disj (by decide) <| List.forall_mem_cons.2 ⟨.compare hb trivial, List.forall_mem_cons.2
      ⟨.compare trivial ha, List.forall_mem_singleton.2 (.const true)⟩⟩
  have hp : nested.Printable :=
    .conj (by decide) <| List.forall_mem_cons.2 ⟨.compare ha hz, List.forall_mem_singleton.2 hd⟩
  have ht : nested.toText.toList = "(a < -0 AND (_b2 != 'it''s' OR 'AND' = a OR true))".toList := by
    decide
  have hf : FiniteNumbers "true".toList := by
    have hl : lex "true".toList = ([.true], none) := (writes_const true).lex_eq
    rw [FiniteNumbers, hl]
    exact List.forall_mem_singleton.2 fun _ _ h => by cases h
  rw [← ht]
  refine ⟨hp, reads_written.1 nested 3 hp, reads_written.1 nested 2 hp, hf,
    reads_written.2 1 _ _ hf ?_⟩
  exact reads_written.1 (.const true) 1 (.const true)

end Condition

end RelAlg
