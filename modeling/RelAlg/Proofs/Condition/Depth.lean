import RelAlg.Proofs.Condition.Acceptance

/-!
Conditions that are nested too deep. Where the groups of a tree go down to the limit, that is what
is reported, because everything in front of the first group that is too deep can be taken.
-/

set_option autoImplicit false

namespace RelAlg.Condition

section Chain

variable {link : Token} {item : Step Predicate} {ts mid : List Token} {p : Predicate}
  {e : ConditionError}

theorem chain_error (h : item ts = .error e) : chain link item ts = .error e := by
  rw [chain, h]

theorem chain_link_error (h : item.Takes ts p (link :: mid)) (hc : chain link item mid = .error e) :
    chain link item ts = .error e := by
  obtain ⟨hl, h⟩ := h
  rw [chain, h]
  simp only [↓reduceIte]
  rw [hc]

end Chain

variable {limit n : Nat} {ts : List Token} {e : ConditionError}

theorem joined_error {s : Step (List Predicate)} {join : List Predicate → Predicate}
    (h : s ts = .error e) :
    (do
      let (ps, rest) ← s ts
      return (join ps, rest)) = .error e := by
  rw [h]
  rfl

theorem conjunction_error {inner : Step Predicate} (h : chain .and (primary inner) ts = .error e) :
    conjunction inner ts = .error e :=
  joined_error h

theorem disjunction_error (h : chain .or (conjunction (disjunction limit n)) ts = .error e) :
    disjunction limit (n + 1) ts = .error e :=
  joined_error h

theorem primary_error {inner : Step Predicate} (h : inner ts = .error e) :
    primary inner (.leftParen :: ts) = .error e := by
  rw [primary, h]
  rfl

-- A term that goes too deep ends the chain; one that does not is taken, and a later one goes too
-- deep.
mutual

theorem Disjunction.tooDeep (limit : Nat) : ∀ (d : Disjunction) (n : Nat) (rest : List Token),
    n < d.depth → chain .or (conjunction (disjunction limit n)) (d.tokens ++ rest) =
      .error (.nestingTooDeep limit)
  | .single c, n, rest, hd => chain_error (conjunction_error (c.tooDeep limit n rest hd))
  | .or c d, n, rest, hd => by
    rw [Disjunction.tokens, List.append_assoc]
    by_cases hc : n < c.depth
    · exact chain_error (conjunction_error (c.tooDeep limit n _ hc))
    · have ht := c.takes_terms limit n (.or :: (d.tokens ++ rest)) (Nat.not_lt.1 hc) (by simp)
      have hd' : n < d.depth := by
        rw [Disjunction.depth] at hd
        omega
      exact chain_link_error (conjunction_takes.2 ⟨_, ht, rfl⟩) (d.tooDeep limit n rest hd')

theorem Conjunction.tooDeep (limit : Nat) : ∀ (c : Conjunction) (n : Nat) (rest : List Token),
    n < c.depth → chain .and (primary (disjunction limit n)) (c.tokens ++ rest) =
      .error (.nestingTooDeep limit)
  | .single p, n, rest, hd => chain_error (p.tooDeep limit n rest hd)
  | .and p c, n, rest, hd => by
    rw [Conjunction.tokens, List.append_assoc]
    by_cases hp : n < p.depth
    · exact chain_error (p.tooDeep limit n _ hp)
    · have ht := p.takes_predicate limit n (.and :: (c.tokens ++ rest)) (Nat.not_lt.1 hp)
      have hc : n < c.depth := by
        rw [Conjunction.depth] at hd
        omega
      exact chain_link_error ht (c.tooDeep limit n rest hc)

theorem Primary.tooDeep (limit : Nat) : ∀ (p : Primary) (n : Nat) (rest : List Token),
    n < p.depth → primary (disjunction limit n) (p.tokens ++ rest) = .error (.nestingTooDeep limit)
  | .group d, 0, rest, _ => rfl
  | .group d, n + 1, rest, hd => by
    rw [Primary.tokens, List.cons_append, List.append_assoc]
    exact primary_error (disjunction_error (d.tooDeep limit n _ (Nat.lt_of_succ_lt_succ hd)))
  | .compare _ _ _, n, rest, hd => absurd hd (Nat.not_lt_zero n)
  | .const _, n, rest, hd => absurd hd (Nat.not_lt_zero n)

end

theorem Disjunction.tokens_ne_nil (d : Disjunction) : d.tokens ≠ [] := by
  obtain ⟨hlt, -⟩ := d.takes_terms 0 d.depth [] (Nat.le_refl _) (by simp) (by simp)
  rw [List.append_nil] at hlt
  exact List.ne_nil_of_length_pos hlt

theorem disjunction_tooDeep (d : Disjunction) (h : n ≤ d.depth) :
    disjunction limit n d.tokens = .error (.nestingTooDeep limit) := by
  cases n with
  | zero => rfl
  | succ n =>
    have hc := d.tooDeep limit n [] h
    rw [List.append_nil] at hc
    exact disjunction_error hc

/-- The text of a tree stands for its predicate if there are more levels than groups inside each
other, and is refused as too deep if there are not. -/
theorem parsePredicate_of_lex (limit : Nat) {cs : List Char} {d : Disjunction}
    (h : lex cs = (d.tokens, none)) :
    parsePredicate limit cs =
      if d.depth < limit then .ok d.predicate else .error (.nestingTooDeep limit) := by
  split
  · rename_i hd
    exact (parsePredicate_eq_ok_iff limit cs _).2 ⟨d, h, hd, rfl⟩
  · rename_i hd
    have hne : ¬d.tokens.isEmpty = true := by
      rw [List.isEmpty_iff]
      exact d.tokens_ne_nil
    rw [parsePredicate, tokenize, h]
    change parseTokens limit d.tokens = _
    rw [parseTokens, if_neg hne, disjunction_tooDeep d (Nat.not_lt.1 hd)]
    rfl

end RelAlg.Condition
