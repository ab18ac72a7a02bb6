import RelAlg.Condition
import RelAlg.Proofs.Condition.Reading
import RelAlg.Proofs.Outcome

set_option autoImplicit false

namespace RelAlg.Condition

def Step.Takes {α : Type} (s : Step α) (ts : List Token) (a : α) (rest : List Token) : Prop :=
  ∃ h, s ts = .ok (a, ⟨rest, h⟩)

section Chain

variable {link : Token} {item : Step Predicate} {ts mid rest : List Token} {p : Predicate}
  {ps : List Predicate}

theorem chain_last (h : item.Takes ts p rest) (hr : rest.head? ≠ some link) :
    (chain link item).Takes ts [p] rest := by
  obtain ⟨hl, h⟩ := h
  refine ⟨hl, ?_⟩
  rw [chain, h]
  cases rest with
  | nil => rfl
  | cons t rest =>
    have ht : t ≠ link := fun ht => hr (congrArg some ht)
    exact if_neg ht

theorem chain_link (h : item.Takes ts p (link :: mid)) (hc : (chain link item).Takes mid ps rest) :
    (chain link item).Takes ts (p :: ps) rest := by
  obtain ⟨hl, h⟩ := h
  obtain ⟨hm, hc⟩ := hc
  have hlt : rest.length < ts.length :=
    Nat.lt_trans hm (Nat.lt_trans (Nat.lt_succ_self _) hl)
  refine ⟨hlt, ?_⟩
  rw [chain, h]
  simp only [↓reduceIte]
  rw [hc]

/-- A chain is its last item or an item with a chain behind the link. -/
theorem chain_takes {motive : List Token → List Predicate → List Token → Prop}
    (last : ∀ ts p rest, item.Takes ts p rest → motive ts [p] rest)
    (step : ∀ ts p mid ps rest, item.Takes ts p (link :: mid) → motive mid ps rest →
      motive ts (p :: ps) rest) (h : (chain link item).Takes ts ps rest) : motive ts ps rest := by
  obtain ⟨hl, h⟩ := h
  fun_induction chain link item ts generalizing ps rest with
  | case1 ts e hi => cases h
  | case2 ts p hlt hi =>
    cases h
    exact last ts p [] ⟨hlt, hi⟩
  | case3 ts p mid hlt hi hm e hc ih => cases h
  | case4 ts p mid ps' rest' hm hc hlt hi _ ih =>
    cases h
    exact step ts p mid ps' rest' ⟨hlt, hi⟩ (ih hm hc)
  | case5 ts p t mid hl hi ht =>
    cases h
    exact last ts p _ ⟨hl, hi⟩

end Chain

section Comparisons

variable {ts rest : List Token}

theorem takes_operand (a : Atom) (rest : List Token) :
    operand.Takes (a.token :: rest) a.operand rest := by
  refine ⟨Nat.lt_succ_self _, ?_⟩
  cases a with
  | identifier name => rfl
  | number n =>
    rw [Atom.token, operand, String.toList_ofList, n.read?_toChars]
    rfl
  | text s => rfl

theorem operand_takes {o : Operand} (hl : ∀ t ∈ ts, t.Lexical) (h : operand.Takes ts o rest) :
    ∃ a : Atom, ts = a.token :: rest ∧ a.operand = o := by
  obtain ⟨hlt, h⟩ := h
  rw [operand.eq_def] at h
  split at h
  · cases h
    exact ⟨.identifier _, rfl, rfl⟩
  · cases h
    exact ⟨.text _, rfl, rfl⟩
  · rename_i literal ts
    obtain ⟨n, rfl⟩ := hl _ List.mem_cons_self literal rfl
    rw [String.toList_ofList, n.read?_toChars] at h
    cases h
    exact ⟨.number n, rfl, rfl⟩
  · cases h

theorem comparison?_token (op : Comparison) : (comparisonToken op).comparison? = some op := by
  cases op <;> rfl

theorem takes_comparison (op : Comparison) (rest : List Token) :
    comparison.Takes (comparisonToken op :: rest) op rest := by
  refine ⟨Nat.lt_succ_self _, ?_⟩
  simp only [comparison, comparison?_token]

theorem comparison_takes {op : Comparison} (h : comparison.Takes ts op rest) :
    ts = comparisonToken op :: rest := by
  obtain ⟨hlt, h⟩ := h
  cases ts with
  | nil => cases h
  | cons t ts =>
    simp only [comparison] at h
    cases t <;> cases h <;> rfl

theorem takes_compared (left right : Atom) (op : Comparison) (rest : List Token) :
    compared.Takes (left.token :: comparisonToken op :: right.token :: rest)
      (.compare op left.operand right.operand) rest := by
  obtain ⟨h₁, hl⟩ := takes_operand left (comparisonToken op :: right.token :: rest)
  obtain ⟨h₂, ho⟩ := takes_comparison op (right.token :: rest)
  obtain ⟨h₃, hr⟩ := takes_operand right rest
  refine ⟨Nat.lt_trans h₃ (Nat.lt_trans h₂ h₁), ?_⟩
  simp only [compared, bind, Except.bind, hl, ho, hr]
  rfl

theorem compared_takes {p : Predicate} (hl : ∀ t ∈ ts, t.Lexical) (h : compared.Takes ts p rest) :
    ∃ left op right, ts = (Primary.compare left op right).tokens ++ rest ∧
      (Primary.compare left op right).predicate = p := by
  obtain ⟨hlt, h⟩ := h
  obtain ⟨⟨l, ts₁, h₁⟩, ha, h⟩ := bind_ok h
  obtain ⟨⟨op, ts₂, h₂⟩, ho, h⟩ := bind_ok h
  obtain ⟨⟨r, ts₃, h₃⟩, hb, h⟩ := bind_ok h
  cases h
  obtain ⟨left, rfl, rfl⟩ := operand_takes hl ⟨h₁, ha⟩
  obtain rfl := comparison_takes ⟨h₂, ho⟩
  have hl' : ∀ t ∈ ts₂, t.Lexical :=
    (List.forall_mem_cons.1 (List.forall_mem_cons.1 hl).2).2
  obtain ⟨right, rfl, rfl⟩ := operand_takes hl' ⟨h₃, hb⟩
  exact ⟨left, op, right, rfl, rfl⟩

end Comparisons

section Levels

variable {inner : Step Predicate} {limit n : Nat} {ts rest : List Token} {p : Predicate}
  {ps : List Predicate}

theorem takes_group (h : inner.Takes ts p (.rightParen :: rest)) :
    (primary inner).Takes (.leftParen :: ts) p rest := by
  obtain ⟨hl, h⟩ := h
  have hlt : rest.length < (Token.leftParen :: ts).length :=
    Nat.lt_succ_of_lt (Nat.lt_trans (Nat.lt_succ_self _) hl)
  refine ⟨hlt, ?_⟩
  simp only [primary, bind, Except.bind, h, closing]
  rfl

theorem takes_const (b : Bool) (rest : List Token) :
    (primary inner).Takes ((Primary.const b).tokens ++ rest) (.const b) rest := by
  cases b
  · exact ⟨Nat.lt_succ_self _, rfl⟩
  · exact ⟨Nat.lt_succ_self _, rfl⟩

theorem takes_compare (left right : Atom) (op : Comparison) (rest : List Token) :
    (primary inner).Takes ((Primary.compare left op right).tokens ++ rest)
      (Primary.compare left op right).predicate rest := by
  have h := takes_compared left right op rest
  cases left <;> exact h

/-- Anything but a group is a primary of its own. -/
theorem primary_takes (hl : ∀ t ∈ ts, t.Lexical) (h : (primary inner).Takes ts p rest) :
    (∃ mid, ts = .leftParen :: mid ∧ inner.Takes mid p (.rightParen :: rest)) ∨
      ∃ q : Primary, ts = q.tokens ++ rest ∧ q.depth = 0 ∧ q.predicate = p := by
  obtain ⟨hlt, h⟩ := h
  rw [primary.eq_def] at h
  split at h
  · rename_i ts
    obtain ⟨⟨p', ts₁, h₁⟩, hi, h⟩ := bind_ok h
    obtain ⟨⟨u, ts₂, h₂⟩, hc, h⟩ := bind_ok h
    cases h
    rw [closing.eq_def] at hc
    split at hc
    · cases hc
      exact .inl ⟨_, rfl, h₁, hi⟩
    · cases hc
  · cases h
    exact .inr ⟨.const true, rfl, rfl, rfl⟩
  · cases h
    exact .inr ⟨.const false, rfl, rfl, rfl⟩
  · obtain ⟨left, op, right, ht, hp⟩ := compared_takes hl ⟨hlt, h⟩
    exact .inr ⟨.compare left op right, ht, rfl, hp⟩

theorem joined_takes {s : Step (List Predicate)} {join : List Predicate → Predicate} :
    Step.Takes (fun ts => do
      let (ps, rest) ← s ts
      return (join ps, rest)) ts p rest ↔ ∃ ps, s.Takes ts ps rest ∧ join ps = p := by
  constructor
  · rintro ⟨hl, h⟩
    obtain ⟨⟨ps, rest'⟩, hs, h⟩ := bind_ok h
    cases h
    exact ⟨ps, ⟨hl, hs⟩, rfl⟩
  · rintro ⟨ps, ⟨hl, hs⟩, rfl⟩
    refine ⟨hl, ?_⟩
    simp only [hs]
    rfl

theorem conjunction_takes : (conjunction inner).Takes ts p rest ↔
    ∃ ps, (chain .and (primary inner)).Takes ts ps rest ∧ Predicate.allOf ps = p :=
  joined_takes

theorem disjunction_takes : (disjunction limit (n + 1)).Takes ts p rest ↔
    ∃ ps, (chain .or (conjunction (disjunction limit n))).Takes ts ps rest ∧
      Predicate.anyOf ps = p :=
  joined_takes

end Levels

mutual

/-- Every tree is taken within the levels that its groups need, up to where a chain could go on. -/
theorem Disjunction.takes_terms (limit : Nat) : ∀ (d : Disjunction) (n : Nat) (rest : List Token),
    d.depth ≤ n → rest.head? ≠ some .or → rest.head? ≠ some .and →
      (chain .or (conjunction (disjunction limit n))).Takes (d.tokens ++ rest) d.terms rest
  | .single c, n, rest, hd, ho, ha =>
    chain_last (conjunction_takes.2 ⟨_, c.takes_terms limit n rest hd ha, rfl⟩) ho
  | .or c d, n, rest, hd, ho, ha => by
    obtain ⟨hc, hd⟩ := Nat.max_le.1 hd
    have hi := c.takes_terms limit n (.or :: (d.tokens ++ rest)) hc (by simp)
    rw [Disjunction.tokens, List.append_assoc]
    exact chain_link (conjunction_takes.2 ⟨_, hi, rfl⟩) (d.takes_terms limit n rest hd ho ha)

theorem Conjunction.takes_terms (limit : Nat) : ∀ (c : Conjunction) (n : Nat) (rest : List Token),
    c.depth ≤ n → rest.head? ≠ some .and →
      (chain .and (primary (disjunction limit n))).Takes (c.tokens ++ rest) c.terms rest
  | .single p, n, rest, hd, ha => chain_last (p.takes_predicate limit n rest hd) ha
  | .and p c, n, rest, hd, ha => by
    obtain ⟨hp, hd⟩ := Nat.max_le.1 hd
    have hi := p.takes_predicate limit n (.and :: (c.tokens ++ rest)) hp
    rw [Conjunction.tokens, List.append_assoc]
    exact chain_link hi (c.takes_terms limit n rest hd ha)

theorem Primary.takes_predicate (limit : Nat) : ∀ (p : Primary) (n : Nat) (rest : List Token),
    p.depth ≤ n → (primary (disjunction limit n)).Takes (p.tokens ++ rest) p.predicate rest
  | .group d, 0, rest, hd => absurd hd (Nat.not_succ_le_zero _)
  | .group d, n + 1, rest, hd => by
    have hi := d.takes_terms limit n (.rightParen :: rest) (Nat.le_of_succ_le_succ hd) (by simp)
      (by simp)
    rw [Primary.tokens, List.cons_append, List.append_assoc]
    exact takes_group (disjunction_takes.2 ⟨_, hi, rfl⟩)
  | .compare left op right, n, rest, _ => takes_compare left right op rest
  | .const b, n, rest, _ => takes_const b rest

end

theorem conjunction_of_chain {inner : Step Predicate} {n : Nat} {ts rest : List Token}
    {ps : List Predicate}
    (hp : ∀ ts p rest, (primary inner).Takes ts p rest → (∀ t ∈ ts, t.Lexical) →
      ∃ q : Primary, ts = q.tokens ++ rest ∧ q.depth ≤ n ∧ q.predicate = p)
    (h : (chain .and (primary inner)).Takes ts ps rest) (hl : ∀ t ∈ ts, t.Lexical) :
    ∃ c : Conjunction, ts = c.tokens ++ rest ∧ c.depth ≤ n ∧ c.terms = ps := by
  refine chain_takes (motive := fun ts ps rest => (∀ t ∈ ts, t.Lexical) →
    ∃ c : Conjunction, ts = c.tokens ++ rest ∧ c.depth ≤ n ∧ c.terms = ps) ?_ ?_ h hl
  · intro ts p rest h hl
    obtain ⟨q, ht, hd, rfl⟩ := hp ts p rest h hl
    exact ⟨.single q, ht, hd, rfl⟩
  · intro ts p mid ps rest h hc hl
    obtain ⟨q, rfl, hd, rfl⟩ := hp ts p _ h hl
    obtain ⟨c, rfl, hd', rfl⟩ := hc (List.forall_mem_cons.1 (List.forall_mem_append.1 hl).2).2
    refine ⟨.and q c, ?_, Nat.max_le.2 ⟨hd, hd'⟩, rfl⟩
    rw [Conjunction.tokens, List.append_assoc]
    rfl

theorem disjunction_of_chain {inner : Step Predicate} {n : Nat} {ts rest : List Token}
    {ps : List Predicate}
    (hp : ∀ ts p rest, (primary inner).Takes ts p rest → (∀ t ∈ ts, t.Lexical) →
      ∃ q : Primary, ts = q.tokens ++ rest ∧ q.depth ≤ n ∧ q.predicate = p)
    (h : (chain .or (conjunction inner)).Takes ts ps rest) (hl : ∀ t ∈ ts, t.Lexical) :
    ∃ d : Disjunction, ts = d.tokens ++ rest ∧ d.depth ≤ n ∧ d.terms = ps := by
  refine chain_takes (motive := fun ts ps rest => (∀ t ∈ ts, t.Lexical) →
    ∃ d : Disjunction, ts = d.tokens ++ rest ∧ d.depth ≤ n ∧ d.terms = ps) ?_ ?_ h hl
  · intro ts p rest h hl
    obtain ⟨ps, hc, rfl⟩ := conjunction_takes.1 h
    obtain ⟨c, ht, hd, rfl⟩ := conjunction_of_chain hp hc hl
    exact ⟨.single c, ht, hd, rfl⟩
  · intro ts p mid ps rest h hr hl
    obtain ⟨qs, hc, rfl⟩ := conjunction_takes.1 h
    obtain ⟨c, rfl, hd, rfl⟩ := conjunction_of_chain hp hc hl
    obtain ⟨d, rfl, hd', rfl⟩ := hr (List.forall_mem_cons.1 (List.forall_mem_append.1 hl).2).2
    refine ⟨.or c d, ?_, Nat.max_le.2 ⟨hd, hd'⟩, rfl⟩
    rw [Disjunction.tokens, List.append_assoc]
    rfl

theorem derives_of_takes (limit n : Nat) {ts rest : List Token} {p : Predicate}
    (h : (disjunction limit n).Takes ts p rest) (hl : ∀ t ∈ ts, t.Lexical) :
    ∃ d : Disjunction, ts = d.tokens ++ rest ∧ d.depth < n ∧ d.predicate = p := by
  induction n generalizing ts p rest with
  | zero =>
    obtain ⟨hlt, h⟩ := h
    cases h
  | succ n ih =>
    -- only a group goes down a level, so the induction is used for primaries and nowhere else
    have hp : ∀ ts p rest, (primary (disjunction limit n)).Takes ts p rest →
        (∀ t ∈ ts, t.Lexical) →
          ∃ q : Primary, ts = q.tokens ++ rest ∧ q.depth ≤ n ∧ q.predicate = p := by
      intro ts p rest h hl
      obtain ⟨mid, rfl, hi⟩ | ⟨q, ht, hd, hp⟩ := primary_takes hl h
      · obtain ⟨d, rfl, hd, hp⟩ := ih hi (List.forall_mem_cons.1 hl).2
        refine ⟨.group d, ?_, hd, hp⟩
        rw [Primary.tokens, List.cons_append, List.append_assoc]
        rfl
      · exact ⟨q, ht, by omega, hp⟩
    obtain ⟨ps, hc, rfl⟩ := disjunction_takes.1 h
    obtain ⟨d, ht, hd, rfl⟩ := disjunction_of_chain hp hc hl
    exact ⟨d, ht, Nat.lt_succ_of_le hd, rfl⟩

section Literals

def LexicalRest {α : Type} {ts : List Token}
    (r : α × { rest : List Token // rest.length < ts.length }) : Prop :=
  ∀ t ∈ r.2.1, t.Lexical

def AcceptsNumbers (e : ConditionError) : Prop :=
  ∀ literal, e ≠ .invalidNumber literal

/-- On number literals no number is refused. -/
def Step.Total {α : Type} (s : Step α) : Prop :=
  ∀ ts, (∀ t ∈ ts, t.Lexical) → Meets (s ts) LexicalRest AcceptsNumbers

theorem unexpected_meets {α : Type} {P : α → Prop} (expected : Expected) (ts : List Token) :
    Meets (unexpected expected ts) P AcceptsNumbers :=
  meets_error fun _ h => by cases h

theorem total_operand : operand.Total := by
  intro ts hl
  rw [operand.eq_def]
  split
  · exact meets_ok (List.forall_mem_cons.1 hl).2
  · exact meets_ok (List.forall_mem_cons.1 hl).2
  · rename_i literal ts
    obtain ⟨n, rfl⟩ := hl _ List.mem_cons_self literal rfl
    rw [String.toList_ofList, n.read?_toChars]
    exact meets_ok (List.forall_mem_cons.1 hl).2
  · exact unexpected_meets _ _

theorem total_comparison : comparison.Total := by
  intro ts hl
  rw [comparison.eq_def]
  split
  · split
    · exact meets_ok (List.forall_mem_cons.1 hl).2
    · exact unexpected_meets _ _
  · exact unexpected_meets _ _

theorem total_compared : compared.Total := by
  intro ts hl
  refine meets_bind (total_operand ts hl) fun ⟨left, ts₁, h₁⟩ hl₁ => ?_
  refine meets_bind (total_comparison ts₁ hl₁) fun ⟨op, ts₂, h₂⟩ hl₂ => ?_
  exact meets_bind (total_operand ts₂ hl₂) fun ⟨right, ts₃, h₃⟩ hl₃ => meets_ok hl₃

theorem total_closing : closing.Total := by
  intro ts hl
  rw [closing.eq_def]
  split
  · exact meets_ok (List.forall_mem_cons.1 hl).2
  · exact unexpected_meets _ _

theorem total_primary {inner : Step Predicate} (hi : inner.Total) : (primary inner).Total := by
  intro ts hl
  rw [primary.eq_def]
  split
  · rename_i ts
    refine meets_bind (hi ts (List.forall_mem_cons.1 hl).2) fun ⟨p, ts₁, h₁⟩ hl₁ => ?_
    exact meets_bind (total_closing ts₁ hl₁) fun ⟨u, ts₂, h₂⟩ hl₂ => meets_ok hl₂
  · exact meets_ok (List.forall_mem_cons.1 hl).2
  · exact meets_ok (List.forall_mem_cons.1 hl).2
  · exact total_compared _ hl

theorem total_chain {link : Token} {item : Step Predicate} (hi : item.Total) :
    (chain link item).Total := by
  intro ts hl
  have h := hi ts hl
  fun_induction chain link item ts with
  | case1 ts e he =>
    rw [he] at h
    exact meets_error (h.2 e rfl)
  | case2 ts p hlt he => exact meets_ok fun t ht => by cases ht
  | case3 ts p mid e hc hlt he _ ih =>
    rw [he] at h
    have hm : ∀ t ∈ mid, t.Lexical := (List.forall_mem_cons.1 (h.1 _ rfl)).2
    have hr := ih hm (hi mid hm)
    rw [hc] at hr
    exact meets_error (hr.2 e rfl)
  | case4 ts p mid ps' rest' hlt' hc hlt he _ ih =>
    rw [he] at h
    have hm : ∀ t ∈ mid, t.Lexical := (List.forall_mem_cons.1 (h.1 _ rfl)).2
    have hr := ih hm (hi mid hm)
    rw [hc] at hr
    exact meets_ok (hr.1 _ rfl)
  | case5 ts p t mid hlt he ht =>
    rw [he] at h
    exact meets_ok (h.1 _ rfl)

theorem total_disjunction (limit n : Nat) : (disjunction limit n).Total := by
  induction n with
  | zero =>
    intro ts hl
    exact meets_error fun _ h => by cases h
  | succ n ih =>
    have hc : (conjunction (disjunction limit n)).Total := by
      intro ts hl
      exact meets_bind (total_chain (total_primary ih) ts hl) fun r hr => meets_ok hr
    intro ts hl
    exact meets_bind (total_chain hc ts hl) fun r hr => meets_ok hr

end Literals

variable {limit : Nat} {ts : List Token}

theorem parseTokens_eq_ok_iff (hl : ∀ t ∈ ts, t.Lexical) (p : Predicate) :
    parseTokens limit ts = .ok p ↔
      ∃ d : Disjunction, d.tokens = ts ∧ d.depth < limit ∧ d.predicate = p := by
  constructor
  · intro h
    rw [parseTokens] at h
    split at h
    · cases h
    · obtain ⟨⟨q, rest, hlt⟩, hd, h⟩ := bind_ok h
      dsimp only at h
      split at h
      · rename_i hr
        cases h
        rw [List.isEmpty_iff] at hr
        subst hr
        obtain ⟨d, ht, hd, hp⟩ := derives_of_takes limit limit ⟨hlt, hd⟩ hl
        exact ⟨d, by rw [ht, List.append_nil], hd, hp⟩
      · cases h
  · rintro ⟨d, rfl, hd, rfl⟩
    obtain ⟨n, rfl⟩ := Nat.exists_eq_succ_of_ne_zero (Nat.ne_zero_of_lt hd)
    have hc := d.takes_terms (n + 1) n [] (Nat.le_of_lt_succ hd) (by simp) (by simp)
    have ht := disjunction_takes.2 ⟨_, hc, rfl⟩
    rw [List.append_nil] at ht
    obtain ⟨hlt, h⟩ := ht
    have hne : d.tokens.isEmpty = false := by
      rw [List.isEmpty_eq_false_iff]
      exact List.ne_nil_of_length_pos hlt
    rw [parseTokens, hne, if_neg Bool.false_ne_true]
    simp only [bind, Except.bind]
    rw [h]
    rfl

theorem parseTokens_ne_invalidNumber (hl : ∀ t ∈ ts, t.Lexical) (literal : String) :
    parseTokens limit ts ≠ .error (.invalidNumber literal) := by
  have h : Meets (parseTokens limit ts) (fun _ => True) AcceptsNumbers := by
    rw [parseTokens]
    split
    · exact meets_error fun _ h => by cases h
    · refine meets_bind (total_disjunction limit limit ts hl) fun ⟨p, rest, hlt⟩ _ => ?_
      dsimp only
      split
      · exact meets_ok trivial
      · exact unexpected_meets _ _
  exact fun he => h.2 _ he literal rfl

theorem parsePredicate_eq_ok_iff (limit : Nat) (cs : List Char) (p : Predicate) :
    parsePredicate limit cs = .ok p ↔
      ∃ d : Disjunction, lex cs = (d.tokens, none) ∧ d.depth < limit ∧ d.predicate = p := by
  have hl := lexical_lex cs
  rw [parsePredicate, tokenize]
  cases hx : lex cs with
  | mk ts fault =>
    rw [hx] at hl
    cases fault with
    | some f =>
      constructor
      · intro h
        cases h
      · rintro ⟨d, h, -⟩
        cases h
    | none =>
      change parseTokens limit ts = .ok p ↔ _
      rw [parseTokens_eq_ok_iff hl]
      constructor
      · rintro ⟨d, rfl, hd⟩
        exact ⟨d, rfl, hd⟩
      · rintro ⟨d, h, hd⟩
        cases h
        exact ⟨d, rfl, hd⟩

theorem parsePredicate_of_parse {limit : Nat} {cs : List Char} {c : Condition}
    (h : parse limit cs = .ok c) : parsePredicate limit (Text.trim cs) = .ok c.predicate := by
  obtain ⟨p, hp, h⟩ := bind_ok h
  cases h
  exact hp

theorem parsePredicate_ne_invalidNumber (limit : Nat) (cs : List Char) (literal : String) :
    parsePredicate limit cs ≠ .error (.invalidNumber literal) := by
  have hl := lexical_lex cs
  rw [parsePredicate, tokenize]
  cases hx : lex cs with
  | mk ts fault =>
    rw [hx] at hl
    cases fault with
    | some f =>
      obtain ⟨f, position⟩ := f
      intro h
      cases f <;> cases h
    | none => exact parseTokens_ne_invalidNumber hl literal

/-- Tokens are a condition just if they are the tokens of a tree, which is then the only one, and
its predicate is the result. Every text has such tokens, so its numbers are never at fault. -/
theorem accepts_iff_derives (limit : Nat) (ts : List Token) (hl : ∀ t ∈ ts, t.Lexical)
    (cs : List Char) :
    (∀ p, parseTokens limit ts = .ok p ↔
      ∃ d : Disjunction, d.tokens = ts ∧ d.depth < limit ∧ d.predicate = p) ∧
    (∀ d d' : Disjunction, d.tokens = d'.tokens → d = d') ∧
    (∀ t ∈ (lex cs).1, t.Lexical) ∧
    (∀ p, parsePredicate limit cs = .ok p ↔
      ∃ d : Disjunction, lex cs = (d.tokens, none) ∧ d.depth < limit ∧ d.predicate = p) ∧
    ∀ literal, parseTokens limit ts ≠ .error (.invalidNumber literal) ∧
      parsePredicate limit cs ≠ .error (.invalidNumber literal) := by
  refine ⟨parseTokens_eq_ok_iff hl, fun d d' h => ?_, lexical_lex cs,
    parsePredicate_eq_ok_iff limit cs, fun literal => ?_⟩
  · exact (d.tokens_inj d' [] [] (congrArg (· ++ []) h) (by simp) (by simp) (by simp) (by simp)).1
  · exact ⟨parseTokens_ne_invalidNumber hl literal,
      parsePredicate_ne_invalidNumber limit cs literal⟩

theorem accepts_grouped :
    (∀ t ∈ ([.leftParen, .identifier "a", .equal, .number "-1.50", .or, .true, .rightParen, .and,
      .identifier "b", .less, .text "x"] : List Token), t.Lexical) ∧
    parseTokens 2 [.leftParen, .identifier "a", .equal, .number "-1.50", .or, .true, .rightParen,
      .and, .identifier "b", .less, .text "x"] =
        .ok (.conj [.disj [.compare .eq (.attr "a")
          (.literal (.number (.real true (Decimal.toMagnitude ⟨150, -2⟩)))), .const true],
          .compare .lt (.attr "b") (.literal (.text "x"))]) := by
  let n : Number.Literal := ⟨true, ['1'], ['5', '0'], by decide, List.all_eq_true.1 (by decide)⟩
  let a : Primary := .compare (.identifier "a") .eq (.number n)
  let d : Disjunction := .single (.and (.group (.or (.single a) (.single (.single (.const true)))))
    (.single (.compare (.identifier "b") .lt (.text "x"))))
  have hl : ∀ t ∈ ([.leftParen, .identifier "a", .equal, .number "-1.50", .or, .true, .rightParen,
      .and, .identifier "b", .less, .text "x"] : List Token), t.Lexical := by
    intro t ht literal h
    subst h
    have hs : literal = "-1.50" := by simpa using ht
    exact ⟨n, hs⟩
  exact ⟨hl, ((accepts_iff_derives 2 _ hl []).1 _).2 ⟨d, rfl, by decide, rfl⟩⟩

end RelAlg.Condition
