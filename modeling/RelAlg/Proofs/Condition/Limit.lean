import Mathlib.Logic.Function.Iterate
import RelAlg.Proofs.Condition.RoundTrip

set_option autoImplicit false

namespace RelAlg

/-- A recursion with `body` for one call gives `b` at `a` within `n` calls inside each other:
whatever stands in for the calls below them, it is not asked. -/
def Settles {α β : Type} (body : (α → β) → α → β) (n : Nat) (a : α) (b : β) : Prop :=
  ∀ below : α → β, body^[n] below a = b

theorem Settles.mono {α β : Type} {body : (α → β) → α → β} {n m : Nat} {a : α} {b : β}
    (h : Settles body n a b) (hm : n ≤ m) : Settles body m a b := by
  obtain ⟨k, rfl⟩ := Nat.exists_eq_add_of_le hm
  intro below
  rw [Function.iterate_add_apply]
  exact h _

/-- A value that a call makes of the values of smaller things takes no more calls than the size. -/
theorem settles_of_size {α β : Type} {body : (α → β) → α → β} {value : α → β} {size : α → Nat}
    (hpos : ∀ a, 0 < size a)
    (h : ∀ rec a, (∀ b, size b < size a → rec b = value b) → body rec a = value a) (a : α) :
    Settles body (size a) a (value a) := by
  suffices hn : ∀ n a, size a ≤ n → Settles body n a (value a) from hn _ a (Nat.le_refl _)
  intro n
  induction n with
  | zero => exact fun a ha => absurd (hpos a) (Nat.not_lt.2 ha)
  | succ n ih =>
    intro a ha below
    rw [Function.iterate_succ_apply']
    exact h _ a fun b hb => ih b (Nat.le_of_lt_succ (Nat.lt_of_lt_of_le hb ha)) below

namespace Predicate

variable {p : Predicate} {ps : List Predicate}

theorem height_le_of_mem (h : p ∈ ps) : p.height ≤ maxHeight ps := by
  induction ps with
  | nil => cases h
  | cons q ps ih =>
    rcases List.mem_cons.1 h with rfl | h
    · exact Nat.le_max_left _ _
    · exact (ih h).trans (Nat.le_max_right _ _)

/-- One call of the evaluation, with `rec` for the calls that it makes. -/
def evalBody (t : Tuple) (rec : Predicate → Except ConditionError Bool) :
    Predicate → Except ConditionError Bool
  | const b => .ok b
  | compare op left right => do
    let a ← left.eval t
    let b ← right.eval t
    return op.holds (a.compare b)
  | conj ps => do return (← ps.mapM rec).all id
  | disj ps => do return (← ps.mapM rec).any id

def charsBody (rec : Predicate → List Char) : Predicate → List Char
  | const b => if b then ['t', 'r', 'u', 'e'] else ['f', 'a', 'l', 's', 'e']
  | compare op left right => left.toChars ++ ' ' :: op.symbol.toList ++ ' ' :: right.toChars
  | conj ps => '(' :: List.intercalate [' ', 'A', 'N', 'D', ' '] (ps.map rec) ++ [')']
  | disj ps => '(' :: List.intercalate [' ', 'O', 'R', ' '] (ps.map rec) ++ [')']

theorem mapM_eq_evalAll {t : Tuple} {rec : Predicate → Except ConditionError Bool}
    (h : ∀ p ∈ ps, rec p = p.eval t) : ps.mapM rec = evalAll t ps := by
  induction ps with
  | nil => rfl
  | cons p ps ih =>
    rw [List.forall_mem_cons] at h
    rw [List.mapM_cons, h.1, ih h.2, evalAll]

theorem intercalate_eq_joinedChars {rec : Predicate → List Char} (link : List Char)
    (h : ∀ p ∈ ps, rec p = p.toChars) :
    List.intercalate link (ps.map rec) = joinedChars link ps := by
  induction ps with
  | nil => rfl
  | cons p ps ih =>
    rw [List.forall_mem_cons] at h
    cases ps with
    | nil => rw [List.map_singleton, List.intercalate_singleton, h.1, joinedChars]
    | cons q ps =>
      rw [List.map_cons, List.map_cons, List.intercalate_cons_cons, ← List.map_cons, ih h.2, h.1,
        joinedChars]

/-- A call for every list on the way and one more for what stands at its end. -/
theorem settles_eval (t : Tuple) (p : Predicate) :
    Settles (evalBody t) (p.height + 1) p (p.eval t) := by
  refine settles_of_size (fun p : Predicate => Nat.succ_pos p.height) ?_ p
  intro rec p h
  have hterms : ∀ ps, maxHeight ps + 1 ≤ p.height → ps.mapM rec = evalAll t ps := fun ps hp =>
    mapM_eq_evalAll fun q hq => h q (by
      have hle := height_le_of_mem hq
      omega)
  cases p with
  | const b => rfl
  | compare op left right => rfl
  | conj ps => rw [evalBody, eval, hterms ps (Nat.le_refl _)]
  | disj ps => rw [evalBody, eval, hterms ps (Nat.le_refl _)]

theorem settles_toChars (p : Predicate) : Settles charsBody (p.height + 1) p p.toChars := by
  refine settles_of_size (fun p : Predicate => Nat.succ_pos p.height) ?_ p
  intro rec p h
  have hterms : ∀ link ps, maxHeight ps + 1 ≤ p.height →
      List.intercalate link (ps.map rec) = joinedChars link ps := fun link ps hp =>
    intercalate_eq_joinedChars link fun q hq => h q (by
      have hle := height_le_of_mem hq
      omega)
  cases p with
  | const b => rfl
  | compare op left right => rfl
  | conj ps => rw [charsBody, toChars, hterms _ ps (Nat.le_refl _)]
  | disj ps => rw [charsBody, toChars, hterms _ ps (Nat.le_refl _)]

theorem height_allOf (ps : List Predicate) : (allOf ps).height ≤ maxHeight ps + 1 := by
  match ps with
  | [] => exact Nat.le_refl _
  | [p] =>
    change p.height ≤ max p.height 0 + 1
    omega
  | _ :: _ :: _ => exact Nat.le_refl _

theorem height_anyOf (ps : List Predicate) : (anyOf ps).height ≤ maxHeight ps + 1 := by
  match ps with
  | [] => exact Nat.le_refl _
  | [p] =>
    change p.height ≤ max p.height 0 + 1
    omega
  | _ :: _ :: _ => exact Nat.le_refl _

end Predicate

namespace Condition

-- Links put terms side by side, so only groups add to the height, and each has a list of
-- alternatives with lists of conjuncts inside.
mutual

theorem Disjunction.maxHeight_terms : ∀ d : Disjunction,
    Predicate.maxHeight d.terms ≤ 2 * d.depth + 1
  | .single c => by
    have hc := c.maxHeight_terms
    have ha := Predicate.height_allOf c.terms
    rw [Disjunction.terms, Predicate.maxHeight, Predicate.maxHeight, Disjunction.depth]
    omega
  | .or c d => by
    have hc := c.maxHeight_terms
    have ha := Predicate.height_allOf c.terms
    have hd := d.maxHeight_terms
    rw [Disjunction.terms, Predicate.maxHeight, Disjunction.depth]
    omega

theorem Conjunction.maxHeight_terms : ∀ c : Conjunction,
    Predicate.maxHeight c.terms ≤ 2 * c.depth
  | .single p => by
    have hp := p.height_predicate
    rw [Conjunction.terms, Predicate.maxHeight, Predicate.maxHeight, Conjunction.depth]
    omega
  | .and p c => by
    have hp := p.height_predicate
    have hc := c.maxHeight_terms
    rw [Conjunction.terms, Predicate.maxHeight, Conjunction.depth]
    omega

theorem Primary.height_predicate : ∀ p : Primary, p.predicate.height ≤ 2 * p.depth
  | .group d => by
    have hd := d.maxHeight_terms
    have ha := Predicate.height_anyOf d.terms
    rw [Primary.predicate, Primary.depth]
    omega
  | .compare _ _ _ => Nat.zero_le _
  | .const _ => Nat.zero_le _

end

theorem height_of_parsePredicate {limit : Nat} {cs : List Char} {p : Predicate}
    (h : parsePredicate limit cs = .ok p) : p.height ≤ 2 * limit := by
  obtain ⟨d, -, hd, rfl⟩ := (parsePredicate_eq_ok_iff limit cs p).1 h
  have ht := d.maxHeight_terms
  have ha := Predicate.height_anyOf d.terms
  rw [Disjunction.predicate]
  omega

/-- The second step does the same, where the first does not end in an error that `E` describes. -/
def Step.UpTo {α : Type} (E : ConditionError → Prop) (s s' : Step α) : Prop :=
  ∀ ts, RelAlg.UpTo E (s ts) (s' ts)

section Steps

variable {E : ConditionError → Prop} {link : Token} {item item' inner inner' : Step Predicate}

theorem upTo_chain (h : item.UpTo E item') : (chain link item).UpTo E (chain link item') := by
  intro ts
  have hi := h ts
  fun_induction chain link item ts with
  | case1 ts e he =>
    rw [he] at hi
    rcases hi.of_error with hE | hi
    · exact .error hE _
    · exact .inr (chain_error hi).symm
  | case2 ts p hlt he =>
    have hc : (chain link item').Takes ts [p] [] := chain_last ⟨hlt, hi.eq_ok he⟩ (by simp)
    exact .inr hc.2.symm
  | case3 ts p mid e hc hlt he _ ih =>
    have ht : item'.Takes ts p (link :: mid) := ⟨hlt, hi.eq_ok he⟩
    have hm := ih (h mid)
    rw [hc] at hm
    rcases hm.of_error with hE | hm
    · exact .error hE _
    · exact .inr (chain_link_error ht hm).symm
  | case4 ts p mid ps rest hm hc hlt he _ ih =>
    have ht : item'.Takes ts p (link :: mid) := ⟨hlt, hi.eq_ok he⟩
    obtain ⟨_, hc⟩ := chain_link ht ⟨hm, (ih (h mid)).eq_ok hc⟩
    exact .inr hc.symm
  | case5 ts p t mid hlt he ht =>
    have hc : (chain link item').Takes ts [p] (t :: mid) :=
      chain_last ⟨hlt, hi.eq_ok he⟩ (by simpa using ht)
    exact .inr hc.2.symm

theorem upTo_primary (h : inner.UpTo E inner') : (primary inner).UpTo E (primary inner') := by
  intro ts
  cases ts with
  | nil => exact .refl _
  | cons t ts =>
    cases t with
    | leftParen => exact (h ts).bind fun _ => .refl _
    | _ => exact .refl _

theorem upTo_conjunction (h : inner.UpTo E inner') :
    (conjunction inner).UpTo E (conjunction inner') := fun ts =>
  (upTo_chain (upTo_primary h) ts).bind fun _ => .refl _

end Steps

theorem upTo_disjunction (limit limit' levels k : Nat) :
    (disjunction limit levels).UpTo (· = .nestingTooDeep limit)
      (disjunction limit' (k + levels)) := by
  induction levels with
  | zero => exact fun ts => .inl ⟨_, rfl, rfl⟩
  | succ levels ih => exact fun ts => (upTo_chain (upTo_conjunction ih) ts).bind fun _ => .refl _

variable {limit limit' : Nat}

theorem upTo_parseTokens (h : limit ≤ limit') (ts : List Token) :
    RelAlg.UpTo (· = .nestingTooDeep limit) (parseTokens limit ts) (parseTokens limit' ts) := by
  obtain ⟨k, rfl⟩ := Nat.exists_eq_add_of_le' h
  rw [parseTokens, parseTokens]
  split
  · exact .refl _
  · exact (upTo_disjunction limit (k + limit) limit k ts).bind fun _ => .refl _

theorem upTo_parse (h : limit ≤ limit') (cs : List Char) :
    RelAlg.UpTo (· = .nestingTooDeep limit) (Condition.parse limit cs)
      (Condition.parse limit' cs) :=
  (UpTo.bind (.refl _) (upTo_parseTokens h)).bind fun _ => .refl _

end Condition

end RelAlg
