import RelAlg.Proofs.Predicate.Truth
import RelAlg.Proofs.Tuple.Content
import RelAlg.Proofs.Value.Order

set_option autoImplicit false

namespace RelAlg

namespace Value

/-- A text that is no number and lies between the texts of the two zeros. -/
def BetweenZeros (c : Value) : Prop :=
  c.asNumber? = none ∧ "-0" < c.toText ∧ c.toText < "0"

instance (c : Value) : Decidable c.BetweenZeros :=
  inferInstanceAs (Decidable (_ ∧ _ ∧ _))

variable {a b c : Value}

theorem toText_signedZero (s : Bool) : (signedZero s).toText = if s then "-0" else "0" := by
  cases s <;> rfl

theorem BetweenZeros.ne_signedZero (h : c.BetweenZeros) (s : Bool) : c ≠ signedZero s := by
  rintro rfl
  cases h.1

theorem toText_ne_signedZero (hc : c.asNumber? = none) (s : Bool) :
    (signedZero s).toText ≠ c.toText := by
  intro he
  match c, hc with
  | text t, hc =>
    have ht : t = (signedZero s).toText := he.symm
    rw [ht] at hc
    cases s <;> revert hc <;> decide +kernel

/-- Beside a number the two zeros are one. Beside a text they are two texts, and only what lies
between these is on different sides of them. -/
theorem compare_zeros_iff (c : Value) :
    (signedZero false).compare c = (signedZero true).compare c ↔ ¬c.BetweenZeros := by
  cases hc : c.asNumber? with
  | some n =>
    refine iff_of_true ?_ fun h => by rw [h.1] at hc; cases hc
    rw [compare, compare, hc]
    rfl
  | none =>
    have hp := toText_ne_signedZero hc false
    have hn := toText_ne_signedZero hc true
    rw [toText_signedZero, if_neg Bool.false_ne_true] at hp
    rw [toText_signedZero, if_pos rfl] at hn
    have hlt : "-0" < "0" := by decide
    rw [compare_of_none hc, compare_of_none hc, toText_signedZero, toText_signedZero,
      if_neg Bool.false_ne_true, if_pos rfl, compareOfLessAndEq, compareOfLessAndEq, if_neg hp,
      if_neg hn, BetweenZeros]
    by_cases hlow : "-0" < c.toText
    · rw [if_pos hlow]
      rcases lt_or_gt_of_ne hp with h | h
      · rw [if_pos h]
        exact iff_of_true rfl fun hb => lt_asymm h hb.2.2
      · rw [if_neg (lt_asymm h)]
        exact iff_of_false (by decide) fun hb => hb ⟨hc, hlow, h⟩
    · rw [if_neg hlow, if_neg fun h => hlow (hlt.trans h)]
      exact iff_of_true rfl fun hb => hlow hb.2.1

theorem compare_iff_of_same (h : a.same b = true) (c : Value) :
    a.compare c = b.compare c ↔ a = b ∨ ¬c.BetweenZeros := by
  rcases eq_or_zeros_of_same h with rfl | ⟨s, rfl, rfl⟩
  · exact iff_of_true rfl (.inl rfl)
  · have hne : signedZero s ≠ signedZero !s := by cases s <;> decide
    rw [or_iff_right hne, ← compare_zeros_iff]
    cases s
    · rfl
    · exact eq_comm

theorem compare_right_iff_of_same (h : a.same b = true) (c : Value) :
    c.compare a = c.compare b ↔ a = b ∨ ¬c.BetweenZeros := by
  rw [← compare_iff_of_same h, ← compare_swap a c, ← compare_swap b c, Ordering.swap_inj]

theorem not_betweenZeros_of_ne (h : a.same b = true) (hne : a ≠ b) :
    ¬a.BetweenZeros ∧ ¬b.BetweenZeros := by
  rcases eq_or_zeros_of_same h with he | ⟨s, rfl, rfl⟩
  · exact absurd he hne
  · exact ⟨fun hb => hb.ne_signedZero s rfl, fun hb => hb.ne_signedZero (!s) rfl⟩

/-- A comparison with equal operands in the places of its own has the same outcome, unless it sets
a zero beside a text between the zeros and the other zero is put in. -/
theorem compare_congr_iff {a' b' : Value} (ha : a.same a' = true) (hb : b.same b' = true) :
    a.compare b = a'.compare b' ↔
      ¬(a ≠ a' ∧ b.BetweenZeros) ∧ ¬(b ≠ b' ∧ a.BetweenZeros) := by
  by_cases hne : a = a'
  · subst hne
    rw [compare_right_iff_of_same hb]
    tauto
  · obtain ⟨hna, hna'⟩ := not_betweenZeros_of_ne ha hne
    rw [← (compare_right_iff_of_same hb a').2 (.inr hna'), compare_iff_of_same ha]
    tauto

end Value

namespace Tuple

variable {t u : Tuple}

/-- A comparison between a zero that has the other sign in the second tuple and a text between the
zeros. -/
def Torn (t u : Tuple) (l r : Operand) : Prop :=
  (l.valueIn t.get? ≠ l.valueIn u.get? ∧ (r.valueIn t.get?).BetweenZeros) ∨
    (r.valueIn t.get? ≠ r.valueIn u.get? ∧ (l.valueIn t.get?).BetweenZeros)

instance (t u : Tuple) (l r : Operand) : Decidable (t.Torn u l r) :=
  inferInstanceAs (Decidable (_ ∨ _))

theorem same_valueIn (h : t.same u = true) (o : Operand) :
    (o.valueIn t.get?).same (o.valueIn u.get?) = true := by
  match o with
  | .literal v => exact Value.same_refl v
  | .attr n =>
    have hn := row_eq_iff.1 (same_iff_row.1 h) n
    rw [Operand.valueIn, Operand.valueIn, Value.same_iff]
    cases ht : t.get? n with
    | none =>
      rw [ht] at hn
      rw [Option.map_eq_none_iff.1 hn.symm]
    | some v =>
      rw [ht] at hn
      obtain ⟨w, hw, hc⟩ := Option.map_eq_some_iff.1 hn.symm
      rw [hw]
      exact hc.symm

theorem missing?_of_same (h : t.same u = true) (names : List String) :
    t.missing? names = u.missing? names := by
  refine congrArg (names.find? ·) (funext fun n => congrArg not ?_)
  rw [Bool.eq_iff_iff, contains_iff, contains_iff]
  exact mem_names_of_key (same_iff_key.1 h) n

end Tuple

namespace Predicate

mutual

def comparisons : Predicate → List (Operand × Operand)
  | const _ => []
  | compare _ left right => [(left, right)]
  | conj ps => allComparisons ps
  | disj ps => allComparisons ps

def allComparisons : List Predicate → List (Operand × Operand)
  | [] => []
  | p :: ps => p.comparisons ++ allComparisons ps

end

variable {t u : Tuple}

mutual

theorem truth_of_same (h : t.same u = true) : (p : Predicate) →
    (∀ c ∈ p.comparisons, ¬t.Torn u c.1 c.2) → p.truth t.get? = p.truth u.get?
  | const b, _ => by rw [truth, truth]
  | compare op l r, hc => by
    have hn : ¬t.Torn u l r := hc (l, r) (by rw [comparisons]; exact List.mem_singleton_self _)
    rw [truth, truth]
    refine congrArg op.holds ?_
    rw [Value.compare_congr_iff (Tuple.same_valueIn h l) (Tuple.same_valueIn h r)]
    exact not_or.1 hn
  | conj ps, hc => by
    rw [comparisons] at hc
    rw [truth, truth, truths_of_same h ps hc]
  | disj ps, hc => by
    rw [comparisons] at hc
    rw [truth, truth, truths_of_same h ps hc]

theorem truths_of_same (h : t.same u = true) : (ps : List Predicate) →
    (∀ c ∈ allComparisons ps, ¬t.Torn u c.1 c.2) → truths t.get? ps = truths u.get? ps
  | [], _ => by rw [truths, truths]
  | p :: ps, hc => by
    rw [allComparisons] at hc
    rw [truths, truths, truth_of_same h p fun c hm => hc c (List.mem_append_left _ hm),
      truths_of_same h ps fun c hm => hc c (List.mem_append_right _ hm)]

end

/-- Equal tuples fail on the same conditions with the same error, and a condition is as true of one
as of the other unless some comparison of it tells the two zeros apart. -/
theorem eval_of_same (h : t.same u = true) (p : Predicate) :
    (∀ e, p.eval t = .error e ↔ p.eval u = .error e) ∧
      ((∀ c ∈ p.comparisons, ¬t.Torn u c.1 c.2) → p.eval t = p.eval u) ∧
      ∀ a b c : Value, a.same b = true →
        (a.compare c = b.compare c ∧ c.compare a = c.compare b ↔ a = b ∨ ¬c.BetweenZeros) := by
  refine ⟨fun e => ?_, fun hc => ?_, fun a b c hab => ?_⟩
  · rw [eval_eq, eval_eq, Tuple.orMissing, Tuple.orMissing, Tuple.missing?_of_same h]
    cases u.missing? p.names with
    | none => exact iff_of_false (fun he => by cases he) fun he => by cases he
    | some n => rfl
  · rw [eval_eq, eval_eq, truth_of_same h p hc, Tuple.orMissing, Tuple.orMissing,
      Tuple.missing?_of_same h]
  · rw [Value.compare_iff_of_same hab, Value.compare_right_iff_of_same hab, and_self]

theorem eval_of_same_zeros :
    (Tuple.ofPairs [("a", .number .zero), ("b", .text "+x")]).same
        (.ofPairs [("b", .text "+x"), ("a", .number (.negate .zero))]) = true ∧
      (conj [compare .lt (.attr "a") (.literal (.text "1")),
          compare .gt (.attr "a") (.attr "b")]).eval
        (.ofPairs [("a", .number .zero), ("b", .text "+x")]) =
      (conj [compare .lt (.attr "a") (.literal (.text "1")),
          compare .gt (.attr "a") (.attr "b")]).eval
        (.ofPairs [("b", .text "+x"), ("a", .number (.negate .zero))]) := by
  have h : (Tuple.ofPairs [("a", .number .zero), ("b", .text "+x")]).same
      (.ofPairs [("b", .text "+x"), ("a", .number (.negate .zero))]) = true := by decide +kernel
  exact ⟨h, (eval_of_same h _).2.1 (by decide +kernel)⟩

theorem eval_signed_zeros :
    (Tuple.ofPairs [("a", .number .zero)]).same (.ofPairs [("a", .number (.negate .zero))]) = true ∧
      (compare .lt (.attr "a") (.literal (.text "-x"))).eval (.ofPairs [("a", .number .zero)]) =
        .ok false ∧
      (compare .lt (.attr "a") (.literal (.text "-x"))).eval
        (.ofPairs [("a", .number (.negate .zero))]) = .ok true := by
  decide +kernel

end Predicate

end RelAlg
