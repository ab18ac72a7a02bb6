import RelAlg.Proofs.Predicate.Selection
import RelAlg.Proofs.Value.Order

set_option autoImplicit false

namespace RelAlg

namespace Comparison

/-- What holds just if the comparison does not. -/
def complement : Comparison → Comparison
  | eq => ne
  | ne => eq
  | lt => ge
  | ge => lt
  | gt => le
  | le => gt

def mirror : Comparison → Comparison
  | eq => eq
  | ne => ne
  | lt => gt
  | gt => lt
  | le => ge
  | ge => le

theorem holds_complement (op : Comparison) (o : Ordering) :
    op.complement.holds o = !op.holds o := by
  cases op <;> cases o <;> rfl

theorem holds_mirror (op : Comparison) (o : Ordering) : op.mirror.holds o.swap = op.holds o := by
  cases op <;> cases o <;> rfl

end Comparison

namespace Predicate

variable {get : String → Option Value}

theorem truth_complement (op : Comparison) (l r : Operand) :
    (compare op.complement l r).truth get = !(compare op l r).truth get := by
  rw [truth, truth, Comparison.holds_complement]

theorem truth_mirror (op : Comparison) (l r : Operand) :
    (compare op.mirror r l).truth get = (compare op l r).truth get := by
  rw [truth, truth, ← Value.compare_swap, Comparison.holds_mirror]

end Predicate

namespace Relation

open Predicate

variable {r x : Relation} {op : Comparison} {left right : Operand} {text : String}

theorem select_complement (h : r.select ⟨text, compare op left right⟩ = .ok x) (text' : String) :
    r.select ⟨text', compare op.complement left right⟩ =
      .ok (r.filter fun t => !(compare op left right).truth t.get?) := by
  have hn : ∀ t ∈ r, ∀ n ∈ (compare op.complement left right).names, n ∈ t.names :=
    (select_eq_ok_iff.1 h).1
  rw [select_of_carried hn]
  simp only [truth_complement]

theorem select_mirror (h : r.select ⟨text, compare op left right⟩ = .ok x) (text' : String) :
    r.select ⟨text', compare op.mirror right left⟩ = .ok x := by
  obtain ⟨hn, rfl⟩ := select_eq_ok_iff.1 h
  refine select_eq_ok_iff.2 ⟨fun t ht n hm => hn t ht n ?_, ?_⟩
  · rw [names, List.mem_append] at hm ⊢
    exact hm.symm
  · simp only [truth_mirror]

/-- The order of values is reversed the other way round, level on equal values, and a total preorder
on the values that read as numbers, no-number aside, and on those that do not. Where selecting by a
comparison succeeds, so does selecting by its complement, and each tuple is kept by just one of the
two; and exchanging the operands under the mirrored comparison selects the same. -/
theorem comparisons_coherent (a b : Value) (r x : Relation) (op : Comparison)
    (left right : Operand) (text text' : String) :
    b.compare a = (a.compare b).swap ∧ (a.same b = true → a.compare b = .eq) ∧
    Value.PreorderOn Value.Numeric ∧ Value.PreorderOn Value.Textual ∧
    (r.select ⟨text, compare op left right⟩ = .ok x →
      (∃ keep : Tuple → Bool, x = r.filter keep ∧
        r.select ⟨text', compare op.complement left right⟩ = .ok (r.filter fun t => !keep t)) ∧
      r.select ⟨text', compare op.mirror right left⟩ = .ok x) := by
  refine ⟨(Value.compare_swap a b).symm, Value.compare_of_same, Value.preorderOn_numeric,
    Value.preorderOn_textual, fun h => ⟨⟨_, (select_eq_ok_iff.1 h).2, ?_⟩, select_mirror h text'⟩⟩
  exact select_complement h text'

/-- No-number is level with a number, a text with the number it spells, and a text that spells none
stands between texts. -/
theorem comparisons_coherent_kinds :
    let r : Relation := [.ofPairs [("a", .number .nan), ("b", .number (.ofNat 1))],
      .ofPairs [("b", .number (.ofNat 7)), ("a", .text " 07 ")],
      .ofPairs [("a", .text "1a"), ("b", .number (.ofNat 10))]]
    let x : Relation := r.take 2
    (Value.number .zero).same (.number (.negate .zero)) = true ∧
    (Value.number .zero).compare (.number (.negate .zero)) = .eq ∧
    r.select ⟨"a <= b", compare .le (.attr "a") (.attr "b")⟩ = .ok x ∧
    (∃ keep : Tuple → Bool, x = r.filter keep ∧
      r.select ⟨"a > b", compare .gt (.attr "a") (.attr "b")⟩ = .ok (r.filter fun t => !keep t)) ∧
    r.select ⟨"b >= a", compare .ge (.attr "b") (.attr "a")⟩ = .ok x := by
  intro r x
  have hz : (Value.number .zero).same (.number (.negate .zero)) = true := by decide
  have hx : r.select ⟨"a <= b", compare .le (.attr "a") (.attr "b")⟩ = .ok x :=
    select_eq_ok_iff.2 ⟨by decide, by decide +kernel⟩
  have hle := comparisons_coherent (.number .zero) (.number (.negate .zero)) r x .le (.attr "a")
    (.attr "b") "a <= b"
  exact ⟨hz, (hle "").2.1 hz, hx, ((hle "a > b").2.2.2.2 hx).1, ((hle "b >= a").2.2.2.2 hx).2⟩

end Relation

end RelAlg
