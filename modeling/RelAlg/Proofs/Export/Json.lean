import RelAlg.Export
import RelAlg.Proofs.Json.Document

set_option autoImplicit false

namespace RelAlg

namespace Relation

variable {r : Relation}

theorem same_canonical (r : Relation) : r.same (r.map Tuple.canonical) = true := by
  rw [same, List.length_map, beq_self_eq_true, Bool.true_and, ← List.map_prod_left_eq_zip,
    List.all_map, List.all_eq_true]
  exact fun t _ => t.same_canonical

theorem names_canonical (r : Relation) :
    (r.map Tuple.canonical).map Tuple.names = r.map Tuple.names := by
  rw [List.map_map]
  exact List.map_congr_left fun t _ => t.names_canonical

def values (r : Relation) : List Value :=
  r.flatMap fun t => t.attributes.map Prod.snd

theorem mem_values {v : Value} : v ∈ r.values ↔ ∃ t ∈ r, ∃ a ∈ t.attributes, a.2 = v := by
  simp only [values, List.mem_flatMap, List.mem_map]

/-- Of finite numbers only fractions and large ones may not come back. -/
theorem readsBack_of_finite (hf : ∀ n, .number n ∈ r.values → n.isFinite = true)
    (hb : ∀ n, .number n ∈ r.values → n.isFinite = true → Json.isPlain n = false →
      Json.ReadsBack n) : ∀ t ∈ r, ∀ a ∈ t.attributes, a.2.ReadsBack := by
  intro t ht a ha n hn
  have hm : .number n ∈ r.values := mem_values.2 ⟨t, ht, a, ha, hn⟩
  cases hp : Json.isPlain n with
  | true => exact Json.readsBack_of_isPlain hp
  | false => exact hb n hm (hf n hm) hp

end Relation

namespace Export

/-- A relation of finite numbers whose fractions and large numbers are among those that come back is
decoded from its export as an equal one, with the attributes in the same order, which has the same
export. -/
theorem json_decodes {r : Relation} (hf : ∀ n, .number n ∈ r.values → n.isFinite = true)
    (hb : ∀ n, .number n ∈ r.values → n.isFinite = true → Json.isPlain n = false →
      Json.ReadsBack n) :
    ∃ r', Json.read? Json.relation (json r) = some r' ∧ r.same r' = true ∧
      r'.map Tuple.names = r.map Tuple.names ∧ json r' = json r :=
  ⟨r.map Tuple.canonical, Json.read?_writeRelation (Relation.readsBack_of_finite hf hb),
    r.same_canonical, r.names_canonical, Json.writeRelation_canonical r⟩

def mixed : Relation :=
  [.empty, .ofPairs [("a", .number (.real true (.ofQuotient 1 10))), ("\"\n", .text "\\é\x01")],
    .ofPairs [("b", .number (.real true .zero)), ("a", .number (.ofNat (9 * Nat.pow 10 15)))]]

theorem json_decodes_mixed : ∃ r', Json.read? Json.relation (json mixed) = some r' ∧
    mixed.same r' = true ∧ r'.map Tuple.names = [[], ["a", "\"\n"], ["b", "a"]] ∧
    json r' = json mixed := by
  have hv : mixed.values = [.number (.real true (.ofQuotient 1 10)), .text "\\é\x01",
      .number (.real true .zero), .number (.ofNat (9 * Nat.pow 10 15))] := by
    decide +kernel
  have hn : ∀ n, .number n ∈ mixed.values → n.isFinite = true ∧ Json.ReadsBack n := by
    intro n hn
    rw [hv] at hn
    simp only [List.mem_cons, Value.number.injEq, List.not_mem_nil, reduceCtorEq, or_false,
      false_or] at hn
    rcases hn with rfl | rfl | rfl <;> decide +kernel
  obtain ⟨r', hr, hs, hm, hj⟩ := json_decodes (fun n h => (hn n h).1) fun n h _ _ => (hn n h).2
  exact ⟨r', hr, hs, hm.trans (by decide +kernel), hj⟩

end Export

end RelAlg
