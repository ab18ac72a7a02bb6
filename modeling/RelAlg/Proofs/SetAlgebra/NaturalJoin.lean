import RelAlg.Proofs.SetAlgebra.Homogeneity
import RelAlg.Proofs.Tuple.Equality

set_option autoImplicit false

namespace RelAlg

namespace Tuple

/-- Equal values under every name that both carry. -/
def agrees (t u : Tuple) : Bool :=
  t.attributes.all fun a => (u.get? a.1).all (a.2.same ·)

variable {t u : Tuple}

theorem agrees_iff : t.agrees u = true ↔
    ∀ n v w, t.get? n = some v → u.get? n = some w → v.canonical = w.canonical := by
  rw [agrees, List.all_eq_true]
  constructor
  · intro h n v w hv hw
    have ha := h (n, v) (mem_attributes_iff.2 hv)
    rw [hw] at ha
    exact Value.same_iff.1 ha
  · rintro h ⟨n, v⟩ ha
    rw [Option.all_eq_true]
    intro w hw
    exact Value.same_iff.2 (h n v w (mem_attributes_iff.1 ha) hw)

theorem agrees_comm (t u : Tuple) : t.agrees u = u.agrees t := by
  rw [Bool.eq_iff_iff, agrees_iff, agrees_iff]
  exact ⟨fun h n v w hv hw => (h n w v hw hv).symm, fun h n v w hv hw => (h n w v hw hv).symm⟩

theorem agreesOn_eq_agrees {names : List String}
    (h : ∀ n, n ∈ names ↔ n ∈ t.names ∧ n ∈ u.names) : t.agreesOn u names = t.agrees u := by
  rw [Bool.eq_iff_iff, Relation.agreesOn_iff h, agrees_iff]
  constructor
  · intro ha n v w hv hw
    have hn : n ∈ t.row.keys ∩ u.row.keys := by
      rw [Finset.mem_inter, Finmap.mem_keys, Finmap.mem_keys, mem_row, mem_row, mem_names_iff,
        mem_names_iff, hv, hw]
      exact ⟨rfl, rfl⟩
    have he := ha n hn
    rw [lookup_row, lookup_row, hv, hw] at he
    exact Option.some_inj.1 he
  · intro ha n hn
    rw [Finset.mem_inter, Finmap.mem_keys, Finmap.mem_keys, mem_row, mem_row, mem_names_iff,
      mem_names_iff] at hn
    obtain ⟨v, hv⟩ := Option.isSome_iff_exists.1 hn.1
    obtain ⟨w, hw⟩ := Option.isSome_iff_exists.1 hn.2
    rw [lookup_row, lookup_row, hv, hw]
    exact congrArg some (ha n v w hv hw)

theorem names_merge_eq (t u : Tuple) :
    (t.merge u).names = t.names ++ u.names.filter (!t.names.contains ·) := by
  rw [names_merge, List.eraseDups_append, eraseDups_of_nodup t.nodup_names, eraseDups_of_nodup]
  · rfl
  · exact u.nodup_names.sublist List.filter_sublist

theorem get?_merge_right {n : String} (hn : n ∈ u.names) : (t.merge u).get? n = u.get? n := by
  rw [get?_merge, Option.or_of_isSome (mem_names_iff.1 hn)]

theorem get?_merge_left (h : t.agrees u = true) {n : String} (hn : n ∈ t.names) :
    ((t.merge u).get? n).map Value.canonical = (t.get? n).map Value.canonical := by
  obtain ⟨v, hv⟩ := Option.isSome_iff_exists.1 (mem_names_iff.1 hn)
  rw [get?_merge, hv]
  cases hu : u.get? n with
  | none => rfl
  | some w => exact congrArg some (agrees_iff.1 h n v w hv hu).symm

theorem project_same {m : Tuple} {names : List String} (hn : ∀ n, n ∈ t.names ↔ n ∈ names)
    (h : ∀ n ∈ t.names, (m.get? n).map Value.canonical = (t.get? n).map Value.canonical) :
    (m.project names).same t = true := by
  rw [same_iff_row, row_eq_iff]
  intro n
  rw [get?_project]
  split
  · rename_i hm
    exact h n ((hn n).2 hm)
  · rename_i hm
    rw [get?_eq_none_iff.2 fun ht => hm ((hn n).1 ht)]

/-- Merged the other way round, tuples that agree differ in the order of the names only. -/
theorem key_merge_comm (h : t.agrees u = true) : (t.merge u).key = (u.merge t).key := by
  rw [key_eq_iff_row, row_eq_iff]
  intro n
  rw [get?_merge, get?_merge]
  cases ht : t.get? n with
  | none => rw [Option.or_none, Option.none_or]
  | some v =>
    cases hu : u.get? n with
    | none => rfl
    | some w => exact congrArg some (agrees_iff.1 h n v w ht hu).symm

end Tuple

namespace Relation

variable {l r : Relation}

def pairs (l r : Relation) : Relation :=
  l.flatMap fun t => (r.filter t.agrees).map t.merge

theorem mem_pairs {m : Tuple} :
    m ∈ pairs l r ↔ ∃ t ∈ l, ∃ u ∈ r, t.agrees u = true ∧ t.merge u = m := by
  rw [pairs, List.mem_flatMap]
  simp only [List.mem_map, List.mem_filter, and_assoc]

theorem join_eq_pairs {names : List String}
    (h : ∀ t ∈ l, ∀ u ∈ r, ∀ n, n ∈ names ↔ n ∈ t.names ∧ n ∈ u.names) :
    l.join r names = .ok (pairs l r) := by
  rw [join_eq, pairs]
  refine congrArg Except.ok (List.flatMap_congr fun t ht => ?_)
  rw [Cursor.merges]
  exact congrArg (List.map t.merge) (List.filter_congr fun u hu =>
    Tuple.agreesOn_eq_agrees (h t ht u hu))

theorem length_pairs (l r : Relation) :
    (pairs l r).length = (l.product r).countP fun p => p.1.agrees p.2 := by
  rw [pairs, List.length_flatMap, List.product, List.countP_flatMap]
  refine congrArg List.sum (List.map_congr_left fun t _ => ?_)
  rw [Function.comp_apply, List.length_map, List.countP_map, ← List.countP_eq_length_filter]
  rfl

theorem length_pairs_comm (l r : Relation) : (pairs l r).length = (pairs r l).length := by
  have hp : ((l.product r).map Prod.swap).Perm (r.product l) := by
    have h := Multiset.map_swap_product (l : Multiset Tuple) (r : Multiset Tuple)
    rw [Multiset.coe_product, Multiset.coe_product, Multiset.map_coe] at h
    exact Multiset.coe_eq_coe.1 h
  rw [length_pairs, length_pairs, ← hp.countP_eq, List.countP_map]
  refine List.countP_congr fun p _ => ?_
  rw [Tuple.agrees_comm]
  rfl

theorem key_mem_pairs_comm {k : Tuple.Key} (h : k ∈ (pairs l r).map Tuple.key) :
    k ∈ (pairs r l).map Tuple.key := by
  obtain ⟨m, hm, rfl⟩ := List.mem_map.1 h
  obtain ⟨t, ht, u, hu, ha, rfl⟩ := mem_pairs.1 hm
  refine List.mem_map.2 ⟨u.merge t, mem_pairs.2 ⟨u, hu, t, ht, ?_, rfl⟩, ?_⟩
  · rw [Tuple.agrees_comm, ha]
  · exact (Tuple.key_merge_comm ha).symm

theorem sameContent_iff :
    l.sameContent r = true ↔ ∀ k, k ∈ l.map Tuple.key ↔ k ∈ r.map Tuple.key := by
  simp only [sameContent, content, Bool.and_eq_true, List.all_eq_true, List.mem_eraseDups,
    List.contains_iff_mem]
  exact ⟨fun h k => ⟨h.1 k, h.2 k⟩, fun h => ⟨fun k => (h k).1, fun k => (h k).2⟩⟩

theorem mem_commonNames {ls rs : List String} {n : String} :
    n ∈ Schema.commonNames ls rs ↔ n ∈ ls ∧ n ∈ rs := by
  rw [Schema.commonNames, List.mem_filter, List.contains_iff_mem]

/-- The check names what to join on, and the join on that is the one on all shared names. -/
theorem join_checked (hl : l.Homogeneous) (hr : r.Homogeneous) {ls rs : List String}
    (hls : l.columns? = some ls) (hrs : r.columns? = some rs) {n : String} (hn : n ∈ ls)
    (hn' : n ∈ rs) : ∃ common,
      Schema.checkBinary .join l r = .ok common ∧ l.join r common = .ok (pairs l r) := by
  refine ⟨Schema.commonNames ls rs, ?_, join_eq_pairs fun t ht u hu k => ?_⟩
  · have hne : ¬(Schema.commonNames ls rs).isEmpty = true := fun he => by
      have hm := mem_commonNames.2 ⟨hn, hn'⟩
      rw [List.isEmpty_iff.1 he] at hm
      exact List.not_mem_nil hm
    rw [Schema.checkBinary, hls, hrs]
    exact if_neg hne
  · rw [mem_commonNames, hl.mem_columns hls ht, hr.mem_columns hrs hu]

/-- Relations that share a name are joined, on whatever side each stands. The result is one merge
for each pair that agrees, in the order of the left and then of the right; it gives back the tuples
it was made of, and the other way round it has the same content and length. -/
theorem natural_join (hl : l.Homogeneous) (hr : r.Homogeneous) {ls rs : List String}
    (hls : l.columns? = some ls) (hrs : r.columns? = some rs) {n : String} (hn : n ∈ ls)
    (hn' : n ∈ rs) : ∃ common common' x y,
      Schema.checkBinary .join l r = .ok common ∧ l.join r common = .ok x ∧
      Schema.checkBinary .join r l = .ok common' ∧ r.join l common' = .ok y ∧
      x = (l.flatMap fun t => (r.filter t.agrees).map t.merge) ∧
      (∀ t ∈ l, ∀ u ∈ r, t.agrees u = true →
        (t.merge u).names = t.names ++ u.names.filter (!t.names.contains ·) ∧
        ((t.merge u).project ls).same t = true ∧ ((t.merge u).project rs).same u = true) ∧
      x.Homogeneous ∧ x.sameContent y = true ∧ x.length = y.length := by
  obtain ⟨common, hc, hx⟩ := join_checked hl hr hls hrs hn hn'
  obtain ⟨common', hc', hy⟩ := join_checked hr hl hrs hls hn' hn
  refine ⟨common, common', pairs l r, pairs r l, hc, hx, hc', hy, rfl, fun t ht u hu ha => ?_,
    ?_, ?_, length_pairs_comm l r⟩
  · refine ⟨Tuple.names_merge_eq t u, ?_, ?_⟩
    · exact Tuple.project_same (hl.mem_columns hls ht) fun k => Tuple.get?_merge_left ha
    · exact Tuple.project_same (hr.mem_columns hrs hu) fun k hk =>
        congrArg _ (Tuple.get?_merge_right hk)
  · rw [join_eq] at hx
    rw [← Except.ok.inj hx]
    exact hl.join hr common
  · exact sameContent_iff.2 fun k => ⟨key_mem_pairs_comm, key_mem_pairs_comm⟩

theorem natural_join_zeros :
    let l : Relation := [.ofPairs [("a", .number .zero), ("b", .text "x")],
      .ofPairs [("b", .text "y"), ("a", .text "0")]]
    let r : Relation := [.ofPairs [("c", .text "z"), ("a", .number (.negate .zero))],
      .ofPairs [("a", .number .zero), ("c", .text "w")]]
    l.Homogeneous ∧ r.Homogeneous ∧ l.columns? = some ["a", "b"] ∧ r.columns? = some ["c", "a"] ∧
    ∃ x y, l.join r ["a"] = .ok x ∧ r.join l ["a"] = .ok y ∧
      x = [.ofPairs [("a", .number (.negate .zero)), ("b", .text "x"), ("c", .text "z")],
        .ofPairs [("a", .number .zero), ("b", .text "x"), ("c", .text "w")]] ∧
      x.sameContent y = true ∧ x.length = y.length := by
  intro l r
  have hl : ∀ t ∈ l, ∀ u ∈ l, t.names ⊆ u.names := by decide
  have hr : ∀ t ∈ r, ∀ u ∈ r, t.names ⊆ u.names := by decide
  replace hl : l.Homogeneous := fun t ht u hu n => ⟨@hl t ht u hu n, @hl u hu t ht n⟩
  replace hr : r.Homogeneous := fun t ht u hu n => ⟨@hr t ht u hu n, @hr u hu t ht n⟩
  obtain ⟨common, common', x, y, hc, hx, hc', hy, he, -, -, hs, hn⟩ :=
    natural_join hl hr rfl rfl (n := "a") (by decide) (by decide)
  obtain rfl := Except.ok.inj hc
  obtain rfl := Except.ok.inj hc'
  refine ⟨hl, hr, rfl, rfl, x, y, hx, hy, he.trans ?_, hs, hn⟩
  decide

end Relation

end RelAlg
