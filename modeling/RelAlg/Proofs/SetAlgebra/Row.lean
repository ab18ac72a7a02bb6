import Mathlib.Data.Finmap
import Mathlib.Data.Finset.Sort
import Mathlib.Data.String.Basic
import RelAlg.Proofs.Tuple.Lookup
import RelAlg.Relation

/-!
Rows: tuples without their order, as finite maps from names to values, each value by its
representative. A relation without order and repetitions is a finite set of rows, and the keys of
its tuples are the rows of that set written out in the order of the names.
-/

set_option autoImplicit false

namespace RelAlg

abbrev Row := Finmap fun _ : String => Value

def Row.key (m : Row) : Tuple.Key :=
  m.keys.sort.filterMap fun n => (m.lookup n).map (n, ·)

def Tuple.row (t : Tuple) : Row :=
  (t.attributes.map fun a => (⟨a.1, a.2.canonical⟩ : (_ : String) × Value)).toFinmap

def Relation.rows (r : Relation) : Finset Row :=
  (r.map Tuple.row).toFinset

namespace Row

theorem mem_key {m : Row} {n : String} {v : Value} : (n, v) ∈ m.key ↔ m.lookup n = some v := by
  rw [key, List.mem_filterMap]
  constructor
  · rintro ⟨k, -, hk⟩
    obtain ⟨w, hw, he⟩ := Option.map_eq_some_iff.1 hk
    cases he
    exact hw
  · intro h
    refine ⟨n, ?_, by rw [h]; rfl⟩
    rw [Finset.mem_sort, Finmap.mem_keys]
    exact Finmap.mem_of_lookup_eq_some h

theorem key_injective : Function.Injective key := by
  intro m m' h
  refine Finmap.ext_lookup fun n => Option.ext fun v => ?_
  rw [← mem_key, h, mem_key]

theorem map_fst_key (m : Row) : m.key.map Prod.fst = m.keys.sort := by
  have h : ∀ n ∈ m.keys.sort, n ∈ m := fun n hn => by
    rwa [Finset.mem_sort, Finmap.mem_keys] at hn
  rw [key]
  generalize m.keys.sort = ns at h
  induction ns with
  | nil => rfl
  | cons n ns ih =>
    obtain ⟨v, hv⟩ := Finmap.mem_iff.1 (h n List.mem_cons_self)
    rw [List.filterMap_cons_some (by rw [hv]; rfl), List.map_cons,
      ih fun k hk => h k (List.mem_cons_of_mem n hk)]

theorem nodup_key (m : Row) : (m.key.map Prod.fst).Nodup := by
  rw [map_fst_key]
  exact Finset.sort_nodup _ _

theorem pairwise_key (m : Row) : m.key.Pairwise fun a b => a.1 ≤ b.1 := by
  rw [← List.pairwise_map (f := Prod.fst) (R := (· ≤ ·)), map_fst_key]
  exact Finset.pairwise_sort _ _

end Row

namespace Tuple

theorem lookup_row (t : Tuple) (n : String) :
    t.row.lookup n = (t.get? n).map Value.canonical := by
  rw [row, Finmap.dlookup_list_toFinmap, get?]
  induction t.attributes with
  | nil => rfl
  | cons a xs ih =>
    rw [List.map_cons, Attributes.lookup_cons]
    by_cases h : n = a.1
    · subst h
      rw [if_pos rfl, List.dlookup_cons_eq]
      rfl
    · rw [if_neg h, List.dlookup_cons_ne _ _ h, ih]

theorem mem_row {t : Tuple} {n : String} : n ∈ t.row ↔ n ∈ t.names := by
  rw [← Finmap.lookup_isSome, lookup_row, Option.isSome_map, ← mem_names_iff]

theorem mem_key {t : Tuple} {n : String} {v : Value} :
    (n, v) ∈ t.key ↔ t.row.lookup n = some v := by
  rw [key, List.mem_mergeSort, List.mem_map, lookup_row, Option.map_eq_some_iff]
  constructor
  · rintro ⟨⟨k, w⟩, hm, he⟩
    cases he
    exact ⟨w, mem_attributes_iff.1 hm, rfl⟩
  · rintro ⟨w, hw, rfl⟩
    exact ⟨(n, w), mem_attributes_iff.2 hw, rfl⟩

theorem nodup_key (t : Tuple) : (t.key.map Prod.fst).Nodup := by
  have hp : (t.key.map Prod.fst).Perm t.names := by
    refine ((List.mergeSort_perm _ _).map _).trans ?_
    rw [List.map_map]
    exact .refl _
  exact hp.nodup_iff.2 t.nodup_names

theorem pairwise_key (t : Tuple) : t.key.Pairwise fun a b => a.1 ≤ b.1 := by
  have h : t.key.Pairwise fun a b => decide (a.1 ≤ b.1) = true := by
    refine List.pairwise_mergeSort (fun a b c hab hbc => ?_) (fun a b => ?_) _
    · rw [decide_eq_true_eq] at *
      exact le_trans hab hbc
    · rw [Bool.or_eq_true, decide_eq_true_eq, decide_eq_true_eq]
      exact le_total a.1 b.1
  exact h.imp fun hab => of_decide_eq_true hab

/-- The key of a tuple lists its row. -/
theorem key_row (t : Tuple) : t.row.key = t.key := by
  have hm : ∀ a, a ∈ t.row.key ↔ a ∈ t.key := fun a => by
    rw [Row.mem_key, mem_key]
  have hp : t.row.key.Perm t.key :=
    (List.perm_ext_iff_of_nodup (t.row.nodup_key.of_map _) (t.nodup_key.of_map _)).2 hm
  refine hp.eq_of_pairwise ?_ t.row.pairwise_key t.pairwise_key
  intro a b ha hb hab hba
  have hn : a.1 = b.1 := le_antisymm hab hba
  have hv := Row.mem_key.1 ha
  rw [hn, mem_key.1 hb] at hv
  exact Prod.ext hn (Option.some.inj hv).symm

end Tuple

namespace Relation

theorem mem_rows {r : Relation} {m : Row} : m ∈ r.rows ↔ ∃ t ∈ r, t.row = m := by
  rw [rows, List.mem_toFinset, List.mem_map]

theorem mem_rows_iff_key {r : Relation} {m : Row} : m ∈ r.rows ↔ m.key ∈ r.map Tuple.key := by
  rw [mem_rows, List.mem_map]
  refine exists_congr fun t => and_congr_right fun _ => ?_
  rw [← Tuple.key_row, Row.key_injective.eq_iff]

theorem rows_eq_empty_iff {r : Relation} : r.rows = ∅ ↔ r = [] := by
  rw [rows, List.toFinset_eq_empty_iff, List.map_eq_nil_iff]

theorem content_toFinset (r : Relation) : r.content.toFinset = r.rows.image Row.key := by
  ext k
  rw [List.mem_toFinset, content, List.mem_eraseDups, Finset.mem_image, List.mem_map]
  constructor
  · rintro ⟨t, ht, rfl⟩
    exact ⟨t.row, mem_rows.2 ⟨t, ht, rfl⟩, t.key_row⟩
  · rintro ⟨m, hm, rfl⟩
    obtain ⟨t, ht, rfl⟩ := mem_rows.1 hm
    exact ⟨t, ht, t.key_row.symm⟩

end Relation

end RelAlg
