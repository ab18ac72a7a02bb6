import RelAlg.Proofs.NameMap
import RelAlg.Proofs.Predicate.Selection
import RelAlg.Proofs.SetAlgebra.Denotation

/-!
Evaluation refines the algebra of sets of rows: it fails where that has no value, and the content
of its result is the set that the expression stands for. The checks look at first tuples only, so
that all tuples of a relation carry the same names goes through every operator as an invariant.
-/

set_option autoImplicit false

namespace RelAlg

def Number.isNegativeZero : Number → Bool
  | real true m => m.rank == 0
  | _ => false

def Value.isNegativeZero : Value → Bool
  | number n => n.isNegativeZero
  | text _ => false

theorem Number.canonical_of_not_negativeZero {n : Number} (h : n.isNegativeZero = false) :
    n.canonical = n := by
  match n, h with
  | .nan, _ => rfl
  | .real true m, h =>
    have hr : m.rank ≠ 0 := by simpa [isNegativeZero] using h
    rw [canonical, if_neg hr]
  | .real false m, _ =>
    by_cases hr : m.rank = 0
    · rw [show m = Magnitude.zero from Magnitude.ext_rank hr]
      rfl
    · rw [canonical, if_neg hr]

theorem Value.canonical_of_not_negativeZero {v : Value} (h : v.isNegativeZero = false) :
    v.canonical = v := by
  cases v with
  | number n => exact congrArg number (Number.canonical_of_not_negativeZero h)
  | text s => rfl

namespace Tuple

/-- No value of the tuple is a negative zero, whose text would tell it from the zero that stands
for it. -/
def Unsigned (t : Tuple) : Prop :=
  ∀ n v, t.get? n = some v → v.isNegativeZero = false

theorem unsigned_iff {t : Tuple} :
    t.Unsigned ↔ ∀ a ∈ t.attributes, a.2.isNegativeZero = false := by
  constructor
  · exact fun h a ha => h a.1 a.2 (mem_attributes_iff.1 ha)
  · exact fun h n v hv => h (n, v) (mem_attributes_iff.2 hv)

theorem Unsigned.lookup_row {t : Tuple} (h : t.Unsigned) : (t.row.lookup ·) = t.get? := by
  funext n
  rw [Tuple.lookup_row]
  cases hv : t.get? n with
  | none => rfl
  | some v => exact congrArg some (Value.canonical_of_not_negativeZero (h n v hv))

theorem Unsigned.project {t : Tuple} (h : t.Unsigned) (names : List String) :
    (t.project names).Unsigned := by
  intro n v hv
  rw [get?_project] at hv
  split at hv
  · exact h n v hv
  · cases hv

theorem Unsigned.merge {t u : Tuple} (ht : t.Unsigned) (hu : u.Unsigned) :
    (t.merge u).Unsigned := by
  intro n v hv
  rw [get?_merge] at hv
  cases hn : u.get? n with
  | none => exact ht n v (by rwa [hn, Option.none_or] at hv)
  | some w => exact hu n v (by rwa [hn, Option.some_or, ← hn] at hv)

end Tuple

namespace Relation

/-- All tuples carry the same names, in any order. -/
def Homogeneous (r : Relation) : Prop :=
  ∀ t ∈ r, ∀ u ∈ r, ∀ n, n ∈ t.names ↔ n ∈ u.names

theorem homogeneous_of_names {r : Relation} {columns : List String}
    (h : ∀ t ∈ r, t.names = columns) : r.Homogeneous := by
  intro t ht u hu n
  rw [h t ht, h u hu]

structure Regular (r : Relation) : Prop where
  homogeneous : r.Homogeneous
  unsigned : ∀ t ∈ r, t.Unsigned

variable {l r : Relation} {t u : Tuple}

theorem Homogeneous.of_subset (h : r.Homogeneous) (hs : l ⊆ r) : l.Homogeneous :=
  fun t ht u hu => h t (hs ht) u (hs hu)

theorem Homogeneous.map_project (h : r.Homogeneous) (names : List String) :
    Homogeneous (r.map (·.project names)) := by
  intro x hx y hy n
  obtain ⟨t, ht, rfl⟩ := List.mem_map.1 hx
  obtain ⟨u, hu, rfl⟩ := List.mem_map.1 hy
  rw [Tuple.mem_names_project, Tuple.mem_names_project, h t ht u hu n]

theorem Regular.of_subset (h : r.Regular) (hs : l ⊆ r) : l.Regular :=
  ⟨h.homogeneous.of_subset hs, fun t ht => h.unsigned t (hs ht)⟩

theorem rows_cons_ne (t : Tuple) (r : Relation) : rows (t :: r) ≠ ∅ := by
  rw [Ne, rows_eq_empty_iff]
  exact List.cons_ne_nil t r

theorem columns?_cons (t : Tuple) (r : Relation) : columns? (t :: r) = some t.names := rfl

theorem rows_firsts (ts : List Tuple) : rows (firsts [] ts) = rows ts := by
  ext m
  rw [mem_rows_iff_key, key_mem_firsts, mem_rows_iff_key]
  exact and_iff_right List.not_mem_nil

theorem rows_append (l r : Relation) : rows (l ++ r) = l.rows ∪ r.rows := by
  rw [rows, List.map_append, List.toFinset_append]
  rfl

theorem rows_filter_key (l r : Relation) :
    rows (l.filter fun t => !(r.map Tuple.key).contains t.key) = l.rows \ r.rows := by
  ext m
  rw [Finset.mem_sdiff, mem_rows, mem_rows]
  constructor
  · rintro ⟨t, ht, rfl⟩
    obtain ⟨hl, hr⟩ := List.mem_filter.1 ht
    refine ⟨⟨t, hl, rfl⟩, fun hm => ?_⟩
    rw [mem_rows_iff_key, Tuple.key_row] at hm
    rw [List.contains_iff_mem.2 hm] at hr
    cases hr
  · rintro ⟨⟨t, ht, rfl⟩, hm⟩
    rw [mem_rows_iff_key, Tuple.key_row] at hm
    refine ⟨t, List.mem_filter.2 ⟨ht, ?_⟩, rfl⟩
    rw [Bool.not_eq_true', ← Bool.not_eq_true, List.contains_iff_mem]
    exact hm

theorem row_project (t : Tuple) (names : List String) :
    (t.project names).row = t.row.restrict names := by
  refine Finmap.ext_lookup fun n => ?_
  rw [Tuple.lookup_row, Tuple.get?_project, Row.lookup_restrict, Tuple.lookup_row]
  split <;> rfl

theorem rows_map_project (r : Relation) (names : List String) :
    rows (r.map (·.project names)) = r.rows.image (Row.restrict names) := by
  ext m
  rw [mem_rows, Finset.mem_image]
  constructor
  · rintro ⟨_, hp, rfl⟩
    obtain ⟨t, ht, rfl⟩ := List.mem_map.1 hp
    exact ⟨t.row, mem_rows.2 ⟨t, ht, rfl⟩, (row_project t names).symm⟩
  · rintro ⟨_, hm, rfl⟩
    obtain ⟨t, ht, rfl⟩ := mem_rows.1 hm
    exact ⟨_, List.mem_map.2 ⟨t, ht, rfl⟩, row_project t names⟩

theorem Homogeneous.mem_schema (h : r.Homogeneous) (ht : t ∈ r) {n : String} :
    n ∈ Rows.schema r.rows ↔ n ∈ t.names := by
  rw [Rows.schema, Finset.mem_biUnion]
  constructor
  · rintro ⟨m, hm, hn⟩
    obtain ⟨u, hu, rfl⟩ := mem_rows.1 hm
    rw [Finmap.mem_keys, Tuple.mem_row] at hn
    exact (h u hu t ht n).1 hn
  · intro hn
    refine ⟨t.row, mem_rows.2 ⟨t, ht, rfl⟩, ?_⟩
    rw [Finmap.mem_keys, Tuple.mem_row]
    exact hn

theorem Homogeneous.schema_eq (h : r.Homogeneous) (ht : t ∈ r) :
    Rows.schema r.rows = t.names.toFinset := by
  ext n
  rw [h.mem_schema ht, List.mem_toFinset]

theorem Homogeneous.card_schema (h : r.Homogeneous) (ht : t ∈ r) :
    (Rows.schema r.rows).card = t.names.length := by
  rw [h.schema_eq ht, List.toFinset_card_of_nodup t.nodup_names]

theorem agreesOn_iff {names : List String} (h : ∀ n, n ∈ names ↔ n ∈ t.names ∧ n ∈ u.names) :
    t.agreesOn u names = true ↔ t.row.Agree u.row := by
  rw [Tuple.agreesOn, List.all_eq_true]
  refine forall_congr' fun n => ?_
  rw [Finset.mem_inter, Finmap.mem_keys, Finmap.mem_keys, Tuple.mem_row, Tuple.mem_row, h,
    Tuple.lookup_row, Tuple.lookup_row]
  refine imp_congr_right fun ⟨ht, hu⟩ => ?_
  obtain ⟨v, hv⟩ := Option.isSome_iff_exists.1 (Tuple.mem_names_iff.1 ht)
  obtain ⟨w, hw⟩ := Option.isSome_iff_exists.1 (Tuple.mem_names_iff.1 hu)
  rw [hv, hw, Option.map_some, Option.map_some, Option.some_inj]
  exact Value.same_iff

theorem row_merge (h : t.row.Agree u.row) : (t.merge u).row = t.row ∪ u.row := by
  refine Finmap.ext_lookup fun n => ?_
  rw [Tuple.lookup_row, Tuple.get?_merge]
  by_cases ht : n ∈ t.row
  · rw [Finmap.lookup_union_left ht, Tuple.lookup_row]
    by_cases hu : n ∈ u.row
    · have ha := h n (Finset.mem_inter.2 ⟨Finmap.mem_keys.2 ht, Finmap.mem_keys.2 hu⟩)
      rw [Tuple.lookup_row, Tuple.lookup_row] at ha
      rw [Tuple.mem_row, Tuple.mem_names_iff] at hu
      rw [Option.or_of_isSome hu, ha]
    · rw [Tuple.mem_row, ← Tuple.get?_eq_none_iff] at hu
      rw [hu, Option.none_or]
  · rw [Finmap.lookup_union_right ht, Tuple.lookup_row]
    rw [Tuple.mem_row, ← Tuple.get?_eq_none_iff] at ht
    rw [ht, Option.or_none]

theorem mem_merges {names : List String} {m : Tuple} :
    m ∈ Cursor.merges names r t ↔ ∃ u ∈ r, t.agreesOn u names = true ∧ t.merge u = m := by
  rw [Cursor.merges, List.mem_map]
  simp only [List.mem_filter, and_assoc]

theorem rows_join {names : List String}
    (h : ∀ t ∈ l, ∀ u ∈ r, ∀ n, n ∈ names ↔ n ∈ t.names ∧ n ∈ u.names) :
    rows (l.flatMap (Cursor.merges names r)) = Rows.join l.rows r.rows := by
  ext m
  rw [mem_rows, Rows.join, Finset.mem_image]
  constructor
  · rintro ⟨_, hm, rfl⟩
    obtain ⟨t, ht, hm⟩ := List.mem_flatMap.1 hm
    obtain ⟨u, hu, ha, rfl⟩ := mem_merges.1 hm
    have ha' := (agreesOn_iff (h t ht u hu)).1 ha
    refine ⟨(t.row, u.row), Finset.mem_filter.2 ⟨Finset.mem_product.2 ⟨?_, ?_⟩, ha'⟩,
      (row_merge ha').symm⟩
    · exact mem_rows.2 ⟨t, ht, rfl⟩
    · exact mem_rows.2 ⟨u, hu, rfl⟩
  · rintro ⟨⟨a, b⟩, hp, rfl⟩
    obtain ⟨hp, ha⟩ := Finset.mem_filter.1 hp
    obtain ⟨hl, hr⟩ := Finset.mem_product.1 hp
    obtain ⟨t, ht, rfl⟩ := mem_rows.1 hl
    obtain ⟨u, hu, rfl⟩ := mem_rows.1 hr
    refine ⟨t.merge u, List.mem_flatMap.2 ⟨t, ht, mem_merges.2 ⟨u, hu, ?_, rfl⟩⟩, row_merge ha⟩
    exact (agreesOn_iff (h t ht u hu)).2 ha

theorem Homogeneous.join (hl : l.Homogeneous) (hr : r.Homogeneous) (names : List String) :
    Homogeneous (l.flatMap (Cursor.merges names r)) := by
  intro x hx y hy n
  obtain ⟨t, ht, hx⟩ := List.mem_flatMap.1 hx
  obtain ⟨u, hu, -, rfl⟩ := mem_merges.1 hx
  obtain ⟨t', ht', hy⟩ := List.mem_flatMap.1 hy
  obtain ⟨u', hu', -, rfl⟩ := mem_merges.1 hy
  rw [Tuple.mem_names_merge, Tuple.mem_names_merge, hl t ht t' ht' n, hr u hu u' hu' n]

theorem Regular.join (hl : l.Regular) (hr : r.Regular) (names : List String) :
    Regular (l.flatMap (Cursor.merges names r)) := by
  refine ⟨hl.homogeneous.join hr.homogeneous names, fun x hx => ?_⟩
  obtain ⟨t, ht, hx⟩ := List.mem_flatMap.1 hx
  obtain ⟨u, hu, -, rfl⟩ := mem_merges.1 hx
  exact (hl.unsigned t ht).merge (hr.unsigned u hu)

end Relation

/-- Both fail, or both succeed with the same rows, and the invariant holds of the relation. -/
def Refines (x : Except QueryError Relation) (y : Option (Finset Row)) : Prop :=
  (∃ r, x = .ok r ∧ r.Regular ∧ y = some r.rows) ∨ (∃ e, x = .error e) ∧ y = none

theorem Refines.bind {x : Except QueryError Relation} {y : Option (Finset Row)}
    {f : Relation → Except QueryError Relation} {g : Finset Row → Option (Finset Row)}
    (h : Refines x y) (hf : ∀ r, x = .ok r → r.Regular → Refines (f r) (g r.rows)) :
    Refines (x >>= f) (y.bind g) := by
  obtain ⟨r, rfl, hr, rfl⟩ | ⟨⟨e, rfl⟩, rfl⟩ := h
  · exact hf r rfl hr
  · exact .inr ⟨⟨e, rfl⟩, rfl⟩

namespace Relation

variable {l r : Relation}

theorem Regular.refines_ok (h : r.Regular) {A : Finset Row} (ha : r.rows = A) :
    Refines (.ok r) (some A) :=
  .inl ⟨r, rfl, h, by rw [ha]⟩

theorem Regular.refines_select (h : r.Regular) (c : Condition) :
    Refines (r.select c) (Rows.select c r.rows) := by
  rw [Rows.select]
  by_cases hc : ∀ m ∈ r.rows, ∀ n ∈ c.predicate.names, n ∈ m
  · have hn : ∀ t ∈ r, ∀ n ∈ c.predicate.names, n ∈ t.names := fun t ht n hn =>
      Tuple.mem_row.1 (hc t.row (mem_rows.2 ⟨t, ht, rfl⟩) n hn)
    rw [if_pos hc, select_of_carried hn]
    refine (h.of_subset List.filter_sublist.subset).refines_ok ?_
    ext m
    rw [mem_rows, Finset.mem_filter, mem_rows]
    constructor
    · rintro ⟨t, ht, rfl⟩
      obtain ⟨hr, ht⟩ := List.mem_filter.1 ht
      exact ⟨⟨t, hr, rfl⟩, by rw [(h.unsigned t hr).lookup_row]; exact ht⟩
    · rintro ⟨⟨t, hr, rfl⟩, ht⟩
      rw [(h.unsigned t hr).lookup_row] at ht
      exact ⟨t, List.mem_filter.2 ⟨hr, ht⟩, rfl⟩
  · rw [if_neg hc]
    cases hs : r.select c with
    | error e => exact .inr ⟨⟨e, rfl⟩, rfl⟩
    | ok x =>
      refine absurd (fun m hm n hn => ?_) hc
      obtain ⟨t, ht, rfl⟩ := mem_rows.1 hm
      exact Tuple.mem_row.2 ((select_eq_ok_iff.1 hs).1 t ht n hn)

theorem Regular.refines_project (h : r.Regular) (names : List String) :
    Refines (do orSchemaError (Schema.checkProjection names r); r.project names)
      (Rows.project names r.rows) := by
  have hp : Refines (r.project names) (some (r.rows.image (Row.restrict names))) := by
    rw [project_eq]
    refine Regular.refines_ok (Regular.of_subset ?_ (firsts_sublist _ _).subset) ?_
    · refine ⟨h.homogeneous.map_project names, fun x hx => ?_⟩
      obtain ⟨t, ht, rfl⟩ := List.mem_map.1 hx
      exact (h.unsigned t ht).project names
    · rw [rows_firsts, rows_map_project]
  cases r with
  | nil =>
    rw [Rows.project_of_fits (.inl (rows_eq_empty_iff.2 rfl))]
    exact hp
  | cons t r =>
    have hs : ∀ n, n ∈ Rows.schema (rows (t :: r)) ↔ n ∈ t.names := fun n =>
      h.homogeneous.mem_schema List.mem_cons_self
    have hi : (names.filter (!t.names.contains ·)).isEmpty = true ↔
        ∀ n ∈ names, n ∈ Rows.schema (rows (t :: r)) := by
      rw [List.isEmpty_iff, List.filter_eq_nil_iff]
      refine forall_congr' fun n => imp_congr_right fun _ => ?_
      rw [hs, Bool.not_eq_true, Bool.not_eq_false', List.contains_iff_mem]
    rw [Schema.checkProjection, columns?_cons]
    by_cases hn : ∀ n ∈ names, n ∈ Rows.schema (rows (t :: r))
    · simp only [if_pos (hi.2 hn)]
      rw [Rows.project_of_fits (.inr hn)]
      exact hp
    · simp only [if_neg fun h => hn (hi.1 h)]
      rw [Rows.project_of_not_fits (not_or.2 ⟨rows_cons_ne t r, hn⟩)]
      exact .inr ⟨⟨_, rfl⟩, rfl⟩

theorem Homogeneous.append (hl : l.Homogeneous) (hr : r.Homogeneous)
    (h : ∀ t ∈ l, ∀ u ∈ r, ∀ n, n ∈ t.names ↔ n ∈ u.names) : Homogeneous (l ++ r) := by
  intro x hx y hy n
  rcases List.mem_append.1 hx with hx | hx <;> rcases List.mem_append.1 hy with hy | hy
  · exact hl x hx y hy n
  · exact h x hx y hy n
  · exact (h y hy x hx n).symm
  · exact hr x hx y hy n

/-- Columns that fit make the tuples of both sides carry the same names. -/
theorem Homogeneous.names_iff {t u x y : Tuple} (hl : Homogeneous (t :: l))
    (hr : Homogeneous (u :: r)) (hf : ∀ n, n ∈ t.names ↔ n ∈ u.names) (hx : x ∈ t :: l)
    (hy : y ∈ u :: r) (n : String) : n ∈ x.names ↔ n ∈ y.names :=
  calc n ∈ x.names ↔ n ∈ t.names := hl x hx t List.mem_cons_self n
    _ ↔ n ∈ u.names := hf n
    _ ↔ n ∈ y.names := hr u List.mem_cons_self y hy n

theorem Regular.append (hl : l.Regular) (hr : r.Regular)
    (h : ∀ t ∈ l, ∀ u ∈ r, ∀ n, n ∈ t.names ↔ n ∈ u.names) : Regular (l ++ r) := by
  refine ⟨hl.homogeneous.append hr.homogeneous h, fun x hx => ?_⟩
  exact (List.mem_append.1 hx).elim (hl.unsigned x) (hr.unsigned x)

section Binary

variable {t u : Tuple} (hl : Regular (t :: l)) (hr : Regular (u :: r))
include hl hr

theorem refines_union (hf : t.names.length = u.names.length → ∀ n, n ∈ t.names ↔ n ∈ u.names) :
    Refines (BinaryOp.apply .union (t :: l) (u :: r))
      (Rows.binary .union (rows (t :: l)) (rows (u :: r))) := by
  rw [BinaryOp.apply, Rows.binary_union (rows_cons_ne t l) (rows_cons_ne u r), Schema.checkBinary,
    columns?_cons, columns?_cons, hl.homogeneous.card_schema List.mem_cons_self,
    hr.homogeneous.card_schema List.mem_cons_self]
  by_cases hc : t.names.length = u.names.length
  · simp only [if_pos hc]
    change Refines (union (t :: l) (u :: r)) _
    have hx : Regular ((t :: l) ++ (u :: r)) := hl.append hr fun _ hx _ hy =>
      hl.homogeneous.names_iff hr.homogeneous (hf hc) hx hy
    rw [union_eq]
    refine (hx.of_subset (firsts_sublist _ _).subset).refines_ok ?_
    rw [rows_firsts, rows_append]
  · simp only [if_neg hc]
    exact .inr ⟨⟨_, rfl⟩, rfl⟩

theorem refines_difference : Refines (BinaryOp.apply .difference (t :: l) (u :: r))
    (Rows.binary .difference (rows (t :: l)) (rows (u :: r))) := by
  rw [BinaryOp.apply, Rows.binary_difference (rows_cons_ne t l) (rows_cons_ne u r),
    Schema.checkBinary, columns?_cons, columns?_cons,
    hl.homogeneous.card_schema List.mem_cons_self, hr.homogeneous.card_schema List.mem_cons_self]
  by_cases hc : t.names.length = u.names.length
  · simp only [if_pos hc]
    change Refines (difference (t :: l) (u :: r)) _
    rw [difference_eq]
    exact (hl.of_subset List.filter_sublist.subset).refines_ok (rows_filter_key _ _)
  · simp only [if_neg hc]
    exact .inr ⟨⟨_, rfl⟩, rfl⟩

theorem refines_join : Refines (BinaryOp.apply .join (t :: l) (u :: r))
    (Rows.binary .join (rows (t :: l)) (rows (u :: r))) := by
  have hm : ∀ n, n ∈ Schema.commonNames t.names u.names ↔ n ∈ t.names ∧ n ∈ u.names := by
    intro n
    rw [Schema.commonNames, List.mem_filter, List.contains_iff_mem]
  have he : (Schema.commonNames t.names u.names).isEmpty = true ↔
      Rows.schema (rows (t :: l)) ∩ Rows.schema (rows (u :: r)) = ∅ := by
    rw [List.isEmpty_iff, List.eq_nil_iff_forall_not_mem, Finset.eq_empty_iff_forall_notMem]
    refine forall_congr' fun n => not_congr ?_
    rw [hm, Finset.mem_inter, hl.homogeneous.mem_schema List.mem_cons_self,
      hr.homogeneous.mem_schema List.mem_cons_self]
  rw [BinaryOp.apply, Rows.binary_join (rows_cons_ne t l) (rows_cons_ne u r), Schema.checkBinary,
    columns?_cons, columns?_cons]
  by_cases hc : Rows.schema (rows (t :: l)) ∩ Rows.schema (rows (u :: r)) = ∅
  · simp only [if_pos hc, if_pos (he.2 hc)]
    exact .inr ⟨⟨_, rfl⟩, rfl⟩
  · simp only [if_neg hc, if_neg fun h => hc (he.1 h)]
    change Refines (join (t :: l) (u :: r) _) _
    rw [join_eq]
    refine (hl.join hr _).refines_ok (rows_join fun x hx y hy n => ?_)
    rw [hm, hl.homogeneous x hx t List.mem_cons_self, hr.homogeneous y hy u List.mem_cons_self]

end Binary

/-- If the columns of the two are equally many, they are the same. -/
def Fits (l r : Relation) : Prop :=
  ∀ ls rs, l.columns? = some ls → r.columns? = some rs → ls.length = rs.length →
    ∀ n, n ∈ ls ↔ n ∈ rs

theorem Regular.refines_binary (hl : l.Regular) (hr : r.Regular) (op : BinaryOp)
    (hf : op = .union → Fits l r) : Refines (op.apply l r) (Rows.binary op l.rows r.rows) := by
  match l, r, hl, hr, hf with
  | [], r, _, _, _ =>
    rw [Rows.binary_of_empty op (.inl (rows_eq_empty_iff.2 rfl))]
    exact .inr ⟨⟨_, rfl⟩, rfl⟩
  | t :: l, [], _, _, _ =>
    rw [Rows.binary_of_empty op (.inr (rows_eq_empty_iff.2 rfl))]
    exact .inr ⟨⟨_, rfl⟩, rfl⟩
  | t :: l, u :: r, hl, hr, hf =>
    cases op with
    | union => exact refines_union hl hr (hf rfl t.names u.names rfl rfl)
    | difference => exact refines_difference hl hr
    | join => exact refines_join hl hr

end Relation

/-- The relations of a store are homogeneous and hold no negative zero. -/
def Store.Regular (s : Store) : Prop :=
  ∀ name r, s.get? name = some r → r.Regular

theorem Store.forall_of_entries {s : Store} {P : Relation → Prop}
    (h : ∀ e ∈ s.relations.entries, P e.2.tuples) (name : String) (r : Relation)
    (hg : s.get? name = some r) : P r := by
  obtain ⟨st, hst, rfl⟩ := Option.map_eq_some_iff.1 hg
  exact h (name, st) (NameMap.mem_of_get? hst)

theorem Store.regular_of_entries {s : Store}
    (h : ∀ e ∈ s.relations.entries, e.2.tuples.Regular) : s.Regular :=
  Store.forall_of_entries h

/-- Every union that evaluation comes to has operands with the same columns, if both have tuples
and as many columns. -/
def Expr.UnionsFit (s : Store) : Expr → Prop
  | relation _ => True
  | select _ e => e.UnionsFit s
  | project _ e => e.UnionsFit s
  | rename _ e => e.UnionsFit s
  | binary op l r => l.UnionsFit s ∧ ∀ a, l.eval s = .ok a → r.UnionsFit s ∧
      ∀ b, r.eval s = .ok b → op = .union → a.Fits b

namespace Expr

variable {s : Store}

theorem refines_denote (hs : s.Regular) (e : Expr) (hu : e.UnionsFit s) :
    Refines (e.eval s) (e.denote s) := by
  induction e with
  | relation name =>
    rw [eval, denote]
    cases hg : s.get? name with
    | none => exact .inr ⟨⟨_, rfl⟩, rfl⟩
    | some r => exact (hs name r hg).refines_ok rfl
  | select c e ih =>
    rw [eval, denote]
    exact (ih hu).bind fun r _ hr => hr.refines_select c
  | project names e ih =>
    rw [eval, denote]
    exact (ih hu).bind fun r _ hr => hr.refines_project names
  | rename name e ih =>
    rw [eval, denote]
    have hr : ∀ r, e.eval s = .ok r → r.Regular → Refines (r.rename name) (some r.rows) := by
      intro r _ hr
      rw [Relation.rename_eq]
      exact hr.refines_ok rfl
    simpa using (ih hu).bind hr
  | binary op l r ihl ihr =>
    rw [eval, denote]
    refine (ihl hu.1).bind fun a ha hra => ?_
    obtain ⟨hur, hfit⟩ := hu.2 a ha
    exact (ihr hur).bind fun b hb hrb => hra.refines_binary hrb op (hfit b hb)

/-- Evaluation in a store of homogeneous relations without negative zeros, where united relations
have the same columns: it fails just where the expression stands for no set of rows, and else the
content of the result is the set that the expression stands for. -/
theorem content_eval (hs : s.Regular) (e : Expr) (hu : e.UnionsFit s) :
    (∃ r A, e.eval s = .ok r ∧ e.denote s = some A ∧ r.content.toFinset = A.image Row.key) ∨
      (∃ error, e.eval s = .error error) ∧ e.denote s = none := by
  obtain ⟨r, he, -, hd⟩ | h := refines_denote hs e hu
  · exact .inl ⟨r, r.rows, he, hd, r.content_toFinset⟩
  · exact .inr h

theorem get?_of_eval_relation {name : String} {r : Relation}
    (h : (relation name).eval s = .ok r) : s.get? name = some r := by
  rw [eval] at h
  split at h
  · rename_i hg
    rw [hg, Except.ok.inj h]
  · cases h

def permuted : Store :=
  (Store.empty.put "R" ⟨["a", "b"], [Tuple.ofPairs [("a", .text "x"), ("b", .text "7")]]⟩).put "S"
    ⟨["b", "a"], [Tuple.ofPairs [("b", .number .zero), ("a", .text "y")],
      Tuple.ofPairs [("b", .text "7"), ("a", .text "x")]]⟩

theorem content_eval_permuted :
    permuted.Regular ∧ (binary .union (relation "R") (relation "S")).UnionsFit permuted ∧
    ((∃ r A, (binary .union (relation "R") (relation "S")).eval permuted = .ok r ∧
        (binary .union (relation "R") (relation "S")).denote permuted = some A ∧
        r.content.toFinset = A.image Row.key) ∨
      (∃ error, (binary .union (relation "R") (relation "S")).eval permuted = .error error) ∧
        (binary .union (relation "R") (relation "S")).denote permuted = none) := by
  have hs : permuted.Regular := by
    refine Store.regular_of_entries fun e he => ?_
    have hn : ∀ e ∈ permuted.relations.entries, ∀ t ∈ e.2.tuples, t.names = e.2.columns := by decide
    have hz : ∀ e ∈ permuted.relations.entries, ∀ t ∈ e.2.tuples, ∀ a ∈ t.attributes,
        a.2.isNegativeZero = false := by decide
    exact ⟨Relation.homogeneous_of_names (hn e he), fun t ht => Tuple.unsigned_iff.2 (hz e he t ht)⟩
  have hu : (binary .union (relation "R") (relation "S")).UnionsFit permuted := by
    refine ⟨trivial, fun a ha => ⟨trivial, fun b hb _ ls rs hl hr _ n => ?_⟩⟩
    have hR : (permuted.get? "R").bind Relation.columns? = some ["a", "b"] := by decide
    have hS : (permuted.get? "S").bind Relation.columns? = some ["b", "a"] := by decide
    rw [get?_of_eval_relation ha, Option.bind_some, hl, Option.some_inj] at hR
    rw [get?_of_eval_relation hb, Option.bind_some, hr, Option.some_inj] at hS
    subst hR hS
    simp [or_comm]
  exact ⟨hs, hu, content_eval hs _ hu⟩

end Expr

end RelAlg
