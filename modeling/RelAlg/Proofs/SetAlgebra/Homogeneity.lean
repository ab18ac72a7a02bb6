import RelAlg.Proofs.Cursor.Reference
import RelAlg.Proofs.Outcome
import RelAlg.Proofs.SetAlgebra.Refinement

set_option autoImplicit false

namespace RelAlg

namespace Schema

variable {l r : Relation} {common : List String}

theorem cons_of_checkBinary {op : BinaryOp} (h : checkBinary op l r = .ok common) :
    ∃ t ts u us, l = t :: ts ∧ r = u :: us ∧ (op ≠ .join → t.names.length = u.names.length) := by
  match l, r with
  | [], _ => cases h
  | _ :: _, [] => cases h
  | t :: ts, u :: us =>
    refine ⟨t, ts, u, us, rfl, rfl, fun hj => ?_⟩
    rw [checkBinary, Relation.columns?_cons, Relation.columns?_cons] at h
    cases op with
    | join => exact absurd rfl hj
    | union | difference =>
      by_contra hc
      simp only [if_neg hc] at h
      cases h

end Schema

theorem ok_of_orSchemaError {α : Type} {x : Except SchemaError α} {a : α}
    (h : orSchemaError x = .ok a) : x = .ok a := by
  cases x with
  | error e => cases h
  | ok b => rw [Except.ok.inj h]

namespace Relation

variable {l r x : Relation} {common : List String}

theorem Homogeneous.mem_columns (h : r.Homogeneous) {columns : List String}
    (hc : r.columns? = some columns) {t : Tuple} (ht : t ∈ r) (n : String) :
    n ∈ t.names ↔ n ∈ columns := by
  obtain ⟨u, hu, rfl⟩ := Option.map_eq_some_iff.1 hc
  exact h t ht u (List.mem_of_mem_head? hu) n

theorem Homogeneous.select (h : r.Homogeneous) {c : Condition} (hx : r.select c = .ok x) :
    x.Homogeneous := by
  rw [(select_eq_ok_iff.1 hx).2]
  exact h.of_subset List.filter_sublist.subset

theorem Homogeneous.project (h : r.Homogeneous) {names : List String}
    (hx : r.project names = .ok x) : x.Homogeneous := by
  rw [project_eq] at hx
  cases hx
  exact (h.map_project names).of_subset (firsts_sublist _ _).subset

theorem Homogeneous.rename (h : r.Homogeneous) {name : String} (hx : r.rename name = .ok x) :
    x.Homogeneous := by
  rw [rename_eq] at hx
  cases hx
  exact h

theorem apply_union (h : Schema.checkBinary .union l r = .ok common) :
    BinaryOp.apply .union l r = .ok (occurrences (l ++ r)) := by
  rw [BinaryOp.apply, h]
  change l.union r = _
  rw [union_eq, firsts_nil]

/-- The first tuples of both sides have their content in the union. So it is homogeneous just if
they carry the same names. -/
theorem homogeneous_union_iff (hl : l.Homogeneous) (hr : r.Homogeneous)
    (h : BinaryOp.apply .union l r = .ok x) : x.Homogeneous ↔ l.Fits r := by
  obtain ⟨common, hc, -⟩ := bind_ok h
  replace hc := ok_of_orSchemaError hc
  obtain ⟨t, ts, u, us, rfl, rfl, hn⟩ := Schema.cons_of_checkBinary hc
  rw [apply_union hc, ← firsts_nil] at h
  cases h
  constructor
  · rintro hx ls rs hls hrs - n
    cases hls
    cases hrs
    have hm : ∀ v ∈ t :: ts ++ u :: us,
        ∃ w ∈ firsts [] (t :: ts ++ u :: us), w.key = v.key := fun v hv =>
      List.mem_map.1 ((key_mem_firsts _ _ _).2 ⟨List.not_mem_nil, List.mem_map_of_mem hv⟩)
    obtain ⟨v, hv, hvt⟩ := hm t (List.mem_append_left _ List.mem_cons_self)
    obtain ⟨w, hw, hwu⟩ := hm u (List.mem_append_right _ List.mem_cons_self)
    calc n ∈ t.names ↔ n ∈ v.names := (Tuple.mem_names_of_key hvt n).symm
      _ ↔ n ∈ w.names := hx v hv w hw n
      _ ↔ n ∈ u.names := Tuple.mem_names_of_key hwu n
  · intro hf
    have hs := hf t.names u.names rfl rfl (hn (by decide))
    refine (hl.append hr fun _ hx _ hy => ?_).of_subset (firsts_sublist _ _).subset
    exact hl.names_iff hr hs hx hy

theorem Homogeneous.binary (hl : l.Homogeneous) (hr : r.Homogeneous) {op : BinaryOp}
    (hf : op = .union → l.Fits r) (h : op.apply l r = .ok x) : x.Homogeneous := by
  cases op with
  | union => exact (homogeneous_union_iff hl hr h).2 (hf rfl)
  | difference =>
    obtain ⟨common, -, hd⟩ := bind_ok h
    change l.difference r = .ok x at hd
    rw [difference_eq] at hd
    cases hd
    exact hl.of_subset List.filter_sublist.subset
  | join =>
    obtain ⟨common, -, hj⟩ := bind_ok h
    change l.join r common = .ok x at hj
    rw [join_eq] at hj
    cases hj
    exact hl.join hr common

end Relation

def Store.Homogeneous (s : Store) : Prop :=
  ∀ name r, s.get? name = some r → r.Homogeneous

namespace Expr

def parts : Expr → List Expr
  | relation name => [relation name]
  | select c e => select c e :: e.parts
  | project names e => project names e :: e.parts
  | rename name e => rename name e :: e.parts
  | binary op l r => binary op l r :: (l.parts ++ r.parts)

theorem mem_parts (e : Expr) : e ∈ e.parts := by
  cases e <;> exact List.mem_cons_self

variable {s : Store}

/-- Every relation that evaluation comes to, on the way to its result, is homogeneous. -/
def HomogeneousParts (s : Store) (e : Expr) : Prop :=
  ∀ d ∈ e.parts, ∀ x, d.eval s = .ok x → x.Homogeneous

theorem homogeneousParts_unary {d e : Expr} (hp : d.parts = d :: e.parts)
    (hd : ∀ x, d.eval s = .ok x → ∃ a, e.eval s = .ok a ∧ (a.Homogeneous → x.Homogeneous)) :
    HomogeneousParts s d ↔ HomogeneousParts s e := by
  rw [HomogeneousParts, hp, List.forall_mem_cons]
  refine and_iff_right_of_imp fun he x hx => ?_
  obtain ⟨a, ha, hax⟩ := hd x hx
  exact hax (he e e.mem_parts a ha)

theorem homogeneousParts_binary {op : BinaryOp} {l r : Expr} :
    HomogeneousParts s (binary op l r) ↔
      (∀ x, (binary op l r).eval s = .ok x → x.Homogeneous) ∧
        HomogeneousParts s l ∧ HomogeneousParts s r := by
  rw [HomogeneousParts, parts, List.forall_mem_cons, List.forall_mem_append]
  rfl

/-- Where evaluation succeeds, unions of fitting operands are all it takes to keep every relation on
the way homogeneous, and no less will do. -/
theorem homogeneousParts_iff (hs : s.Homogeneous) {e : Expr} {x : Relation}
    (h : e.eval s = .ok x) : HomogeneousParts s e ↔ e.UnionsFit s := by
  induction e generalizing x with
  | relation name =>
    refine iff_of_true (fun d hd y hy => ?_) trivial
    rw [List.mem_singleton.1 hd] at hy
    exact hs name y (get?_of_eval_relation hy)
  | select c e ih =>
    obtain ⟨a, ha, -⟩ := bind_ok h
    refine (homogeneousParts_unary rfl fun y hy => ?_).trans (ih ha)
    obtain ⟨a, ha, hy⟩ := bind_ok hy
    exact ⟨a, ha, fun hh => hh.select hy⟩
  | project names e ih =>
    obtain ⟨a, ha, -⟩ := bind_ok h
    refine (homogeneousParts_unary rfl fun y hy => ?_).trans (ih ha)
    obtain ⟨a, ha, hy⟩ := bind_ok hy
    obtain ⟨-, -, hy⟩ := bind_ok hy
    exact ⟨a, ha, fun hh => hh.project hy⟩
  | rename name e ih =>
    obtain ⟨a, ha, -⟩ := bind_ok h
    refine (homogeneousParts_unary rfl fun y hy => ?_).trans (ih ha)
    obtain ⟨a, ha, hy⟩ := bind_ok hy
    exact ⟨a, ha, fun hh => hh.rename hy⟩
  | binary op l r ihl ihr =>
    obtain ⟨a, ha, hx⟩ := bind_ok h
    obtain ⟨b, hb, hx⟩ := bind_ok hx
    have he : ∀ y, (binary op l r).eval s = .ok y → op.apply a b = .ok y := by
      intro y hy
      rw [eval, ha, hb] at hy
      exact hy
    rw [homogeneousParts_binary, ihl ha, ihr hb, UnionsFit]
    constructor
    · rintro ⟨hu, hl, hr⟩
      refine ⟨hl, fun a' ha' => ⟨hr, fun b' hb' hop => ?_⟩⟩
      obtain rfl := Except.ok.inj (ha.symm.trans ha')
      obtain rfl := Except.ok.inj (hb.symm.trans hb')
      subst hop
      have hla := (ihl ha).2 hl l l.mem_parts a ha
      have hrb := (ihr hb).2 hr r r.mem_parts b hb
      exact (Relation.homogeneous_union_iff hla hrb hx).1 (hu x h)
    · rintro ⟨hl, hf⟩
      obtain ⟨hr, hf⟩ := hf a ha
      refine ⟨fun y hy => ?_, hl, hr⟩
      exact ((ihl ha).2 hl l l.mem_parts a ha).binary ((ihr hb).2 hr r r.mem_parts b hb) (hf b hb)
        (he y hy)

theorem unionsFit_relations {a b : String} {op : BinaryOp} {l r : Relation}
    (ha : s.get? a = some l) (hb : s.get? b = some r) (h : l.columns? = r.columns?) :
    (binary op (relation a) (relation b)).UnionsFit s := by
  refine ⟨trivial, fun x hx => ⟨trivial, fun y hy _ ls rs hl hr _ n => ?_⟩⟩
  obtain rfl := Option.some_inj.1 (ha.symm.trans (get?_of_eval_relation hx))
  obtain rfl := Option.some_inj.1 (hb.symm.trans (get?_of_eval_relation hy))
  rw [hl, hr, Option.some_inj] at h
  rw [h]

end Expr

namespace Store

variable {s : Store}

/-- Every union that answering a query comes to has operands with the same columns. -/
def UnionsFit (s : Store) (limit : Nat) (text : String) : Prop :=
  s.get? (Text.trimmed text) = none → ∀ e, Expr.parse limit text.toList = .ok e → e.UnionsFit s

theorem query_eq_ok {limit : Nat} {text : String} {r : Relation}
    (h : s.query limit text = .ok r) :
    s.get? (Text.trimmed text) = some r ∨ s.get? (Text.trimmed text) = none ∧
      ∃ e, Expr.parse limit text.toList = .ok e ∧ e.eval s = .ok r := by
  rw [query] at h
  split at h
  · rename_i hg
    rw [hg, Except.ok.inj h]
    exact .inl rfl
  · rename_i hg
    exact .inr ⟨hg, bind_ok h⟩

/-- An answer is homogeneous, and its first tuple names the columns of all, if the unions on the way
fit. Just then no relation on the way is mixed. -/
theorem homogeneous_query (hs : s.Homogeneous) {limit : Nat} {text : String} {r : Relation}
    (h : s.query limit text = .ok r) :
    (s.UnionsFit limit text → r.Homogeneous ∧
      ∀ columns, r.columns? = some columns → ∀ t ∈ r, ∀ n, n ∈ t.names ↔ n ∈ columns) ∧
    ∀ e, s.get? (Text.trimmed text) = none → Expr.parse limit text.toList = .ok e →
      (e.HomogeneousParts s ↔ e.UnionsFit s) := by
  constructor
  · intro hu
    have hr : r.Homogeneous := by
      obtain hg | ⟨hg, e, hp, he⟩ := query_eq_ok h
      · exact hs _ r hg
      · exact (Expr.homogeneousParts_iff hs he).2 (hu hg e hp) e e.mem_parts r he
    exact ⟨hr, fun columns hc t ht => hr.mem_columns hc ht⟩
  · intro e hg hp
    obtain hg' | ⟨-, e', hp', he⟩ := query_eq_ok h
    · rw [hg] at hg'
      cases hg'
    · obtain rfl := Except.ok.inj (hp.symm.trans hp')
      exact Expr.homogeneousParts_iff hs he

def unlike : Store :=
  ((Store.empty.put "R" ⟨["a"], [.ofPairs [("a", .text "x")]]⟩).put "S"
    ⟨["b"], [.ofPairs [("b", .text "y")]]⟩).put "T" ⟨["a"], [.ofPairs [("a", .text "z")]]⟩

theorem homogeneous_unlike : unlike.Homogeneous := by
  have hn : ∀ e ∈ unlike.relations.entries, ∀ t ∈ e.2.tuples, t.names = e.2.columns := by decide
  exact forall_of_entries fun e he => Relation.homogeneous_of_names (hn e he)

theorem query_unlike {a b : String} {text : String} {l r : Relation}
    (hg : unlike.get? (Text.trimmed text) = none)
    (hp : Expr.parse 100 text.toList = .ok (.binary .union (.relation a) (.relation b)))
    (ha : unlike.get? a = some l) (hb : unlike.get? b = some r) :
    unlike.query 100 text = BinaryOp.apply .union l r := by
  rw [query, hg, hp]
  change (do
    let x ← Expr.eval unlike (.relation a)
    let y ← Expr.eval unlike (.relation b)
    BinaryOp.apply .union x y) = _
  rw [Expr.eval, Expr.eval, ha, hb]
  rfl

theorem homogeneous_query_unlike : unlike.Homogeneous ∧
    unlike.query 100 "R ∪ T" = .ok [.ofPairs [("a", .text "x")], .ofPairs [("a", .text "z")]] ∧
    unlike.UnionsFit 100 "R ∪ T" ∧
    Relation.Homogeneous [.ofPairs [("a", .text "x")], .ofPairs [("a", .text "z")]] := by
  have hg : unlike.get? (Text.trimmed "R ∪ T") = none := by decide
  have hp : Expr.parse 100 "R ∪ T".toList = .ok (.binary .union (.relation "R") (.relation "T")) :=
    rfl
  have hR : unlike.get? "R" = some [.ofPairs [("a", .text "x")]] := by decide
  have hT : unlike.get? "T" = some [.ofPairs [("a", .text "z")]] := by decide
  have hq : unlike.query 100 "R ∪ T" =
      .ok [.ofPairs [("a", .text "x")], .ofPairs [("a", .text "z")]] := by
    rw [query_unlike hg hp hR hT, Relation.apply_union rfl]
    exact congrArg Except.ok (by decide)
  have hu : unlike.UnionsFit 100 "R ∪ T" := by
    intro _ e he
    obtain rfl := Except.ok.inj (hp.symm.trans he)
    exact Expr.unionsFit_relations hR hT (by decide)
  exact ⟨homogeneous_unlike, hq, hu, ((homogeneous_query homogeneous_unlike hq).1 hu).1⟩

theorem query_mixed : unlike.Homogeneous ∧
    unlike.query 100 "R ∪ S" = .ok [.ofPairs [("a", .text "x")], .ofPairs [("b", .text "y")]] ∧
    ¬ Relation.Homogeneous [.ofPairs [("a", .text "x")], .ofPairs [("b", .text "y")]] := by
  refine ⟨homogeneous_unlike, ?_, fun h => ?_⟩
  · have hR : unlike.get? "R" = some [.ofPairs [("a", .text "x")]] := by decide
    have hS : unlike.get? "S" = some [.ofPairs [("b", .text "y")]] := by decide
    rw [query_unlike (by decide) rfl hR hS, Relation.apply_union rfl]
    exact congrArg Except.ok (by decide)
  · exact absurd ((h _ List.mem_cons_self _ (List.mem_cons_of_mem _ List.mem_cons_self) "a").1
      (by decide)) (by decide)

end Store

end RelAlg
