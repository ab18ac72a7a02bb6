import RelAlg.Proofs.Operators
import RelAlg.Proofs.Predicate.Truth

set_option autoImplicit false

namespace RelAlg

namespace Predicate

variable {get : String → Option Value}

theorem truths_eq_map (ps : List Predicate) : truths get ps = ps.map (·.truth get) := by
  induction ps with
  | nil => rw [truths, List.map_nil]
  | cons p ps ih => rw [truths, ih, List.map_cons]

theorem truth_conj (ps : List Predicate) : (conj ps).truth get = ps.all (·.truth get) := by
  rw [truth, truths_eq_map, List.all_map]
  rfl

theorem truth_disj (ps : List Predicate) : (disj ps).truth get = ps.any (·.truth get) := by
  rw [truth, truths_eq_map, List.any_map]
  rfl

theorem truth_allOf (ps : List Predicate) : (allOf ps).truth get = ps.all (·.truth get) := by
  match ps with
  | [] => exact truth_conj []
  | [p] => rw [allOf, List.all_cons, List.all_nil, Bool.and_true]
  | p :: q :: ps => exact truth_conj (p :: q :: ps)

theorem allNames_append (ps qs : List Predicate) :
    allNames (ps ++ qs) = allNames ps ++ allNames qs := by
  induction ps with
  | nil => rfl
  | cons p ps ih => rw [List.cons_append, allNames, allNames, ih, List.append_assoc]

theorem names_allOf (ps : List Predicate) : (allOf ps).names = allNames ps := by
  match ps with
  | [] => rfl
  | [p] => rw [allOf, allNames, allNames, List.append_nil]
  | p :: q :: ps => rfl

variable {p : Predicate} {t : Tuple}

theorem eval_eq_ok_iff {b : Bool} :
    p.eval t = .ok b ↔ (∀ n ∈ p.names, n ∈ t.names) ∧ p.truth t.get? = b := by
  rw [eval_eq, Tuple.orMissing, ← Tuple.missing?_eq_none_iff]
  cases t.missing? p.names with
  | none => simp
  | some n => simp

theorem eval_eq_error_iff {e : ConditionError} :
    p.eval t = .error e ↔ ∃ n, t.missing? p.names = some n ∧ e = .unknownAttribute n := by
  rw [eval_eq, Tuple.orMissing]
  cases t.missing? p.names with
  | none => simp
  | some n => simp [eq_comm]

end Predicate

namespace Condition

variable {c : Condition} {t : Tuple}

theorem check_of_carried (h : ∀ n ∈ c.predicate.names, n ∈ t.names) :
    c.check t = .ok (c.predicate.truth t.get?) := by
  rw [check, holds, Predicate.eval_eq_ok_iff.2 ⟨h, rfl⟩]

theorem check_of_error {e : ConditionError} (h : c.predicate.eval t = .error e) :
    c.check t = .error (.condition c.text e) := by
  rw [check, holds, h]

end Condition

namespace Relation

variable {r x : Relation} {c : Condition}

theorem select_of_carried (h : ∀ t ∈ r, ∀ n ∈ c.predicate.names, n ∈ t.names) :
    r.select c = .ok (r.filter fun t => c.predicate.truth t.get?) := by
  rw [select_eq]
  exact keep_of_test fun t ht => Condition.check_of_carried (h t ht)

theorem select_of_error {ts us : List Tuple} {t : Tuple} {e : ConditionError}
    (h : ∀ u ∈ ts, ∀ n ∈ c.predicate.names, n ∈ u.names) (he : c.predicate.eval t = .error e) :
    select (ts ++ t :: us) c = .error (.condition c.text e) := by
  rw [select_eq]
  exact keep_append_error (fun u hu => ⟨_, Condition.check_of_carried (h u hu)⟩)
    (Condition.check_of_error he)

theorem carried_or_first (r : Relation) (names : List String) :
    (∀ t ∈ r, ∀ n ∈ names, n ∈ t.names) ∨ ∃ ts t us n, r = ts ++ t :: us ∧
      (∀ u ∈ ts, ∀ n ∈ names, n ∈ u.names) ∧ t.missing? names = some n := by
  cases hf : r.find? fun t => (t.missing? names).isSome with
  | none =>
    rw [List.find?_eq_none] at hf
    exact .inl fun t ht => Tuple.missing?_eq_none_iff.1 (by simpa using hf t ht)
  | some t =>
    obtain ⟨hs, ts, us, he, hts⟩ := List.find?_eq_some_iff_append.1 hf
    obtain ⟨n, hn⟩ := Option.isSome_iff_exists.1 hs
    exact .inr ⟨ts, t, us, n, he,
      fun u hu => Tuple.missing?_eq_none_iff.1 (by simpa using hts u hu), hn⟩

theorem select_eq_ok_iff : r.select c = .ok x ↔
    (∀ t ∈ r, ∀ n ∈ c.predicate.names, n ∈ t.names) ∧
      x = r.filter fun t => c.predicate.truth t.get? := by
  constructor
  · intro h
    rcases carried_or_first r c.predicate.names with hc | ⟨ts, t, us, n, rfl, hts, hn⟩
    · rw [select_of_carried hc] at h
      exact ⟨hc, (Except.ok.inj h).symm⟩
    · rw [select_of_error hts (Predicate.eval_eq_error_iff.2 ⟨n, hn, rfl⟩)] at h
      cases h
  · rintro ⟨hc, rfl⟩
    exact select_of_carried hc

theorem select_eq_error_iff {e : QueryError} : r.select c = .error e ↔
    ∃ ts t us e', r = ts ++ t :: us ∧ (∀ u ∈ ts, ∀ n ∈ c.predicate.names, n ∈ u.names) ∧
      c.predicate.eval t = .error e' ∧ e = .condition c.text e' := by
  constructor
  · intro h
    rcases carried_or_first r c.predicate.names with hc | ⟨ts, t, us, n, rfl, hts, hn⟩
    · rw [select_of_carried hc] at h
      cases h
    · have he := Predicate.eval_eq_error_iff.2 ⟨n, hn, rfl⟩
      rw [select_of_error hts he] at h
      exact ⟨ts, t, us, _, rfl, hts, he, (Except.error.inj h).symm⟩
  · rintro ⟨ts, t, us, e', rfl, hts, he, rfl⟩
    exact select_of_error hts he

open Predicate

variable {text : String} {ps qs : List Predicate}

theorem select_conj_swap (h : r.select ⟨text, conj (ps ++ qs)⟩ = .ok x) :
    r.select ⟨text, conj (qs ++ ps)⟩ = .ok x := by
  rw [select_eq_ok_iff] at h ⊢
  simp only [names, allNames_append, truth_conj, List.all_append, List.mem_append] at h ⊢
  exact ⟨fun t ht n hn => h.1 t ht n hn.symm, by simp only [h.2, Bool.and_comm]⟩

/-- To select by some terms and then by others is to select by all of them. -/
theorem select_conj (h : r.select ⟨text, conj (ps ++ qs)⟩ = .ok x) (text₁ text₂ : String) :
    ∃ y, r.select ⟨text₁, allOf ps⟩ = .ok y ∧ y.select ⟨text₂, allOf qs⟩ = .ok x := by
  rw [select_eq_ok_iff] at h
  simp only [names, allNames_append, truth_conj, List.all_append, List.mem_append] at h
  obtain ⟨hn, rfl⟩ := h
  refine ⟨_, select_of_carried fun t ht n hm => ?_, select_eq_ok_iff.2 ⟨fun t ht n hm => ?_, ?_⟩⟩
  · rw [names_allOf] at hm
    exact hn t ht n (.inl hm)
  · rw [names_allOf] at hm
    exact hn t (List.mem_filter.1 ht).1 n (.inr hm)
  · simp only [truth_allOf, List.filter_filter, Bool.and_comm]

/-- A predicate fails on a tuple just if it mentions a name that the tuple does not carry, with the
first one from left to right; else it has its truth, AND being all the terms and OR some term. So a
selection succeeds just if all tuples carry all names, and is then the tuples of which the condition
is true, in their order and as often; else it fails as the condition does on the first tuple that
lacks a name. Selected by two predicates in turn, in whatever order, are the tuples selected by
both, also where their terms stand in one flat group. -/
theorem selection_strict (r : Relation) (c : Condition) (p q : Predicate) (t : Tuple) :
    (∀ e, p.eval t = .error e ↔
      ∃ n, p.names.find? (!t.contains ·) = some n ∧ e = .unknownAttribute n) ∧
    (∀ b, p.eval t = .ok b ↔ (∀ n ∈ p.names, n ∈ t.names) ∧ p.truth t.get? = b) ∧
    (∀ ps, (conj ps).truth t.get? = ps.all (·.truth t.get?) ∧
      (disj ps).truth t.get? = ps.any (·.truth t.get?)) ∧
    (∀ op left right, (compare op left right).truth t.get? =
      op.holds ((left.valueIn t.get?).compare (right.valueIn t.get?))) ∧
    (∀ x, r.select c = .ok x ↔ (∀ u ∈ r, ∀ n ∈ c.predicate.names, n ∈ u.names) ∧
      x = r.filter fun u => c.predicate.truth u.get?) ∧
    (∀ e, r.select c = .error e ↔
      ∃ us u vs e', r = us ++ u :: vs ∧ (∀ v ∈ us, ∀ n ∈ c.predicate.names, n ∈ v.names) ∧
        c.predicate.eval u = .error e' ∧ e = .condition c.text e') ∧
    (∀ text text₁ text₂ x, r.select ⟨text, conj [p, q]⟩ = .ok x → ∃ y z,
      r.select ⟨text₁, p⟩ = .ok y ∧ y.select ⟨text₂, q⟩ = .ok x ∧
      r.select ⟨text₂, q⟩ = .ok z ∧ z.select ⟨text₁, p⟩ = .ok x) ∧
    ∀ ps qs text text₁ text₂ x, r.select ⟨text, conj (ps ++ qs)⟩ = .ok x → ∃ y z,
      r.select ⟨text₁, allOf ps⟩ = .ok y ∧ y.select ⟨text₂, allOf qs⟩ = .ok x ∧
      r.select ⟨text₂, allOf qs⟩ = .ok z ∧ z.select ⟨text₁, allOf ps⟩ = .ok x := by
  have hj : ∀ ps qs text text₁ text₂ x, r.select ⟨text, conj (ps ++ qs)⟩ = .ok x → ∃ y z,
      r.select ⟨text₁, allOf ps⟩ = .ok y ∧ y.select ⟨text₂, allOf qs⟩ = .ok x ∧
      r.select ⟨text₂, allOf qs⟩ = .ok z ∧ z.select ⟨text₁, allOf ps⟩ = .ok x := by
    intro ps qs text text₁ text₂ x h
    obtain ⟨y, hy, hyx⟩ := select_conj h text₁ text₂
    obtain ⟨z, hz, hzx⟩ := select_conj (select_conj_swap h) text₂ text₁
    exact ⟨y, z, hy, hyx, hz, hzx⟩
  exact ⟨fun _ => eval_eq_error_iff, fun _ => eval_eq_ok_iff,
    fun ps => ⟨truth_conj ps, truth_disj ps⟩,
    fun _ _ _ => by rw [truth], fun _ => select_eq_ok_iff, fun _ => select_eq_error_iff,
    hj [p] [q], hj⟩

/-- The first term of an OR is true, and still the name that the second one misses is found. -/
theorem selection_strict_decided :
    let p := disj [compare .eq (.attr "a") (.literal (.text "x")),
      compare .lt (.attr "b") (.literal (.number (.ofNat 2)))]
    let q := compare .ne (.attr "b") (.attr "a")
    let t := Tuple.ofPairs [("a", .text "x")]
    let r : Relation := [.ofPairs [("a", .text "x"), ("b", .text "1")],
      .ofPairs [("b", .text "y"), ("a", .text "y")], .ofPairs [("a", .text "x"), ("b", .text "1")],
      .ofPairs [("b", .text "x"), ("a", .text "x")]]
    let x : Relation := [.ofPairs [("a", .text "x"), ("b", .text "1")],
      .ofPairs [("a", .text "x"), ("b", .text "1")]]
    p.eval t = .error (.unknownAttribute "b") ∧
    select (r ++ [t, .empty]) ⟨"p", p⟩ = .error (.condition "p" (.unknownAttribute "b")) ∧
    (r.select ⟨"p AND q", conj [p, q]⟩ = .ok x ∧
      ∃ y z, r.select ⟨"p", p⟩ = .ok y ∧ y.select ⟨"q", q⟩ = .ok x ∧
        r.select ⟨"q", q⟩ = .ok z ∧ z.select ⟨"p", p⟩ = .ok x) ∧
    (r.select ⟨"p AND q AND true", conj ([p] ++ [q, const true])⟩ = .ok x ∧
      ∃ y z, r.select ⟨"p", p⟩ = .ok y ∧ y.select ⟨"q AND true", conj [q, const true]⟩ = .ok x ∧
        r.select ⟨"q AND true", conj [q, const true]⟩ = .ok z ∧ z.select ⟨"p", p⟩ = .ok x) := by
  intro p q t r x
  have ht : p.eval t = .error (.unknownAttribute "b") :=
    ((selection_strict r ⟨"p", p⟩ p q t).1 _).2 ⟨"b", by decide, rfl⟩
  have hs := (selection_strict (r ++ [t, .empty]) ⟨"p", p⟩ p q t).2.2.2.2.2.1
  obtain ⟨-, -, -, -, hok, -, hpq, -⟩ := selection_strict r ⟨"p AND q", conj [p, q]⟩ p q t
  obtain ⟨-, -, -, -, hok', -, -, hflat⟩ :=
    selection_strict r ⟨"p AND q AND true", conj ([p] ++ [q, const true])⟩ p q t
  have hx := (hok x).2 ⟨by decide, by decide +kernel⟩
  have hx' := (hok' x).2 ⟨by decide, by decide +kernel⟩
  exact ⟨ht, (hs _).2 ⟨r, t, [.empty], _, rfl, by decide, ht, rfl⟩, ⟨hx, hpq _ _ _ _ hx⟩, hx',
    hflat [p] [q, const true] _ _ _ _ hx'⟩

end Relation

end RelAlg
