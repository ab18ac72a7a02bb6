import RelAlg.Proofs.Cursor.Drain
import RelAlg.Proofs.Outcome

set_option autoImplicit false

namespace RelAlg.Relation

open Cursor

theorem select_eq (r : Relation) (c : Condition) : r.select c = keep c.check r :=
  collect_filtered c.check (opens_gate (opens_ofRelation r))

theorem project_eq (r : Relation) (names : List String) :
    r.project names = .ok (firsts [] (r.map (·.project names))) :=
  (opens_gate (opens_distinct _ (opens_gate (opens_ofRelation r)))).collect

theorem rename_eq (r : Relation) (name : String) : r.rename name = .ok r :=
  (opens_gate (opens_gate (opens_ofRelation r))).collect

theorem union_eq (l r : Relation) : l.union r = .ok (firsts [] (l ++ r)) := by
  have h := (opens_gate (opens_distinct id (opens_append (opens_gate (opens_ofRelation l))
    (opens_gate (opens_ofRelation r))))).collect
  rwa [List.map_id] at h

theorem difference_eq (l r : Relation) :
    l.difference r = .ok (l.filter fun t => !(r.map Tuple.key).contains t.key) :=
  (opens_gate (opens_difference (opens_gate (opens_ofRelation l))
    (opens_gate (opens_ofRelation r)))).collect

theorem join_eq (l r : Relation) (names : List String) :
    l.join r names = .ok (l.flatMap (merges names r)) :=
  (opens_gate (opens_join names (opens_gate (opens_ofRelation l))
    (opens_gate (opens_ofRelation r)))).collect

theorem keep_of_test {accept : Tuple → Except QueryError Bool} {test : Tuple → Bool}
    {ts : List Tuple} (h : ∀ t ∈ ts, accept t = .ok (test t)) :
    keep accept ts = .ok (ts.filter test) := by
  induction ts with
  | nil => rfl
  | cons t ts ih =>
    rw [keep, h t List.mem_cons_self, ih fun u hu => h u (List.mem_cons_of_mem _ hu)]
    cases ht : test t
    · rw [List.filter_cons_of_neg (by simp [ht])]
      rfl
    · rw [List.filter_cons_of_pos ht]
      rfl

theorem keep_append_error {accept : Tuple → Except QueryError Bool} {ts us : List Tuple} {t : Tuple}
    {e : QueryError} (h : ∀ u ∈ ts, ∃ b, accept u = .ok b) (he : accept t = .error e) :
    keep accept (ts ++ t :: us) = .error e := by
  induction ts with
  | nil =>
    rw [List.nil_append, keep, he]
    rfl
  | cons u ts ih =>
    obtain ⟨b, hb⟩ := h u List.mem_cons_self
    rw [List.cons_append, keep, hb, ih fun v hv => h v (List.mem_cons_of_mem u hv)]
    rfl

theorem firsts_sublist (seen : List Tuple.Key) (ts : List Tuple) : (firsts seen ts).Sublist ts := by
  induction ts generalizing seen with
  | nil => exact List.Sublist.slnil
  | cons t ts ih =>
    rw [firsts]
    split
    · exact (ih seen).cons t
    · exact (ih _).cons_cons t

/-- The content that was not seen before is all there. -/
theorem key_mem_firsts (seen : List Tuple.Key) (ts : List Tuple) (k : Tuple.Key) :
    k ∈ (firsts seen ts).map Tuple.key ↔ k ∉ seen ∧ k ∈ ts.map Tuple.key := by
  induction ts generalizing seen with
  | nil => simp [firsts]
  | cons t ts ih =>
    rw [firsts]
    split
    · rename_i hc
      have hm : t.key ∈ seen := List.contains_iff_mem.1 hc
      rw [ih, List.map_cons, List.mem_cons]
      constructor
      · rintro ⟨hn, hk⟩
        exact ⟨hn, .inr hk⟩
      · rintro ⟨hn, rfl | hk⟩
        · exact absurd hm hn
        · exact ⟨hn, hk⟩
    · rename_i hc
      have hm : t.key ∉ seen := fun h => hc (List.contains_iff_mem.2 h)
      rw [List.map_cons, List.mem_cons, ih, List.map_cons, List.mem_cons, List.mem_cons, not_or]
      constructor
      · rintro (rfl | ⟨⟨hne, hn⟩, hk⟩)
        · exact ⟨hm, .inl rfl⟩
        · exact ⟨hn, .inr hk⟩
      · rintro ⟨hn, hk⟩
        by_cases he : k = t.key
        · exact .inl he
        · exact .inr ⟨⟨he, hn⟩, hk.resolve_left he⟩

end RelAlg.Relation
