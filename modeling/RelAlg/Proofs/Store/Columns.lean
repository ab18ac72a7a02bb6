import RelAlg.Proofs.Store.Names
import RelAlg.Proofs.Tuple.Lookup

set_option autoImplicit false

namespace RelAlg

namespace Stored

/-- Every tuple carries the columns in their order, or nothing. -/
structure Sound (st : Stored) : Prop where
  nodup : st.columns.Nodup
  carried : ∀ t ∈ st.tuples, t.names = st.columns ∨ t.names = []

variable {st st' : Stored} {name : String} {t : Tuple}

theorem conform_ok {columns : List String} {u : Tuple} (h : st.conform name t = .ok (columns, u)) :
    (st.columns = [] ∧ columns = t.names ∧ u = t) ∨
      (columns = st.columns ∧ u = t.project columns ∧ ∀ c ∈ columns, c ∈ t.names) := by
  rw [conform] at h
  split at h
  · rename_i he
    cases h
    exact .inl ⟨List.isEmpty_iff.1 he, rfl, rfl⟩
  · split at h
    · rename_i hm
      cases h
      rw [Bool.and_eq_true, List.all_eq_true] at hm
      exact .inr ⟨rfl, rfl, fun c hc => (t.contains_iff c).1 (hm.2 c hc)⟩
    · cases h

theorem conform_names (h : t.names = st.columns) : st.conform name t = .ok (st.columns, t) := by
  rw [conform]
  split
  · rw [h]
  · have hall : st.columns.all t.contains = true :=
      List.all_eq_true.2 fun c hc => (t.contains_iff c).2 (h ▸ hc)
    have hlen : (t.size == st.columns.length) = true := by
      rw [← h, Tuple.names, List.length_map]
      exact beq_self_eq_true _
    rw [hlen, hall, ← h, Tuple.project_names]
    rfl

theorem append_names (h : t.names = st.columns) :
    st.append name t = .ok ⟨st.columns, st.tuples ++ [t]⟩ := by
  rw [append, conform_names h]
  rfl

theorem append_ok (h : st.append name t = .ok st') : ∃ columns u,
    st.conform name t = .ok (columns, u) ∧ st' = ⟨columns, st.tuples ++ [u]⟩ := by
  obtain ⟨⟨columns, u⟩, hc, h⟩ := bind_ok h
  cases h
  exact ⟨columns, u, hc, rfl⟩

theorem replace_ok {index : Nat} {old : Tuple} (h : st.replace name index t = .ok (old, st')) :
    ∃ columns u, st.conform name t = .ok (columns, u) ∧
      st' = ⟨columns, st.tuples.set index u⟩ := by
  rw [Stored.replace] at h
  split at h
  · cases h
  · obtain ⟨⟨columns, u⟩, hc, h⟩ := bind_ok h
    cases h
    exact ⟨columns, u, hc, rfl⟩

theorem delete_ok {index : Nat} {old : Tuple} (h : st.delete name index = .ok (old, st')) :
    st' = ⟨st.columns, st.tuples.eraseIdx index⟩ := by
  rw [Stored.delete] at h
  split at h <;> cases h
  rfl

theorem Sound.conform (h : st.Sound) {columns : List String} {u : Tuple}
    (hc : st.conform name t = .ok (columns, u)) :
    columns.Nodup ∧ u.names = columns ∧ (st.columns = columns ∨ st.columns = []) := by
  obtain ⟨he, rfl, rfl⟩ | ⟨rfl, rfl, hm⟩ := conform_ok hc
  · exact ⟨u.nodup_names, rfl, .inr he⟩
  · exact ⟨h.nodup, Tuple.names_project h.nodup hm, .inl rfl⟩

/-- Other columns come in only where there were none, so the tuples that had the old ones carry
nothing. -/
theorem Sound.with_columns (h : st.Sound) {columns : List String} {tuples : Relation}
    (hd : columns.Nodup) (hc : st.columns = columns ∨ st.columns = [])
    (ht : ∀ t ∈ tuples, t ∈ st.tuples ∨ t.names = columns) : Sound ⟨columns, tuples⟩ := by
  refine ⟨hd, fun t hm => ?_⟩
  rcases ht t hm with hold | hnew
  · rcases h.carried t hold with hn | hn
    · rcases hc with rfl | he
      · exact .inl hn
      · exact .inr (hn.trans he)
    · exact .inr hn
  · exact .inl hnew

theorem Sound.append (h : st.Sound) (ha : st.append name t = .ok st') : st'.Sound := by
  obtain ⟨columns, u, hc, rfl⟩ := append_ok ha
  obtain ⟨hd, hu, hk⟩ := h.conform hc
  refine h.with_columns hd hk fun x hx => ?_
  rcases List.mem_append.1 hx with hx | hx
  · exact .inl hx
  · rw [List.mem_singleton.1 hx]
    exact .inr hu

theorem Sound.replace (h : st.Sound) {index : Nat} {old : Tuple}
    (hr : st.replace name index t = .ok (old, st')) : st'.Sound := by
  obtain ⟨columns, u, hc, rfl⟩ := replace_ok hr
  obtain ⟨hd, hu, hk⟩ := h.conform hc
  refine h.with_columns hd hk fun x hx => ?_
  rcases List.mem_or_eq_of_mem_set hx with hx | hx
  · exact .inl hx
  · rw [hx]
    exact .inr hu

theorem Sound.delete (h : st.Sound) {index : Nat} {old : Tuple}
    (hd : st.delete name index = .ok (old, st')) : st'.Sound := by
  rw [delete_ok hd]
  exact h.with_columns h.nodup (.inl rfl) fun x hx => .inl (List.mem_of_mem_eraseIdx hx)

theorem sound_ofRelation {r : Relation} (h : ofRelation name r = .ok st) : st.Sound := by
  have hd : (r.columns?.getD []).Nodup := by
    cases r with
    | nil => exact List.nodup_nil
    | cons t r => exact t.nodup_names
  have hs : Sound ⟨r.columns?.getD [], []⟩ := ⟨hd, fun t ht => by cases ht⟩
  exact foldlM_ok (fun _ _ _ _ hs ha => hs.append ha) hs h

end Stored

namespace Store

theorem Built.sound {s : Store} (h : Built s) : s.All fun _ st => st.Sound := by
  induction h with
  | empty =>
    intro name st hs
    cases hs
  | create _ _ hc ih =>
    refine ih.put ⟨(newColumns_ok hc).1, fun t ht => ?_⟩
    cases ht
  | insertRelation _ _ hr ih => exact ih.put (Stored.sound_ofRelation hr)
  | append _ hs ha ih => exact ih.put ((ih _ _ hs).append ha)
  | replace _ hs hr ih => exact ih.put ((ih _ _ hs).replace hr)
  | delete _ hs hd ih => exact ih.put ((ih _ _ hs).delete hd)
  | drop _ hs ih => exact ih.erase _

/-- After any run the tuples of a relation carry its columns in their order just if it has no
columns or holds no tuple without attributes, and that is the only way in which they differ. -/
theorem columns_run (as : List Action) (name : String) (st : Stored)
    (h : (run as).stored? name = some st) :
    (∀ t ∈ st.tuples, t.names = st.columns ∨ t.names = []) ∧
      ((∀ t ∈ st.tuples, t.names = st.columns) ↔
        st.columns = [] ∨ ∀ t ∈ st.tuples, t.names ≠ []) := by
  have hc : ∀ t ∈ st.tuples, t.names = st.columns ∨ t.names = [] :=
    ((built_run as).sound name st h).carried
  refine ⟨hc, fun hn => ?_, fun hn t ht => ?_⟩
  · by_cases he : st.columns = []
    · exact .inl he
    · exact .inr fun t ht => by rwa [hn t ht]
  · rcases hc t ht with hn' | hn'
    · exact hn'
    · rcases hn with he | hn
      · rw [hn', he]
      · exact absurd hn' (hn t ht)

theorem columns_run_reordered :
    (run [.create "R" ["b", "a"], .command ":insert R 1, x",
        .insertTuple "R" (.ofPairs [("a", .text "y"), ("b", .text "z")])]).stored? "R" =
      some ⟨["b", "a"], [.ofPairs [("b", .number (.ofNat 1)), ("a", .text "x")],
        .ofPairs [("b", .text "z"), ("a", .text "y")]]⟩ ∧
    ∀ t ∈ [Tuple.ofPairs [("b", .number (.ofNat 1)), ("a", .text "x")],
      .ofPairs [("b", .text "z"), ("a", .text "y")]], t.names = ["b", "a"] := by
  have h : (run [.create "R" ["b", "a"], .command ":insert R 1, x",
      .insertTuple "R" (.ofPairs [("a", .text "y"), ("b", .text "z")])]).stored? "R" =
    some ⟨["b", "a"], [.ofPairs [("b", .number (.ofNat 1)), ("a", .text "x")],
      .ofPairs [("b", .text "z"), ("a", .text "y")]]⟩ := by decide +kernel
  exact ⟨h, (columns_run _ _ _ h).2.2 (.inr (by decide))⟩

/-- A tuple without attributes stays behind when the next one brings the columns. -/
theorem columns_adopted_late :
    (run [.insertRelation "R" [.empty, .ofPairs [("a", .text "x")]]]).stored? "R" =
      some ⟨["a"], [.empty, .ofPairs [("a", .text "x")]]⟩ ∧ Tuple.empty.names ≠ ["a"] := by
  decide

end Store

end RelAlg
