import RelAlg.Proofs.Store.Built
import RelAlg.Proofs.Text.Spans

set_option autoImplicit false

namespace RelAlg.Store

open Text (trimmed)

/-- A name without outer blanks, and some. -/
def Named (name : String) : Prop :=
  Text.trimmed name = name ∧ name.isEmpty = false

instance (name : String) : Decidable (Named name) :=
  inferInstanceAs (Decidable (Text.trimmed name = name ∧ name.isEmpty = false))

theorem trimmed_trimmed (name : String) : trimmed (trimmed name) = trimmed name := by
  rw [trimmed, trimmed, String.toList_ofList, Text.trim_trim]

theorem named_trimmed {name : String} (h : (trimmed name).isEmpty = false) :
    Named (trimmed name) :=
  ⟨trimmed_trimmed name, h⟩

variable {s : Store} {name : String}

theorem Named.framed (h : Named name) : Text.Framed name.toList := by
  obtain ⟨ht, he⟩ := h
  refine ⟨fun hn => ?_, ?_⟩
  · rw [String.toList_eq_nil_iff.1 hn] at he
    cases he
  · rw [← String.toList_ofList (l := Text.trim name.toList)]
    exact congrArg String.toList ht

theorem named_of_newName {given : String} (h : s.newName given = .ok name) : Named name := by
  simp only [newName] at h
  split_ifs at h with he
  cases h
  exact named_trimmed (Bool.eq_false_iff.2 he)

theorem Built.named (h : Built s) : s.All fun name _ => Named name := by
  induction h with
  | empty =>
    intro name st hs
    cases hs
  | create _ hn _ ih => exact ih.put (named_of_newName hn)
  | insertRelation _ hn _ ih => exact ih.put (named_of_newName hn)
  | append _ hs _ ih => exact ih.put (ih _ _ hs)
  | replace _ hs _ ih => exact ih.put (ih _ _ hs)
  | delete _ hs _ ih => exact ih.put (ih _ _ hs)
  | drop _ _ ih => exact ih.erase _

theorem newName_of_free (h : Named name) (hs : s.stored? name = none) :
    s.newName name = .ok name := by
  have hc : ¬s.contains name = true := by
    rw [contains, NameMap.contains, show s.relations.get? name = none from hs]
    exact Bool.false_ne_true
  rw [newName, h.1, h.2, if_neg Bool.false_ne_true, if_neg hc]

/-- None of the columns is blank, and none is taken or stands twice. -/
def Fresh (taken columns : List String) : Prop :=
  (∀ column ∈ columns, (trimmed column).isEmpty = false) ∧ (taken ++ columns.map trimmed).Nodup

variable {taken columns checked : List String}

theorem fresh_nil (h : taken.Nodup) : Fresh taken [] :=
  ⟨List.forall_mem_nil _, (List.append_nil taken).symm ▸ h⟩

theorem fresh_cons {column : String} : Fresh taken (column :: columns) ↔
    (trimmed column).isEmpty = false ∧ Fresh (taken ++ [trimmed column]) columns := by
  rw [Fresh, Fresh, List.forall_mem_cons, List.map_cons, List.append_assoc, List.singleton_append,
    and_assoc]

theorem not_fresh_of_mem {column : String} (h : column ∈ taken) :
    ¬Fresh (taken ++ [column]) columns := by
  rintro ⟨-, hd⟩
  have hd := (List.nodup_append.1 hd).1
  exact (List.nodup_append.1 hd).2.2 column h column (List.mem_singleton_self column) rfl

/-- The columns are taken as they are trimmed if they are fresh, and else one of them is named. -/
theorem newColumns_fresh (name : String) (ht : taken.Nodup) (hne : taken ++ columns ≠ []) :
    (Fresh taken columns ∧ newColumns name taken columns = .ok (taken ++ columns.map trimmed)) ∨
      (¬Fresh taken columns ∧ ∃ column, newColumns name taken columns =
        .error (.invalidColumn name column) ∨
        newColumns name taken columns = .error (.duplicateColumn name column)) := by
  induction columns generalizing taken with
  | nil =>
    refine .inl ⟨fresh_nil ht, ?_⟩
    rw [List.append_nil] at hne
    rw [newColumns, if_neg fun he => hne (List.isEmpty_iff.1 he), List.map_nil, List.append_nil]
  | cons column columns ih =>
    simp only [newColumns]
    split
    · rename_i hb
      refine .inr ⟨fun h => ?_, _, .inl rfl⟩
      rw [(fresh_cons.1 h).1] at hb
      cases hb
    · rename_i hb
      have hb := Bool.eq_false_iff.2 hb
      split
      · rename_i hm
        refine .inr ⟨fun h => ?_, _, .inr rfl⟩
        exact not_fresh_of_mem (List.contains_iff_mem.1 hm) (fresh_cons.1 h).2
      · rename_i hm
        have hs : [trimmed column].Nodup := List.nodup_cons.2 ⟨List.not_mem_nil, List.nodup_nil⟩
        have ht' : (taken ++ [trimmed column]).Nodup := by
          rw [List.nodup_append]
          refine ⟨ht, hs, fun a ha b hb hab => hm ?_⟩
          rw [List.mem_singleton.1 hb] at hab
          exact List.contains_iff_mem.2 (hab ▸ ha)
        rcases ih ht' (by simp) with ⟨hf, he⟩ | ⟨hf, he⟩
        · refine .inl ⟨fresh_cons.2 ⟨hb, hf⟩, ?_⟩
          rw [he, List.append_assoc]
          rfl
        · exact .inr ⟨fun h => hf (fresh_cons.1 h).2, he⟩

theorem newColumns_ok (h : newColumns name [] columns = .ok checked) :
    checked.Nodup ∧ ∀ column ∈ checked, Named column := by
  by_cases hne : columns = []
  · rw [hne] at h
    cases h
  · rcases newColumns_fresh name List.nodup_nil hne with ⟨hf, he⟩ | ⟨-, _, he | he⟩
    · rw [he] at h
      cases h
      exact ⟨hf.2, List.forall_mem_map.2 fun column hc => named_trimmed (hf.1 column hc)⟩
    · rw [he] at h
      cases h
    · rw [he] at h
      cases h

end RelAlg.Store
