import RelAlg.Proofs.Json.Finite
import RelAlg.Proofs.Store.Columns
import RelAlg.Proofs.Store.Kept

set_option autoImplicit false

namespace RelAlg

namespace Stored

def Finite (st : Stored) : Prop :=
  st.tuples.Finite

variable {st st' : Stored} {name : String} {t : Tuple}

theorem finite_conform {columns : List String} {u : Tuple} (ht : t.Finite)
    (h : st.conform name t = .ok (columns, u)) : u.Finite := by
  obtain ⟨-, -, rfl⟩ | ⟨-, rfl, -⟩ := conform_ok h
  · exact ht
  · exact ht.project columns

theorem Finite.append (h : st.Finite) (ht : t.Finite) (ha : st.append name t = .ok st') :
    st'.Finite := by
  obtain ⟨columns, u, hc, rfl⟩ := append_ok ha
  exact List.forall_mem_append.2 ⟨h, List.forall_mem_singleton.2 (finite_conform ht hc)⟩

theorem Finite.replace (h : st.Finite) (ht : t.Finite) {index : Nat} {old : Tuple}
    (hr : st.replace name index t = .ok (old, st')) : st'.Finite := by
  obtain ⟨columns, u, hc, rfl⟩ := replace_ok hr
  intro x hx
  rcases List.mem_or_eq_of_mem_set hx with hx | rfl
  · exact h x hx
  · exact finite_conform ht hc

theorem Finite.delete (h : st.Finite) {index : Nat} {old : Tuple}
    (hd : st.delete name index = .ok (old, st')) : st'.Finite := by
  rw [delete_ok hd]
  exact fun x hx => h x (List.mem_of_mem_eraseIdx hx)

end Stored

namespace Store

def Finite (s : Store) : Prop :=
  s.All fun _ st => st.Finite

namespace Sample

theorem finite_whole {n : Nat} (h : n ≤ 2 ^ 64) : (whole n).Finite :=
  Value.finite_number (Magnitude.isFinite_ofNat h)

theorem finite_table {columns : List String} {rows : List (List Value)}
    (h : ∀ row ∈ rows, ∀ v ∈ row, v.Finite) : (table columns rows).Finite := by
  intro t ht
  obtain ⟨row, hr, rfl⟩ := List.mem_map.1 ht
  exact Tuple.finite_ofPairs fun a ha => h row hr a.2 (List.of_mem_zip ha).2

theorem finite_students : students.Finite :=
  finite_table (by simp [text, Value.finite_text, finite_whole])

theorem finite_courses : courses.Finite :=
  finite_table (by simp [text, Value.finite_text, finite_whole])

theorem finite_get? {name : String} {r : Relation} (h : get? name = some r) : r.Finite := by
  rw [get?] at h
  split_ifs at h
  · cases h
    exact finite_students
  · cases h
    exact finite_courses

end Sample

/-- Every tuple that is handed over has finite numbers. Lines, seeds and samples hand none over. -/
def Action.Finite : Action → Prop
  | .insertRelation _ r => r.Finite
  | .insertTuple _ t => t.Finite
  | .updateTuple _ _ t => t.Finite
  | _ => True

theorem Action.Finite.hands {a : Action} (h : a.Finite) : a.Hands Tuple.Finite := by
  cases a with
  | insertRelation name r => exact h
  | insertTuple name t => exact h
  | updateTuple name index t => exact h
  | seed text => exact fun rs hr => Json.finite_of_read? hr
  | _ => trivial

theorem finite_parseValues (cs : List Char) : ∀ v ∈ Command.parseValues cs, v.Finite := by
  intro v hv
  obtain ⟨s, -, rfl⟩ := List.mem_map.1 hv
  exact Value.finite_ofInput s

theorem kept_finite : Kept Stored.Finite Tuple.Finite where
  create _ := List.forall_mem_nil _
  first _ := List.forall_mem_nil _
  append h := h.append
  replace h ht := h.replace ht
  delete h := h.delete
  values _ cs := Tuple.finite_ofPairs fun a ha => finite_parseValues cs a.2 (List.of_mem_zip ha).2
  sample := Sample.finite_get?

theorem finite_run {as : List Action} (ha : ∀ a ∈ as, a.Finite) : (run as).Finite :=
  kept_finite.run fun a h => (ha a h).hands

end Store

end RelAlg
