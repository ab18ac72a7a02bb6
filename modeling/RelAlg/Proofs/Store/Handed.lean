import RelAlg.Proofs.Store.Columns
import RelAlg.Proofs.Store.Kept

set_option autoImplicit false

namespace RelAlg

namespace Stored

variable {p : String → Prop} {st st' : Stored} {name : String} {t : Tuple}

theorem columns_conform {columns : List String} {u : Tuple} (h : ∀ c ∈ st.columns, p c)
    (ht : ∀ c ∈ t.names, p c) (hc : st.conform name t = .ok (columns, u)) :
    ∀ c ∈ columns, p c := by
  obtain ⟨-, rfl, -⟩ | ⟨rfl, -, -⟩ := conform_ok hc
  · exact ht
  · exact h

end Stored

namespace Store

theorem Sample.named_table {columns : List String} {rows : List (List Value)}
    (h : ∀ c ∈ columns, Named c) : ∀ t ∈ table columns rows, ∀ c ∈ t.names, Named c := by
  intro t ht c hc
  obtain ⟨row, -, rfl⟩ := List.mem_map.1 ht
  obtain ⟨a, ha, rfl⟩ := List.mem_map.1 (Tuple.mem_names_ofPairs.1 hc)
  exact h a.1 (List.of_mem_zip ha).1

theorem Sample.named_get? {name : String} {r : Relation} (h : get? name = some r) :
    ∀ t ∈ r, ∀ c ∈ t.names, Named c := by
  rw [get?] at h
  split_ifs at h
  · cases h
    exact named_table (by decide)
  · cases h
    exact named_table (by decide)

/-- Every column is a checked name or one that was handed over. -/
theorem kept_columns {p : String → Prop} (hp : ∀ c, Named c → p c) :
    Kept (fun st => ∀ c ∈ st.columns, p c) fun t => ∀ c ∈ t.names, p c where
  create h := fun c hc => hp c ((newColumns_ok h).2 c hc)
  first {r} h := by
    cases r with
    | nil => exact List.forall_mem_nil _
    | cons t r => exact h t List.mem_cons_self
  append h ht ha := by
    obtain ⟨columns, u, hc, rfl⟩ := Stored.append_ok ha
    exact Stored.columns_conform h ht hc
  replace h ht hr := by
    obtain ⟨columns, u, hc, rfl⟩ := Stored.replace_ok hr
    exact Stored.columns_conform h ht hc
  delete h hd := by
    rw [Stored.delete_ok hd]
    exact h
  values h cs := fun c hc => by
    obtain ⟨a, ha, rfl⟩ := List.mem_map.1 (Tuple.mem_names_ofPairs.1 hc)
    exact h a.1 (List.of_mem_zip ha).1
  sample h := fun t ht c hc => hp c (Sample.named_get? h t ht c hc)

/-- The attribute names of the tuples that an action hands over. -/
def Action.handed : Action → List String
  | .insertRelation _ r => r.flatMap Tuple.names
  | .insertTuple _ t => t.names
  | .updateTuple _ _ t => t.names
  | .seed text =>
    ((Json.read? Json.namedRelations text).getD []).flatMap fun r => r.2.flatMap Tuple.names
  | _ => []

theorem Action.hands_handed (a : Action) {p : String → Prop} (h : ∀ c ∈ a.handed, p c) :
    a.Hands fun t => ∀ c ∈ t.names, p c := by
  cases a with
  | insertRelation name r =>
    exact fun t ht c hc => h c (List.mem_flatMap.2 ⟨t, ht, hc⟩)
  | insertTuple name t => exact h
  | updateTuple name index t => exact h
  | seed text =>
    intro rs hr r hm t ht c hc
    rw [handed, hr] at h
    exact h c (List.mem_flatMap.2 ⟨r, hm, List.mem_flatMap.2 ⟨t, ht, hc⟩⟩)
  | _ => trivial

/-- After any run relations stand under names that need no trimming and their columns are distinct.
A column is such a name too, unless a tuple was handed over with it. -/
theorem names_run (as : List Action) (name : String) (st : Stored)
    (h : (run as).stored? name = some st) :
    Named name ∧ st.columns.Nodup ∧
      ∀ column ∈ st.columns, Named column ∨ ∃ a ∈ as, column ∈ a.handed := by
  have hb := built_run as
  refine ⟨hb.named name st h, (hb.sound name st h).nodup, ?_⟩
  have hk := kept_columns (p := fun c => Named c ∨ ∃ a ∈ as, c ∈ a.handed) fun _ => .inl
  exact hk.run (fun a ha => a.hands_handed fun c hc => .inr ⟨a, ha, hc⟩) name st h

theorem names_run_trimmed :
    (run [.create "\u00a0R " [" a", "b\t"], .insertTuple "R"
        (.ofPairs [("b", .text "x"), ("a", .text "y")])]).stored? "R" =
      some ⟨["a", "b"], [.ofPairs [("a", .text "y"), ("b", .text "x")]]⟩ ∧
    Named "R" ∧ ["a", "b"].Nodup ∧ ∀ column ∈ ["a", "b"], Named column ∨
      ∃ a ∈ [Action.create "\u00a0R " [" a", "b\t"], .insertTuple "R"
        (.ofPairs [("b", .text "x"), ("a", .text "y")])], column ∈ a.handed := by
  have h : (run [.create "\u00a0R " [" a", "b\t"], .insertTuple "R"
      (.ofPairs [("b", .text "x"), ("a", .text "y")])]).stored? "R" =
    some ⟨["a", "b"], [.ofPairs [("a", .text "y"), ("b", .text "x")]]⟩ := by decide +kernel
  exact ⟨h, names_run _ _ _ h⟩

theorem names_run_blank :
    (run [.insertRelation "R" [.ofPairs [("", .text "x")]]]).stored? "R" =
      some ⟨[""], [.ofPairs [("", .text "x")]]⟩ ∧ ¬Named "" ∧
    (empty.create "R" [""]).map (fun s => s.stored? "R") = .error (.invalidColumn "R" "") := by
  decide

end Store

end RelAlg
