import RelAlg.Proofs.SetAlgebra.Row

set_option autoImplicit false

namespace RelAlg.Tuple

variable {t u : Tuple}

theorem row_eq_iff : t.row = u.row ↔
    ∀ n, (t.get? n).map Value.canonical = (u.get? n).map Value.canonical := by
  constructor
  · intro h n
    rw [← lookup_row, ← lookup_row, h]
  · intro h
    refine Finmap.ext_lookup fun n => ?_
    rw [lookup_row, lookup_row, h]

theorem key_eq_iff_row : t.key = u.key ↔ t.row = u.row := by
  rw [← key_row, ← key_row, Row.key_injective.eq_iff]

/-- Each attribute of the one is found in the other with an equal value. -/
theorem all_found_iff : (t.attributes.all fun a => (u.get? a.1).any (a.2.same ·)) = true ↔
    ∀ n v, t.get? n = some v → (u.get? n).map Value.canonical = some v.canonical := by
  rw [List.all_eq_true]
  constructor
  · intro h n v hv
    have ha := h (n, v) (mem_attributes_iff.2 hv)
    obtain ⟨w, hw, hs⟩ := (Option.any_eq_true _ _).1 ha
    rw [hw, Option.map_some, Value.same_iff.1 hs]
  · rintro h ⟨n, v⟩ ha
    obtain ⟨w, hw, hc⟩ := Option.map_eq_some_iff.1 (h n v (mem_attributes_iff.1 ha))
    exact (Option.any_eq_true _ _).2 ⟨w, hw, Value.same_iff.2 hc.symm⟩

theorem same_iff_row : t.same u = true ↔ t.row = u.row := by
  rw [same, Bool.and_eq_true, beq_iff_eq, all_found_iff, row_eq_iff]
  constructor
  · rintro ⟨hlen, hall⟩ n
    have hsub : t.names ⊆ u.names := by
      intro k hk
      obtain ⟨v, hv⟩ := Option.isSome_iff_exists.1 (mem_names_iff.1 hk)
      rw [mem_names_iff, ← Option.isSome_map (f := Value.canonical), hall k v hv]
      rfl
    -- as many names and none of them twice, so the other tuple carries no further one
    have hperm : t.names.Perm u.names := by
      refine (List.subperm_of_subset t.nodup_names hsub).perm_of_length_le ?_
      rw [names, names, List.length_map, List.length_map]
      exact hlen.ge
    cases hv : t.get? n with
    | some v => exact (hall n v hv).symm
    | none =>
      have hu : u.get? n = none := by
        rw [get?_eq_none_iff, ← hperm.mem_iff, ← get?_eq_none_iff]
        exact hv
      rw [hu]
  · intro h
    have hperm : t.names.Perm u.names := by
      refine (List.perm_ext_iff_of_nodup t.nodup_names u.nodup_names).2 fun k => ?_
      rw [mem_names_iff, mem_names_iff, ← Option.isSome_map (f := Value.canonical), h,
        Option.isSome_map]
    refine ⟨?_, fun n v hv => ?_⟩
    · have hlen := hperm.length_eq
      rwa [names, names, List.length_map, List.length_map] at hlen
    · rw [← h, hv, Option.map_some]

theorem same_iff_key : t.same u = true ↔ t.key = u.key := by
  rw [same_iff_row, key_eq_iff_row]

theorem mem_names_of_key (h : t.key = u.key) (n : String) : n ∈ t.names ↔ n ∈ u.names := by
  rw [← mem_row, ← mem_row, key_eq_iff_row.1 h]

end RelAlg.Tuple
