import RelAlg.Tuple

set_option autoImplicit false

namespace RelAlg

namespace Attributes

theorem set_of_not_mem {name : String} (value : Value) {xs : List Attribute}
    (h : name ∉ xs.map Prod.fst) : set name value xs = xs ++ [(name, value)] := by
  induction xs with
  | nil => rfl
  | cons a xs ih =>
    rw [List.map_cons, List.mem_cons, not_or] at h
    rw [set, if_neg (Ne.symm h.1), ih h.2, List.cons_append]

theorem lookup_cons (a : Attribute) (xs : List Attribute) (k : String) :
    (a :: xs).lookup k = if k = a.1 then some a.2 else xs.lookup k := by
  obtain ⟨n, w⟩ := a
  rw [List.lookup_cons]
  by_cases hk : k = n
  · subst hk
    simp
  · rw [beq_eq_false_iff_ne.2 hk, if_neg hk]

theorem lookup_eq_some_iff {xs : List Attribute} (h : (xs.map Prod.fst).Nodup) {k : String}
    {v : Value} : xs.lookup k = some v ↔ (k, v) ∈ xs := by
  induction xs with
  | nil => simp
  | cons a xs ih =>
    obtain ⟨n, w⟩ := a
    rw [List.map_cons, List.nodup_cons] at h
    rw [lookup_cons, List.mem_cons, Prod.mk.injEq]
    by_cases hk : k = n
    · subst hk
      have hn : (k, v) ∉ xs := fun hm => h.1 (List.mem_map.2 ⟨(k, v), hm, rfl⟩)
      simp [hn, eq_comm]
    · simp [hk, ih h.2]

end Attributes

theorem eraseDups_of_nodup {xs : List String} (h : xs.Nodup) : xs.eraseDups = xs := by
  induction xs with
  | nil => rfl
  | cons x xs ih =>
    obtain ⟨hx, hxs⟩ := List.nodup_cons.1 h
    have hf : xs.filter (fun y => !y == x) = xs := by
      refine List.filter_eq_self.2 fun y hy => ?_
      rw [Bool.not_eq_true', beq_eq_false_iff_ne]
      rintro rfl
      exact hx hy
    rw [List.eraseDups_cons, hf, ih hxs]

namespace Tuple

theorem mem_names_iff {t : Tuple} {k : String} : k ∈ t.names ↔ (t.get? k).isSome = true :=
  (contains_iff t k).symm

theorem get?_eq_none_iff {t : Tuple} {k : String} : t.get? k = none ↔ k ∉ t.names := by
  rw [mem_names_iff]
  cases t.get? k <;> simp

theorem mem_attributes_iff {t : Tuple} {k : String} {v : Value} :
    (k, v) ∈ t.attributes ↔ t.get? k = some v :=
  (Attributes.lookup_eq_some_iff t.nodup).symm

def setAll (t : Tuple) (pairs : List Attribute) : Tuple :=
  pairs.foldl (fun t a => t.set a.1 a.2) t

theorem setAll_cons (t : Tuple) (a : Attribute) (pairs : List Attribute) :
    t.setAll (a :: pairs) = (t.set a.1 a.2).setAll pairs := rfl

theorem attributes_setAll {t : Tuple} {pairs : List Attribute}
    (h : (t.names ++ pairs.map Prod.fst).Nodup) :
    (t.setAll pairs).attributes = t.attributes ++ pairs := by
  induction pairs generalizing t with
  | nil => exact (List.append_nil _).symm
  | cons a pairs ih =>
    have hn : a.1 ∉ t.names := by
      intro hm
      exact (List.nodup_append.1 h).2.2 _ hm _ List.mem_cons_self rfl
    have hs : (t.set a.1 a.2).names = t.names ++ [a.1] := by rw [names_set, if_neg hn]
    have ha : (t.set a.1 a.2).attributes = t.attributes ++ [a] :=
      Attributes.set_of_not_mem a.2 hn
    rw [setAll_cons, ih (by rw [hs, List.append_assoc]; exact h), ha, List.append_assoc]
    rfl

/-- Set one after the other, names stand in the order in which they first came. -/
theorem names_setAll (t : Tuple) (pairs : List Attribute) :
    (t.setAll pairs).names = (t.names ++ pairs.map Prod.fst).eraseDups := by
  induction pairs generalizing t with
  | nil => rw [List.map_nil, List.append_nil, eraseDups_of_nodup t.nodup_names]; rfl
  | cons a pairs ih =>
    rw [setAll_cons, ih, names_set, List.map_cons]
    split
    · rename_i hm
      have hr : (a.1 :: pairs.map Prod.fst).removeAll t.names =
          (pairs.map Prod.fst).removeAll t.names := by
        simp [List.removeAll, hm]
      rw [List.eraseDups_append, List.eraseDups_append, hr]
    · rw [List.append_assoc, List.singleton_append]

theorem names_ofPairs (pairs : List Attribute) :
    (ofPairs pairs).names = (pairs.map Prod.fst).eraseDups :=
  names_setAll empty pairs

theorem mem_names_ofPairs {pairs : List Attribute} {k : String} :
    k ∈ (ofPairs pairs).names ↔ k ∈ pairs.map Prod.fst := by
  rw [names_ofPairs, List.mem_eraseDups]

theorem ofPairs_attributes (t : Tuple) : ofPairs t.attributes = t := by
  have h : (empty.setAll t.attributes).attributes = empty.attributes ++ t.attributes :=
    attributes_setAll (by rw [names_empty, List.nil_append]; exact t.nodup)
  obtain ⟨attributes, nodup⟩ := t
  rw [← show empty.setAll attributes = ofPairs attributes from rfl]
  cases hs : empty.setAll attributes
  rw [hs] at h
  congr

theorem get?_setAll {pairs : List Attribute} (h : (pairs.map Prod.fst).Nodup) (t : Tuple)
    (k : String) : (t.setAll pairs).get? k = (pairs.lookup k).or (t.get? k) := by
  induction pairs generalizing t with
  | nil => rfl
  | cons a pairs ih =>
    rw [List.map_cons, List.nodup_cons] at h
    rw [setAll_cons, ih h.2, get?_set, Attributes.lookup_cons]
    by_cases hk : k = a.1
    · have hl : pairs.lookup k = none := by
        rw [Option.eq_none_iff_forall_ne_some]
        intro v hv
        rw [Attributes.lookup_eq_some_iff h.2] at hv
        exact h.1 (hk ▸ List.mem_map_of_mem hv)
      simp [hk ▸ hl, hk]
    · simp [hk]

theorem get?_merge (t u : Tuple) (k : String) : (t.merge u).get? k = (u.get? k).or (t.get? k) :=
  get?_setAll u.nodup t k

theorem mem_names_merge {t u : Tuple} {k : String} :
    k ∈ (t.merge u).names ↔ k ∈ t.names ∨ k ∈ u.names := by
  rw [mem_names_iff, mem_names_iff, mem_names_iff, get?_merge]
  cases u.get? k <;> cases t.get? k <;> simp

/-- The attributes that a projection sets. -/
def picked (t : Tuple) (names : List String) : List Attribute :=
  names.filterMap fun name => (t.get? name).map (name, ·)

theorem project_eq (t : Tuple) (names : List String) :
    t.project names = empty.setAll (t.picked names) := rfl

theorem get?_setAll_picked (t u : Tuple) (names : List String) (k : String) :
    (u.setAll (t.picked names)).get? k =
      if k ∈ names then (t.get? k).or (u.get? k) else u.get? k := by
  induction names generalizing u with
  | nil => rfl
  | cons n names ih =>
    cases hn : t.get? n with
    | none =>
      have hp : t.picked (n :: names) = t.picked names := by simp [picked, hn]
      rw [hp, ih]
      by_cases hk : k = n
      · subst hk
        simp [hn]
      · simp [hk]
    | some v =>
      have hp : t.picked (n :: names) = (n, v) :: t.picked names := by simp [picked, hn]
      rw [hp, setAll_cons, ih, get?_set]
      by_cases hk : k = n
      · subst hk
        simp [hn]
      · simp [hk]

theorem get?_project (t : Tuple) (names : List String) (k : String) :
    (t.project names).get? k = if k ∈ names then t.get? k else none := by
  rw [project_eq, get?_setAll_picked, show empty.get? k = none from rfl, Option.or_none]

theorem mem_names_project {t : Tuple} {names : List String} {k : String} :
    k ∈ (t.project names).names ↔ k ∈ names ∧ k ∈ t.names := by
  rw [mem_names_iff, mem_names_iff, get?_project]
  by_cases hk : k ∈ names <;> simp [hk]

theorem map_fst_picked {t : Tuple} {names : List String} (h : ∀ n ∈ names, n ∈ t.names) :
    (t.picked names).map Prod.fst = names := by
  induction names with
  | nil => rfl
  | cons n names ih =>
    obtain ⟨v, hv⟩ := Option.isSome_iff_exists.1 (mem_names_iff.1 (h n List.mem_cons_self))
    have hp : t.picked (n :: names) = (n, v) :: t.picked names := by simp [picked, hv]
    rw [hp, List.map_cons, ih fun m hm => h m (List.mem_cons_of_mem _ hm)]

theorem names_project {t : Tuple} {names : List String} (hd : names.Nodup)
    (h : ∀ n ∈ names, n ∈ t.names) : (t.project names).names = names := by
  have hp := map_fst_picked h
  have hn : (empty.names ++ (t.picked names).map Prod.fst).Nodup := by
    rw [names_empty, List.nil_append, hp]
    exact hd
  have ha : (t.project names).attributes = t.picked names := attributes_setAll hn
  rw [Tuple.names, ha, hp]

theorem picked_map_fst {t : Tuple} {xs : List Attribute} (h : ∀ a ∈ xs, a ∈ t.attributes) :
    t.picked (xs.map Prod.fst) = xs := by
  induction xs with
  | nil => rfl
  | cons a xs ih =>
    have ha := mem_attributes_iff.1 (h a List.mem_cons_self)
    have hp : t.picked ((a :: xs).map Prod.fst) = a :: t.picked (xs.map Prod.fst) := by
      simp [picked, ha]
    rw [hp, ih fun b hb => h b (List.mem_cons_of_mem a hb)]

theorem project_names (t : Tuple) : t.project t.names = t := by
  rw [project_eq, names, picked_map_fst fun _ ha => ha]
  exact ofPairs_attributes t

end Tuple

end RelAlg
