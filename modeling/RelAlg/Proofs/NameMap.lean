import RelAlg.NameMap

set_option autoImplicit false

namespace RelAlg.NameMap

variable {α : Type}

theorem mem_of_lookup {es : List (String × α)} {name : String} {a : α}
    (h : es.lookup name = some a) : (name, a) ∈ es := by
  induction es with
  | nil => cases h
  | cons e es ih =>
    obtain ⟨n, b⟩ := e
    rw [List.lookup_cons] at h
    by_cases hn : name = n
    · subst hn
      rw [beq_self_eq_true] at h
      cases h
      exact List.mem_cons_self
    · rw [beq_eq_false_iff_ne.2 hn] at h
      exact List.mem_cons_of_mem _ (ih h)

theorem mem_of_get? {m : NameMap α} {name : String} {a : α} (h : m.get? name = some a) :
    (name, a) ∈ m.entries :=
  mem_of_lookup h

theorem get?_of_mem {m : NameMap α} {e : String × α} (h : e ∈ m.entries) :
    m.get? e.1 = some e.2 := by
  obtain ⟨es, hs⟩ := m
  rw [get?]
  dsimp only at h ⊢
  induction es with
  | nil => cases h
  | cons f es ih =>
    obtain ⟨hlt, hes⟩ := List.pairwise_cons.1 hs
    rcases List.mem_cons.1 h with rfl | h
    · exact List.lookup_cons_self
    · have hne : e.1 ≠ f.1 := fun he => String.lt_irrefl _ (he ▸ hlt e h)
      rw [List.lookup_cons, beq_eq_false_iff_ne.2 hne]
      exact ih hes h

theorem put_of_lookup {es : List (String × α)} {name : String} {a : α}
    (hs : es.Pairwise fun x y => x.1 < y.1) (h : es.lookup name = some a) : put name a es = es := by
  induction es with
  | nil => cases h
  | cons e es ih =>
    obtain ⟨n, b⟩ := e
    obtain ⟨hlt, hs⟩ := List.pairwise_cons.1 hs
    by_cases hn : name = n
    · subst hn
      rw [List.lookup_cons_self] at h
      cases h
      rw [put, if_neg (String.lt_irrefl name), if_pos rfl]
    · rw [List.lookup_cons, beq_eq_false_iff_ne.2 hn] at h
      have hgt : n < name := hlt _ (mem_of_lookup h)
      rw [put, if_neg (String.lt_asymm hgt), if_neg hn, ih hs h]

theorem insert_of_get? {m : NameMap α} {name : String} {a : α} (h : m.get? name = some a) :
    m.insert name a = m :=
  ext (put_of_lookup m.sorted h)

theorem erase_of_get? {m : NameMap α} {name : String} (h : m.get? name = none) :
    m.erase name = m := by
  refine ext (List.filter_eq_self.2 fun e he => ?_)
  exact bne_comm.trans (List.lookup_eq_none_iff.1 h e he)

theorem mem_of_mem_ofList {es : List (String × α)} {e : String × α}
    (h : e ∈ (ofList es).entries) : e ∈ es := by
  suffices hs : ∀ (m : NameMap α), e ∈ (es.foldl (fun m e => m.insert e.1 e.2) m).entries →
      e ∈ m.entries ∨ e ∈ es from (hs empty h).resolve_left List.not_mem_nil
  clear h
  induction es with
  | nil => exact fun m hm => .inl hm
  | cons f es ih =>
    intro m hm
    rcases ih _ hm with hm | hm
    · rcases mem_put hm with rfl | hm
      · exact .inr List.mem_cons_self
      · exact .inl hm
    · exact .inr (List.mem_cons_of_mem f hm)

theorem put_last {es : List (String × α)} {name : String} (a : α) (h : ∀ e ∈ es, e.1 < name) :
    put name a es = es ++ [(name, a)] := by
  induction es with
  | nil => rfl
  | cons e es ih =>
    obtain ⟨he, hes⟩ := List.forall_mem_cons.1 h
    have hne : name ≠ e.1 := fun hn => String.lt_irrefl _ (hn ▸ he)
    rw [put, if_neg (String.lt_asymm he), if_neg hne, ih hes, List.cons_append]

theorem lookup_last {es : List (String × α)} {name : String} (h : ∀ e ∈ es, e.1 < name) :
    es.lookup name = none := by
  refine List.lookup_eq_none_iff.2 fun e he => bne_iff_ne.2 fun hn => ?_
  exact String.lt_irrefl _ (hn ▸ h e he)

/-- What is sorted by name is taken as it is. -/
theorem entries_ofList {es : List (String × α)} (h : es.Pairwise fun x y => x.1 < y.1) :
    (ofList es).entries = es := by
  suffices hs : ∀ m : NameMap α, ((m.entries ++ es).Pairwise fun x y => x.1 < y.1) →
      (es.foldl (fun m e => m.insert e.1 e.2) m).entries = m.entries ++ es from hs empty h
  clear h
  induction es with
  | nil => exact fun m _ => (List.append_nil _).symm
  | cons e es ih =>
    intro m hm
    have hlast : (m.insert e.1 e.2).entries = m.entries ++ [e] :=
      put_last e.2 fun x hx => (List.pairwise_append.1 hm).2.2 x hx e List.mem_cons_self
    rw [List.foldl_cons, ih _ (by rwa [hlast, List.append_assoc]), hlast, List.append_assoc]
    rfl

variable {β : Type}

def map (f : α → β) (m : NameMap α) : NameMap β :=
  ⟨m.entries.map fun e => (e.1, f e.2), List.pairwise_map.2 m.sorted⟩

theorem names_map (f : α → β) (m : NameMap α) : (m.map f).names = m.names := by
  rw [names, map, List.map_map]
  rfl

theorem get?_map (f : α → β) (m : NameMap α) (name : String) :
    (m.map f).get? name = (m.get? name).map f := by
  rw [get?, get?, map]
  dsimp only
  induction m.entries with
  | nil => rfl
  | cons e es ih =>
    rw [List.map_cons, List.lookup_cons, List.lookup_cons, ih]
    split <;> rfl

end RelAlg.NameMap
