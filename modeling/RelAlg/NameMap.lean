set_option autoImplicit false

namespace RelAlg

variable {α : Type}

namespace NameMap

def put (name : String) (a : α) : List (String × α) → List (String × α)
  | [] => [(name, a)]
  | e :: es =>
    if name < e.1 then (name, a) :: e :: es
    else if name = e.1 then (name, a) :: es
    else e :: put name a es

theorem mem_put {name : String} {a : α} {es : List (String × α)} {x : String × α}
    (h : x ∈ put name a es) : x = (name, a) ∨ x ∈ es := by
  induction es with
  | nil => simpa [put] using h
  | cons e es ih =>
    simp only [put] at h
    split at h
    · simpa using h
    · split at h
      · rcases List.mem_cons.1 h with rfl | h
        · exact .inl rfl
        · exact .inr (List.mem_cons_of_mem _ h)
      · rcases List.mem_cons.1 h with rfl | h
        · exact .inr List.mem_cons_self
        · exact (ih h).imp_right (List.mem_cons_of_mem _)

theorem sorted_put {name : String} {a : α} {es : List (String × α)}
    (h : es.Pairwise fun x y => x.1 < y.1) : (put name a es).Pairwise fun x y => x.1 < y.1 := by
  induction es with
  | nil => simp [put]
  | cons e es ih =>
    have ⟨he, hes⟩ := List.pairwise_cons.1 h
    simp only [put]
    split
    · rename_i hlt
      refine List.pairwise_cons.2 ⟨fun x hx => ?_, h⟩
      rcases List.mem_cons.1 hx with rfl | hx
      · exact hlt
      · exact String.lt_trans hlt (he x hx)
    · split
      · rename_i heq
        exact List.pairwise_cons.2 ⟨fun x hx => heq ▸ he x hx, hes⟩
      · rename_i hlt hne
        refine List.pairwise_cons.2 ⟨fun x hx => ?_, ih hes⟩
        rcases mem_put hx with rfl | hx
        · rcases Decidable.em (e.1 < name) with hgt | hgt
          · exact hgt
          · exact absurd (String.le_antisymm (String.not_lt.1 hgt) (String.not_lt.1 hlt)) hne
        · exact he x hx

end NameMap

/-- Values under distinct names, sorted by name. -/
structure NameMap (α : Type) where
  entries : List (String × α)
  sorted : entries.Pairwise fun x y => x.1 < y.1

namespace NameMap

def empty : NameMap α := ⟨[], List.Pairwise.nil⟩

instance : Inhabited (NameMap α) := ⟨empty⟩

def names (m : NameMap α) : List String := m.entries.map Prod.fst

def get? (m : NameMap α) (name : String) : Option α := m.entries.lookup name

def contains (m : NameMap α) (name : String) : Bool := (m.get? name).isSome

def insert (m : NameMap α) (name : String) (a : α) : NameMap α :=
  ⟨put name a m.entries, sorted_put m.sorted⟩

def erase (m : NameMap α) (name : String) : NameMap α :=
  ⟨m.entries.filter (·.1 != name), m.sorted.filter _⟩

def ofList (es : List (String × α)) : NameMap α :=
  es.foldl (fun m e => m.insert e.1 e.2) empty

theorem lookup_put (name : String) (a : α) (es : List (String × α)) (k : String) :
    (put name a es).lookup k = if k = name then some a else es.lookup k := by
  induction es with
  | nil => grind [put]
  | cons e es ih =>
    obtain ⟨n, b⟩ := e
    grind [put]

theorem lookup_filter_ne (name k : String) (es : List (String × α)) :
    (es.filter (·.1 != name)).lookup k = if k = name then none else es.lookup k := by
  induction es with
  | nil => simp
  | cons e es ih =>
    obtain ⟨n, b⟩ := e
    grind

theorem get?_insert (m : NameMap α) (name : String) (a : α) (k : String) :
    (m.insert name a).get? k = if k = name then some a else m.get? k :=
  lookup_put name a m.entries k

theorem get?_erase (m : NameMap α) (name k : String) :
    (m.erase name).get? k = if k = name then none else m.get? k :=
  lookup_filter_ne name k m.entries

theorem ext {m n : NameMap α} (h : m.entries = n.entries) : m = n := by
  cases m; cases n; simp_all

end NameMap

end RelAlg
