import RelAlg.Value

/-!
Tuples: values under distinct attribute names, kept in order. The order shows but does not count:
tuples are equal if they carry the same names with equal values, which is what their keys compare.
-/

set_option autoImplicit false

namespace RelAlg

abbrev Attribute := String × Value

namespace Attributes

def set (name : String) (value : Value) : List Attribute → List Attribute
  | [] => [(name, value)]
  | a :: rest => if a.1 = name then (name, value) :: rest else a :: set name value rest

theorem names_set (name : String) (value : Value) (xs : List Attribute) :
    (set name value xs).map Prod.fst =
      if name ∈ xs.map Prod.fst then xs.map Prod.fst else xs.map Prod.fst ++ [name] := by
  induction xs with
  | nil => simp [set]
  | cons a xs ih =>
    by_cases h : a.1 = name
    · simp [set, h]
    · have h' : name ≠ a.1 := fun e => h e.symm
      by_cases hm : name ∈ xs.map Prod.fst <;> simp_all [set]

theorem nodup_set (name : String) (value : Value) {xs : List Attribute}
    (h : (xs.map Prod.fst).Nodup) : ((set name value xs).map Prod.fst).Nodup := by
  rw [names_set]
  split
  · exact h
  · rename_i hm
    rw [List.nodup_append]
    exact ⟨h, by simp, by grind⟩

theorem lookup_set (name : String) (value : Value) (xs : List Attribute) (k : String) :
    (set name value xs).lookup k = if k = name then some value else xs.lookup k := by
  induction xs with
  | nil => grind [set]
  | cons a xs ih =>
    obtain ⟨n, v⟩ := a
    grind [set]

end Attributes

structure Tuple where
  attributes : List Attribute
  nodup : (attributes.map Prod.fst).Nodup
deriving DecidableEq

namespace Tuple

def empty : Tuple := ⟨[], by simp⟩

instance : Inhabited Tuple := ⟨empty⟩

def names (t : Tuple) : List String := t.attributes.map Prod.fst

def size (t : Tuple) : Nat := t.attributes.length

def isEmpty (t : Tuple) : Bool := t.attributes.isEmpty

def get? (t : Tuple) (name : String) : Option Value := t.attributes.lookup name

def contains (t : Tuple) (name : String) : Bool := (t.get? name).isSome

def set (t : Tuple) (name : String) (value : Value) : Tuple :=
  ⟨Attributes.set name value t.attributes, Attributes.nodup_set name value t.nodup⟩

/-- A later value for a name takes the place of the earlier one. -/
def ofPairs (pairs : List Attribute) : Tuple :=
  pairs.foldl (fun t a => t.set a.1 a.2) empty

/-- The listed attributes in the listed order; names that are not carried are skipped. -/
def project (t : Tuple) (names : List String) : Tuple :=
  ofPairs (names.filterMap fun name => (t.get? name).map (name, ·))

/-- All attributes of both; the second has the last word on shared names. -/
def merge (t u : Tuple) : Tuple :=
  u.attributes.foldl (fun t a => t.set a.1 a.2) t

def agreesOn (t u : Tuple) (names : List String) : Bool :=
  names.all fun name =>
    match t.get? name, u.get? name with
    | some a, some b => a.same b
    | _, _ => false

def same (t u : Tuple) : Bool :=
  t.size == u.size && t.attributes.all fun a => (u.get? a.1).any (a.2.same ·)

abbrev Key := List Attribute

def key (t : Tuple) : Key :=
  (t.attributes.map fun a => (a.1, a.2.canonical)).mergeSort fun a b => a.1 ≤ b.1

def toText (t : Tuple) : String :=
  "\x7b" ++ String.intercalate ", " (t.attributes.map fun a => a.1 ++ ": " ++ a.2.toText) ++ "\x7d"

instance : ToString Tuple := ⟨toText⟩

@[simp] theorem names_empty : empty.names = [] := rfl

theorem nodup_names (t : Tuple) : t.names.Nodup := t.nodup

theorem names_set (t : Tuple) (name : String) (value : Value) :
    (t.set name value).names = if name ∈ t.names then t.names else t.names ++ [name] :=
  Attributes.names_set name value t.attributes

theorem get?_set (t : Tuple) (name : String) (value : Value) (k : String) :
    (t.set name value).get? k = if k = name then some value else t.get? k :=
  Attributes.lookup_set name value t.attributes k

theorem contains_iff (t : Tuple) (name : String) : t.contains name = true ↔ name ∈ t.names := by
  simp only [contains, get?, names]
  induction t.attributes with
  | nil => simp
  | cons a xs ih =>
    obtain ⟨n, v⟩ := a
    grind

end Tuple

end RelAlg
