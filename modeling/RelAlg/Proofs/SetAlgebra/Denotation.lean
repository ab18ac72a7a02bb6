import Mathlib.Data.Finset.Prod
import RelAlg.Expr.Eval
import RelAlg.Proofs.Predicate.Truth
import RelAlg.Proofs.SetAlgebra.Row

set_option autoImplicit false

namespace RelAlg

namespace Row

def restrict (names : List String) (m : Row) : Row where
  entries := m.entries.filter (·.1 ∈ names)
  nodupKeys := Multiset.nodup_keys.1 <|
    Multiset.nodup_of_le (Multiset.map_le_map (Multiset.filter_le _ _)) m.nodupKeys.nodup_keys

def Agree (m m' : Row) : Prop :=
  ∀ n ∈ m.keys ∩ m'.keys, m.lookup n = m'.lookup n

instance (m m' : Row) : Decidable (Agree m m') :=
  inferInstanceAs (Decidable (∀ n ∈ m.keys ∩ m'.keys, m.lookup n = m'.lookup n))

theorem lookup_restrict (names : List String) (m : Row) (n : String) :
    (m.restrict names).lookup n = if n ∈ names then m.lookup n else none := by
  refine Option.ext fun v => ?_
  rw [Finmap.lookup_eq_some_iff, restrict, Multiset.mem_filter, ← Finmap.lookup_eq_some_iff]
  by_cases h : n ∈ names <;> simp [h]

end Row

namespace Rows

def schema (A : Finset Row) : Finset String :=
  A.biUnion Finmap.keys

def select (c : Condition) (A : Finset Row) : Option (Finset Row) :=
  if ∀ m ∈ A, ∀ n ∈ c.predicate.names, n ∈ m then
    some {m ∈ A | c.predicate.truth (m.lookup ·) = true}
  else none

def project (names : List String) (A : Finset Row) : Option (Finset Row) :=
  if A = ∅ ∨ ∀ n ∈ names, n ∈ schema A then some (A.image (Row.restrict names)) else none

/-- The unions of rows that agree on the names they share. -/
def join (A B : Finset Row) : Finset Row :=
  {p ∈ A ×ˢ B | p.1.Agree p.2}.image fun p => p.1 ∪ p.2

def binary (op : BinaryOp) (A B : Finset Row) : Option (Finset Row) :=
  if A = ∅ ∨ B = ∅ then none
  else
    match op with
    | .union => if (schema A).card = (schema B).card then some (A ∪ B) else none
    | .difference => if (schema A).card = (schema B).card then some (A \ B) else none
    | .join => if schema A ∩ schema B = ∅ then none else some (join A B)

variable {A B : Finset Row}

theorem project_of_fits {names : List String} (h : A = ∅ ∨ ∀ n ∈ names, n ∈ schema A) :
    project names A = some (A.image (Row.restrict names)) :=
  if_pos h

theorem project_of_not_fits {names : List String} (h : ¬ (A = ∅ ∨ ∀ n ∈ names, n ∈ schema A)) :
    project names A = none :=
  if_neg h

theorem binary_of_empty (op : BinaryOp) (h : A = ∅ ∨ B = ∅) : binary op A B = none :=
  if_pos h

theorem binary_union (hA : A ≠ ∅) (hB : B ≠ ∅) : binary .union A B =
    if (schema A).card = (schema B).card then some (A ∪ B) else none :=
  if_neg (not_or.2 ⟨hA, hB⟩)

theorem binary_difference (hA : A ≠ ∅) (hB : B ≠ ∅) : binary .difference A B =
    if (schema A).card = (schema B).card then some (A \ B) else none :=
  if_neg (not_or.2 ⟨hA, hB⟩)

theorem binary_join (hA : A ≠ ∅) (hB : B ≠ ∅) : binary .join A B =
    if schema A ∩ schema B = ∅ then none else some (join A B) :=
  if_neg (not_or.2 ⟨hA, hB⟩)

end Rows

/-- The set of rows that an expression stands for in a store. -/
def Expr.denote (s : Store) : Expr → Option (Finset Row)
  | relation name => (s.get? name).map Relation.rows
  | select c e => (e.denote s).bind (Rows.select c)
  | project names e => (e.denote s).bind (Rows.project names)
  | rename _ e => e.denote s
  | binary op l r => (l.denote s).bind fun A => (r.denote s).bind (Rows.binary op A)

end RelAlg
