import RelAlg.Json.Reader
import RelAlg.Proofs.Tuple.Content

set_option autoImplicit false

namespace RelAlg

/-- What a value, a text or a list gives to a hash function. -/
inductive HashPart where
  | tag (kind : Nat)
  | bits (n : Nat)
  | text (s : String)
  | length (n : Nat)
deriving DecidableEq

namespace Number

def nanBits : Nat := 0x7FF8000000000000

def signBit : Nat := 0x8000000000000000

/-- The bits of a double, with one pattern for zero and one for no-number. -/
def bits : Number → Nat
  | nan => nanBits
  | real negative m => if m.rank = 0 then 0 else m.rank + if negative then signBit else 0

theorem bits_canonical (a : Number) : a.canonical.bits = a.bits := by
  cases a with
  | nan => rfl
  | real s m => by_cases h : m.rank = 0 <;> simp [canonical, bits, h, zero, Magnitude.zero]

theorem topRank_lt_nanBits : Magnitude.topRank < nanBits := by decide

theorem nanBits_lt_signBit : nanBits < signBit := by decide

theorem bits_real_ne (s : Bool) (m : Magnitude) : (real s m).bits ≠ nanBits := by
  have hm := m.rank_le
  have ht := topRank_lt_nanBits
  have hs := nanBits_lt_signBit
  rw [bits]
  split
  · omega
  · cases s
    · rw [if_neg Bool.false_ne_true]
      omega
    · rw [if_pos rfl]
      omega

theorem bits_eq_zero_iff (s : Bool) (m : Magnitude) : (real s m).bits = 0 ↔ m.rank = 0 := by
  rw [bits]
  split <;> omega

theorem bits_eq_iff {a b : Number} : a.bits = b.bits ↔ a.canonical = b.canonical := by
  refine ⟨fun h => ?_, fun h => by rw [← bits_canonical, h, bits_canonical]⟩
  match a, b with
  | nan, nan => rfl
  | nan, real s m => exact absurd h.symm (bits_real_ne s m)
  | real s m, nan => exact absurd h (bits_real_ne s m)
  | real s m, real s' m' =>
    by_cases hz : m.rank = 0
    · have hz' : m'.rank = 0 := by rwa [← bits_eq_zero_iff s', ← h, bits_eq_zero_iff]
      rw [canonical, canonical, if_pos hz, if_pos hz']
    · have hz' : ¬m'.rank = 0 := by rwa [← bits_eq_zero_iff s', ← h, bits_eq_zero_iff]
      rw [bits, bits, if_neg hz, if_neg hz'] at h
      have hm := m.rank_le
      have hm' := m'.rank_le
      have ht := topRank_lt_nanBits
      have hs := nanBits_lt_signBit
      obtain ⟨rfl, hr⟩ : s = s' ∧ m.rank = m'.rank := by
        cases s <;> cases s' <;> simp only [reduceIte, Bool.false_eq_true] at h <;> simp <;> omega
      rw [Magnitude.ext_rank hr]

end Number

namespace Value

def hashed : Value → List HashPart
  | number n => [.tag 0, .bits n.bits]
  | text s => [.tag 1, .text s]

theorem hashed_canonical (v : Value) : v.canonical.hashed = v.hashed := by
  cases v with
  | number n => rw [canonical, hashed, hashed, Number.bits_canonical]
  | text s => rfl

theorem hashed_eq_iff {a b : Value} : a.hashed = b.hashed ↔ a.same b = true := by
  rw [same_iff]
  cases a <;> cases b <;> simp [hashed, canonical, Number.bits_eq_iff]

theorem length_hashed (v : Value) : v.hashed.length = 2 := by
  cases v <;> rfl

end Value

namespace Attributes

def same (xs ys : List Attribute) : Bool :=
  xs.length == ys.length && (xs.zip ys).all fun p => p.1.1 == p.2.1 && p.1.2.same p.2.2

theorem same_iff {xs ys : List Attribute} : same xs ys = true ↔
    xs.map (fun a => (a.1, a.2.canonical)) = ys.map fun a => (a.1, a.2.canonical) := by
  induction xs generalizing ys with
  | nil => cases ys <;> simp [same]
  | cons a xs ih =>
    cases ys with
    | nil => simp [same]
    | cons b ys =>
      rw [List.map_cons, List.map_cons, List.cons.injEq, ← ih, Prod.mk.injEq, ← Value.same_iff]
      simp only [same, List.length_cons, List.zip_cons_cons, List.all_cons, Bool.and_eq_true,
        beq_iff_eq, Nat.add_right_cancel_iff]
      exact and_left_comm

/-- What attributes give to a hash function can be read in one way only: each gives three parts. -/
theorem hashed_eq_iff {xs ys : List Attribute} :
    (xs.flatMap fun a => .text a.1 :: a.2.hashed) =
      (ys.flatMap fun a => HashPart.text a.1 :: a.2.hashed) ↔ same xs ys = true := by
  rw [same_iff]
  induction xs generalizing ys with
  | nil => cases ys <;> simp
  | cons a xs ih =>
    cases ys with
    | nil => simp
    | cons b ys =>
      have hlen : (HashPart.text a.1 :: a.2.hashed).length =
          (HashPart.text b.1 :: b.2.hashed).length := by
        rw [List.length_cons, List.length_cons, a.2.length_hashed, b.2.length_hashed]
      have hsplit {us vs : List HashPart} :
          (HashPart.text a.1 :: a.2.hashed) ++ us = (HashPart.text b.1 :: b.2.hashed) ++ vs ↔
            HashPart.text a.1 :: a.2.hashed = HashPart.text b.1 :: b.2.hashed ∧ us = vs :=
        ⟨fun h => List.append_inj h hlen, fun h => by rw [h.1, h.2]⟩
      rw [List.flatMap_cons, List.flatMap_cons, hsplit, ih, List.map_cons, List.map_cons,
        List.cons.injEq, List.cons.injEq, HashPart.text.injEq, Prod.mk.injEq, ← Value.same_iff,
        Value.hashed_eq_iff]

end Attributes

namespace Tuple

theorem names_merge (t u : Tuple) : (t.merge u).names = (t.names ++ u.names).eraseDups :=
  names_setAll t u.attributes

theorem map_fst_picked_eq (t : Tuple) (names : List String) :
    (t.picked names).map Prod.fst = names.filter t.contains := by
  induction names with
  | nil => rfl
  | cons n names ih =>
    cases hn : t.get? n with
    | none => simp_all [picked, contains]
    | some v => simp_all [picked, contains]

theorem names_project_eq (t : Tuple) (names : List String) :
    (t.project names).names = (names.filter t.contains).eraseDups := by
  rw [project_eq, names_setAll, map_fst_picked_eq, names_empty, List.nil_append]

/-- A decoded tuple is made of the members of its object as they stand. -/
theorem names_decoded {text : String} {t : Tuple} (h : Json.read? Json.tuple text = some t) :
    ∃ pairs, Json.read? (Json.bracketed '\x7b' '\x7d' (Json.member Json.value)) text = some pairs ∧
      t.names = (pairs.map Prod.fst).eraseDups := by
  rw [Json.read?] at h ⊢
  split at h
  · cases h
  · rename_i ts hts
    rw [Json.tuple] at h
    cases hb : Json.bracketed '\x7b' '\x7d' (Json.member Json.value) ts with
    | none =>
      rw [hb] at h
      cases h
    | some p =>
      obtain ⟨pairs, rest, hr⟩ := p
      rw [hb] at h
      cases rest with
      | nil =>
        cases h
        exact ⟨pairs, rfl, names_ofPairs pairs⟩
      | cons x rest => cases h

def sorted (t : Tuple) : List Attribute :=
  t.attributes.mergeSort fun a b => a.1 ≤ b.1

def hashed (t : Tuple) : List HashPart :=
  .length t.sorted.length :: t.sorted.flatMap fun a => .text a.1 :: a.2.hashed

variable {t u v : Tuple}

theorem key_eq_sorted (t : Tuple) : t.key = t.sorted.map fun a => (a.1, a.2.canonical) :=
  (List.map_mergeSort (f := fun a : Attribute => (a.1, a.2.canonical)) fun _ _ _ _ => rfl).symm

theorem same_sorted_iff : Attributes.same t.sorted u.sorted = true ↔ t.key = u.key := by
  rw [Attributes.same_iff, key_eq_sorted, key_eq_sorted]

theorem hashed_eq_key (t : Tuple) :
    t.hashed = .length t.key.length :: t.key.flatMap fun a => .text a.1 :: a.2.hashed := by
  rw [key_eq_sorted, List.length_map, List.flatMap_map, hashed]
  simp only [Value.hashed_canonical]

theorem hashed_eq_iff : t.hashed = u.hashed ↔ t.same u = true := by
  rw [same_iff_key]
  refine ⟨fun h => ?_, fun h => by rw [hashed_eq_key, hashed_eq_key, h]⟩
  exact same_sorted_iff.1 (Attributes.hashed_eq_iff.1 (List.cons.inj h).2)

end Tuple

/-- Membership by a hash table of the sorted attributes: the same hash, and then equal. -/
def Relation.holdsHashed (hash : List HashPart → UInt64) (r : Relation) (t : Tuple) : Bool :=
  r.any fun u => hash u.hashed == hash t.hashed && Attributes.same u.sorted t.sorted

theorem Relation.holdsHashed_eq (hash : List HashPart → UInt64) (r : Relation) (t : Tuple) :
    r.holdsHashed hash t = r.holds t := by
  rw [holdsHashed, holds]
  refine congrArg r.any (funext fun u => ?_)
  rw [Bool.eq_iff_iff, Bool.and_eq_true, beq_iff_eq, Tuple.same_sorted_iff, ← Tuple.same_iff_key]
  exact ⟨And.right, fun h => ⟨congrArg hash (Tuple.hashed_eq_iff.2 h), h⟩⟩

namespace Tuple

/-- Every way to make a tuple leaves each name standing once, where it first came; equality is an
equivalence and the same as equality of the sorted attributes, equal tuples and no others give the
same to a hash function, and to look through a relation finds what a hash table finds. -/
theorem same_equivalence_keys (t u v : Tuple) (r : Relation) (hash : List HashPart → UInt64) :
    (t.names.Nodup ∧
      (∀ pairs, (ofPairs pairs).names = (pairs.map Prod.fst).eraseDups) ∧
      (∀ name value, (t.set name value).names = (t.names ++ [name]).eraseDups) ∧
      (∀ names, (t.project names).names = (names.filter t.contains).eraseDups) ∧
      (t.merge u).names = (t.names ++ u.names).eraseDups ∧
      ∀ text, Json.read? Json.tuple text = some t → ∃ pairs,
        Json.read? (Json.bracketed '\x7b' '\x7d' (Json.member Json.value)) text = some pairs ∧
          t.names = (pairs.map Prod.fst).eraseDups) ∧
    (t.same u = true ↔ t.key = u.key) ∧
    (t.same u = true ↔ Attributes.same t.sorted u.sorted = true) ∧
    (t.same u = true ↔ t.hashed = u.hashed) ∧
    t.same t = true ∧ t.same u = u.same t ∧
    (t.same u = true → u.same v = true → t.same v = true) ∧
    r.holds t = r.holdsHashed hash t := by
  refine ⟨⟨t.nodup_names, names_ofPairs, fun name value => names_setAll t [(name, value)],
    t.names_project_eq, names_merge t u, fun _ => names_decoded⟩, same_iff_key, ?_,
    hashed_eq_iff.symm, ?_, ?_, ?_, ?_⟩
  · rw [same_iff_key, same_sorted_iff]
  · exact same_iff_key.2 rfl
  · rw [Bool.eq_iff_iff, same_iff_key, same_iff_key]
    exact eq_comm
  · rw [same_iff_key, same_iff_key, same_iff_key]
    exact Eq.trans
  · exact (r.holdsHashed_eq hash t).symm

theorem same_equivalence_keys_zeros :
    (ofPairs [("a", .number .zero), ("b", .number .nan)]).same
        (ofPairs [("b", .number .nan), ("a", .number (.negate .zero))]) = true ∧
      (ofPairs [("a", .number .zero), ("b", .number .nan)]).hashed =
        (ofPairs [("b", .number .nan), ("a", .number (.negate .zero))]).hashed := by
  have h : (ofPairs [("a", .number .zero), ("b", .number .nan)]).same
      (ofPairs [("b", .number .nan), ("a", .number (.negate .zero))]) = true := by decide
  exact ⟨h, (same_equivalence_keys _ _ empty [] fun _ => 0).2.2.2.1.1 h⟩

end Tuple

end RelAlg
