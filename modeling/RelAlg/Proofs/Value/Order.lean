import Mathlib.Data.String.Basic
import RelAlg.Value

set_option autoImplicit false

namespace RelAlg

namespace Number

theorem canonical_cases (a : Number) :
    (a.canonical = a ∧ ∀ s, a ≠ real s .zero) ∨ ∃ s, a = real s .zero := by
  match a with
  | nan => exact .inl ⟨rfl, fun s h => by cases h⟩
  | real s m =>
    by_cases hz : m.rank = 0
    · exact .inr ⟨s, by rw [show m = .zero from Magnitude.ext_rank hz]⟩
    · refine .inl ⟨if_neg hz, fun s' h => hz ?_⟩
      cases h
      rfl

theorem canonical_zero (s : Bool) : (real s .zero).canonical = zero := rfl

theorem eq_or_zeros {a b : Number} (h : a.canonical = b.canonical) :
    a = b ∨ ∃ s, a = real s .zero ∧ b = real (!s) .zero := by
  rcases a.canonical_cases with ⟨ha, hna⟩ | ⟨s, rfl⟩ <;>
    rcases b.canonical_cases with ⟨hb, hnb⟩ | ⟨s', rfl⟩
  · exact .inl (by rw [← ha, h, hb])
  · rw [ha, canonical_zero] at h
    exact absurd h (hna false)
  · rw [hb, canonical_zero] at h
    exact absurd h.symm (hnb false)
  · by_cases hs : s = s'
    · exact .inl (by rw [hs])
    · exact .inr ⟨s, rfl, by rw [Bool.eq_not.2 (Ne.symm hs)]⟩

theorem exists_place {n : Number} (h : n ≠ nan) : ∃ i, n.place? = some i := by
  match n with
  | real false m => exact ⟨_, rfl⟩
  | real true m => exact ⟨_, rfl⟩

end Number

namespace Value

def signedZero (negative : Bool) : Value := .number (.real negative .zero)

variable {a b c : Value}

theorem compare_swap (a b : Value) : (a.compare b).swap = b.compare a := by
  have hs : (compareOfLessAndEq a.toText b.toText).swap = compareOfLessAndEq b.toText a.toText :=
    (compareOfLessAndEq_eq_swap String.le_antisymm String.le_total String.not_le).symm
  rw [compare, compare]
  cases a.asNumber? <;> cases b.asNumber?
  · exact hs
  · exact hs
  · exact hs
  · exact Number.compare_swap _ _

theorem compare_self (a : Value) : a.compare a = .eq := by
  have h := compare_swap a a
  cases hc : a.compare a with
  | eq => rfl
  | lt | gt =>
    rw [hc] at h
    cases h

theorem compare_of_some {x y : Number} (ha : a.asNumber? = some x) (hb : b.asNumber? = some y) :
    a.compare b = x.compare y := by
  rw [compare, ha, hb]

theorem compare_of_none (hc : c.asNumber? = none) (a : Value) :
    a.compare c = compareOfLessAndEq a.toText c.toText := by
  rw [compare, hc]
  cases a.asNumber? <;> rfl

theorem eq_or_zeros_of_same (h : a.same b = true) :
    a = b ∨ ∃ s, a = signedZero s ∧ b = signedZero !s := by
  rw [same_iff] at h
  match a, b with
  | text s, text s' => exact .inl h
  | number n, number n' =>
    rcases Number.eq_or_zeros (number.inj h) with rfl | ⟨s, rfl, rfl⟩
    · exact .inl rfl
    · exact .inr ⟨s, rfl, rfl⟩

theorem compare_of_same (h : a.same b = true) : a.compare b = .eq := by
  rcases eq_or_zeros_of_same h with rfl | ⟨s, rfl, rfl⟩
  · exact compare_self a
  · cases s <;> rfl

/-- It reads as a number, and not as no-number. -/
def Numeric (a : Value) : Prop :=
  ∃ n, a.asNumber? = some n ∧ n ≠ .nan

def Textual (a : Value) : Prop :=
  a.asNumber? = none

/-- Among these values the order is a total preorder. -/
structure PreorderOn (P : Value → Prop) : Prop where
  refl : ∀ a, P a → (a.compare a).isLE = true
  total : ∀ a b, P a → P b → (a.compare b).isLE = true ∨ (b.compare a).isLE = true
  trans : ∀ a b c, P a → P b → P c → (a.compare b).isLE = true → (b.compare c).isLE = true →
    (a.compare c).isLE = true

/-- It is enough that the values are compared by where something stands in a linear order. -/
theorem preorderOn_of_key {α : Type} [LinearOrder α] {P : Value → Prop} (key : Value → α)
    (h : ∀ a b, P a → P b → ((a.compare b).isLE = true ↔ key a ≤ key b)) : PreorderOn P where
  refl a ha := (h a a ha ha).2 (le_refl _)
  total a b ha hb := by
    rw [h a b ha hb, h b a hb ha]
    exact le_total _ _
  trans a b c ha hb hc := by
    rw [h a b ha hb, h b c hb hc, h a c ha hc]
    exact le_trans

def place (a : Value) : Int :=
  (a.asNumber?.bind Number.place?).getD 0

theorem place_eq {x : Number} {i : Int} (ha : a.asNumber? = some x) (hx : x.place? = some i) :
    a.place = i := by
  rw [place, ha, Option.bind_some, hx, Option.getD_some]

theorem preorderOn_numeric : PreorderOn Numeric := by
  refine preorderOn_of_key place ?_
  rintro a b ⟨x, ha, hx⟩ ⟨y, hb, hy⟩
  obtain ⟨i, hi⟩ := Number.exists_place hx
  obtain ⟨j, hj⟩ := Number.exists_place hy
  rw [compare_of_some ha hb, Number.compare, hi, hj, place_eq ha hi, place_eq hb hj]
  exact Int.isLE_compare

theorem preorderOn_textual : PreorderOn Textual := by
  refine preorderOn_of_key toText fun a b _ hb => ?_
  rw [compare_of_none hb]
  exact isLE_compareOfLessAndEq String.le_antisymm String.not_le String.le_total

/-- Across the kinds it can go round: 9 is below 10, that as a text below "1a", and this below 9. -/
theorem not_preorderOn_all : ¬PreorderOn fun _ => True := by
  intro h
  have hc := h.trans (.number (.ofNat 9)) (.number (.ofNat 10)) (.text "1a") trivial trivial trivial
  exact absurd (hc (by decide +kernel) (by decide +kernel)) (by decide +kernel)

end Value

end RelAlg
