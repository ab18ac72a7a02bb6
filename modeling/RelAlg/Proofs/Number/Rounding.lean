import Mathlib.Data.Nat.Log
import RelAlg.Proofs.Number.Text

/-!
Rounding keeps the order: what is no larger than a magnitude is not rounded beyond it. So a whole
number of 64 bits is finite, and to divide by a whole number makes nothing larger.
-/

set_option autoImplicit false

namespace RelAlg.Magnitude

theorem roundHalfEven_le {num den bound : Nat} (hd : 0 < den) (h : num ≤ bound * den) :
    roundHalfEven num den ≤ bound := by
  have hq : num / den ≤ bound := Nat.div_le_of_le_mul (by rwa [Nat.mul_comm])
  have hm := Nat.div_add_mod num den
  simp only [roundHalfEven]
  by_cases he : num / den = bound
  · -- nothing is left to round
    have hz : num % den = 0 := by
      rw [he, Nat.mul_comm den bound] at hm
      omega
    rw [hz, if_pos (by omega)]
    exact hq
  · split
    · exact hq
    · split <;> omega

theorem div_le_roundHalfEven (num den : Nat) : num / den ≤ roundHalfEven num den := by
  simp only [roundHalfEven]
  split
  · exact Nat.le_refl _
  · split <;> omega

theorem ranksPerDoubling_eq : ranksPerDoubling = 2 ^ 52 := rfl

theorem rank_ofUnits (num den : Nat) : (ofUnits num den).rank =
    min (((num / den).log2 - 52) * ranksPerDoubling +
      roundHalfEven num (den * 2 ^ ((num / den).log2 - 52))) topRank := by
  simp only [ofUnits]
  split
  · rename_i h
    exact (min_eq_left h).symm
  · rename_i h
    exact (min_eq_right (Nat.le_of_not_le h)).symm

theorem log2_mono {a b : Nat} (h : a ≤ b) : a.log2 ≤ b.log2 := by
  rw [Nat.log2_eq_log_two, Nat.log2_eq_log_two]
  exact Nat.log_mono_right h

/-- A quotient has 53 bits behind its shift, or fewer. -/
theorem le_bits_shift (num : Nat) {den : Nat} (hd : 0 < den) :
    num ≤ 2 ^ 53 * (den * 2 ^ ((num / den).log2 - 52)) := by
  have hq : num / den + 1 ≤ 2 ^ ((num / den).log2 + 1) := Nat.lt_log2_self
  calc num ≤ den * (num / den + 1) := (Nat.lt_mul_div_succ num hd).le
    _ ≤ den * 2 ^ ((num / den).log2 + 1) := Nat.mul_le_mul_left den hq
    _ ≤ den * 2 ^ (53 + ((num / den).log2 - 52)) :=
        Nat.mul_le_mul_left den (Nat.pow_le_pow_right (by decide) (by omega))
    _ = 2 ^ 53 * (den * 2 ^ ((num / den).log2 - 52)) := by
        rw [pow_add]
        ring

theorem rank_ofUnits_le {num den : Nat} {m : Magnitude} (hd : 0 < den)
    (h : num ≤ m.units * den) : (ofUnits num den).rank ≤ m.rank := by
  have hq : num / den ≤ m.units := Nat.div_le_of_le_mul (by rwa [Nat.mul_comm])
  have hs : (num / den).log2 - 52 ≤ m.units.log2 - 52 := Nat.sub_le_sub_right (log2_mono hq) 52
  have hpos : 0 < den * 2 ^ ((num / den).log2 - 52) := Nat.mul_pos hd (Nat.two_pow_pos _)
  have hbits := roundHalfEven_le hpos (le_bits_shift num hd)
  obtain ⟨bits, hu, hr⟩ := m.exists_shift
  rw [rank_ofUnits]
  refine (min_le_left _ _).trans ?_
  rcases hs.eq_or_lt with he | hlt
  · have hround : roundHalfEven num (den * 2 ^ ((num / den).log2 - 52)) ≤ bits := by
      refine roundHalfEven_le hpos (h.trans_eq ?_)
      rw [he]
      conv_lhs => rw [hu]
      ring
    rw [← hr, ← he]
    exact Nat.add_le_add_left hround _
  · -- fewer bits in front of the shift: even a carry stays below the next doubling
    have hb : ranksPerDoubling ≤ bits := by
      refine Nat.le_of_mul_le_mul_right ?_ (Nat.two_pow_pos (m.units.log2 - 52))
      have h0 : m.units ≠ 0 := by
        intro h0
        rw [h0] at hlt
        exact absurd hlt (Nat.not_lt_zero _)
      calc ranksPerDoubling * 2 ^ (m.units.log2 - 52)
          = 2 ^ (52 + (m.units.log2 - 52)) := by rw [ranksPerDoubling_eq, pow_add]
        _ = 2 ^ m.units.log2 := by congr 1; omega
        _ ≤ m.units := Nat.log2_self_le h0
        _ = bits * 2 ^ (m.units.log2 - 52) := hu
    rw [show (2 : Nat) ^ 53 = 2 * ranksPerDoubling from rfl] at hbits
    calc ((num / den).log2 - 52) * ranksPerDoubling + _
        ≤ ((num / den).log2 - 52) * ranksPerDoubling + 2 * ranksPerDoubling :=
          Nat.add_le_add_left hbits _
      _ = ((num / den).log2 - 52 + 1) * ranksPerDoubling + ranksPerDoubling := by ring
      _ ≤ (m.units.log2 - 52) * ranksPerDoubling + bits :=
          Nat.add_le_add (Nat.mul_le_mul_right _ hlt) hb
      _ = m.rank := hr

theorem le_units {m : Magnitude} {k : Nat} (h : (k + 1) * ranksPerDoubling ≤ m.rank) :
    2 ^ (52 + k) ≤ m.units := by
  have hpos : 0 < ranksPerDoubling := Nat.two_pow_pos 52
  have hk : k + 1 ≤ m.rank / ranksPerDoubling := (Nat.le_div_iff_mul_le hpos).2 h
  have hge : ¬m.rank < ranksPerDoubling := by
    rw [Nat.add_mul, Nat.one_mul] at h
    exact Nat.not_lt.2 ((Nat.le_add_left _ _).trans h)
  rw [units, if_neg hge, pow_add]
  exact Nat.mul_le_mul (Nat.le_add_right _ _)
    (Nat.pow_le_pow_right (by decide) (Nat.le_sub_of_add_le hk))

/-- The power stays a variable, so that nothing evaluates it. -/
theorem exists_unitsPerOne : ∃ k, k = 1022 ∧ unitsPerOne = 2 ^ (52 + k) := by
  obtain ⟨j, hj, hU⟩ : ∃ j, j = 1074 ∧ unitsPerOne = Nat.pow 2 j := by
    refine ⟨1074, rfl, ?_⟩
    delta unitsPerOne
    exact Eq.refl _
  refine ⟨j - 52, by omega, ?_⟩
  rw [hU, Nat.pow_eq, Nat.add_sub_cancel' (by omega)]

theorem unitsPerOne_le_ofNat {n : Nat} (h : 0 < n) : unitsPerOne ≤ (ofNat n).units := by
  obtain ⟨k, hk, hU⟩ := exists_unitsPerOne
  have hq : 2 ^ (52 + k) ≤ n * unitsPerOne / 1 := by
    rw [Nat.div_one, hU]
    exact Nat.le_mul_of_pos_left _ h
  have h0 : n * unitsPerOne / 1 ≠ 0 := (Nat.two_pow_pos _).trans_le hq |>.ne'
  have hl : 52 + k ≤ (n * unitsPerOne / 1).log2 := (Nat.le_log2 h0).2 hq
  have hround : ranksPerDoubling ≤ roundHalfEven (n * unitsPerOne)
      (1 * 2 ^ ((n * unitsPerOne / 1).log2 - 52)) := by
    refine le_trans ?_ (div_le_roundHalfEven _ _)
    rw [Nat.one_mul, Nat.le_div_iff_mul_le (Nat.two_pow_pos _), ranksPerDoubling_eq, ← pow_add,
      Nat.add_sub_cancel' ((Nat.le_add_right 52 k).trans hl)]
    exact (Nat.log2_self_le h0).trans (Nat.div_le_self _ _)
  rw [hU]
  refine le_units ?_
  rw [ofNat, ofQuotient, rank_ofUnits, le_min_iff]
  constructor
  · rw [Nat.add_mul, Nat.one_mul]
    exact Nat.add_le_add (Nat.mul_le_mul_right _ (Nat.le_sub_of_add_le' hl)) hround
  · rw [hk]
    exact Nat.mul_le_mul_right _ (by decide)

theorem unitsPerOne_pos : 0 < unitsPerOne := by
  obtain ⟨k, -, hU⟩ := exists_unitsPerOne
  rw [hU]
  exact Nat.two_pow_pos _

theorem rank_div_le (m : Magnitude) {n : Nat} (h : 0 < n) : (m.div (ofNat n)).rank ≤ m.rank := by
  have hn := unitsPerOne_le_ofNat h
  exact rank_ofUnits_le (unitsPerOne_pos.trans_le hn) (Nat.mul_le_mul_left _ hn)

theorem isFinite_of_rank_le {m m' : Magnitude} (h : m.isFinite = true) (hr : m'.rank ≤ m.rank) :
    m'.isFinite = true := by
  rw [isFinite, decide_eq_true_eq] at h ⊢
  exact hr.trans_lt h

theorem ofNat_of_units {m : Magnitude} {w : Nat} (h : m.units = w * unitsPerOne) :
    ofNat w = m := by
  have hu := ofUnits_units m Nat.one_pos
  rwa [Nat.mul_one, h] at hu

theorem units_one : (ofNat 1).units = unitsPerOne := by
  obtain ⟨k, hk, hU⟩ := exists_unitsPerOne
  have hpos : 0 < ranksPerDoubling := Nat.two_pow_pos 52
  have hle : (k + 1) * ranksPerDoubling ≤ topRank := by
    rw [hk]
    exact Nat.mul_le_mul_right _ (by decide)
  have hu : units ⟨(k + 1) * ranksPerDoubling, hle⟩ = 1 * unitsPerOne := by
    have hge : ¬(k + 1) * ranksPerDoubling < ranksPerDoubling :=
      Nat.not_lt.2 (Nat.le_mul_of_pos_left _ k.succ_pos)
    rw [units, if_neg hge, Nat.mul_mod_left, Nat.mul_div_cancel _ hpos, Nat.one_mul, hU, pow_add]
    rfl
  rw [ofNat_of_units hu, hu, Nat.one_mul]

theorem mul_one (m : Magnitude) : m.mul (ofNat 1) = m := by
  rw [mul, units_one]
  exact ofUnits_units m unitsPerOne_pos

def wordEnd : Magnitude := ⟨1087 * ranksPerDoubling, Nat.mul_le_mul_right _ (by decide)⟩

theorem isFinite_ofNat {n : Nat} (h : n ≤ 2 ^ 64) : (ofNat n).isFinite = true := by
  obtain ⟨k, hk, hU⟩ := exists_unitsPerOne
  have hw : 2 ^ (52 + (k + 64)) ≤ wordEnd.units := by
    refine le_units (Nat.mul_le_mul_right _ ?_)
    omega
  have hf : wordEnd.isFinite = true := by decide
  refine isFinite_of_rank_le hf (rank_ofUnits_le Nat.one_pos ?_)
  rw [Nat.mul_one, hU]
  calc n * 2 ^ (52 + k) ≤ 2 ^ 64 * 2 ^ (52 + k) := Nat.mul_le_mul_right _ h
    _ = 2 ^ (52 + (k + 64)) := by ring
    _ ≤ wordEnd.units := hw

end RelAlg.Magnitude
