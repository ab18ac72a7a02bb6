import Mathlib.Algebra.Order.Ring.Nat
import Mathlib.Tactic.Ring
import RelAlg.Number.Shortest
import RelAlg.Proofs.Number.Literal

set_option autoImplicit false

namespace RelAlg

namespace Magnitude

theorem roundHalfEven_mul (q : Nat) {den : Nat} (h : 0 < den) :
    roundHalfEven (q * den) den = q := by
  rw [roundHalfEven, Nat.mul_div_cancel q h, Nat.mul_mod_left]
  exact if_pos h

theorem log2_scaled {bits : Nat} (hl : 2 ^ 52 ≤ bits) (hh : bits < 2 ^ 53) (shift : Nat) :
    (bits * 2 ^ shift).log2 = 52 + shift := by
  have h0 : bits * 2 ^ shift ≠ 0 :=
    (Nat.mul_pos ((Nat.two_pow_pos 52).trans_le hl) (Nat.two_pow_pos shift)).ne'
  rw [Nat.log2_eq_iff h0]
  constructor
  · rw [pow_add]
    exact Nat.mul_le_mul_right _ hl
  · rw [Nat.add_right_comm, pow_add]
    exact Nat.mul_lt_mul_of_pos_right hh (Nat.two_pow_pos shift)

/-- A magnitude has 53 bits behind the shift that its units ask for, or fewer and no shift. -/
theorem exists_shift (m : Magnitude) : ∃ bits, m.units = bits * 2 ^ (m.units.log2 - 52) ∧
    (m.units.log2 - 52) * ranksPerDoubling + bits = m.rank := by
  have hR : ranksPerDoubling = 2 ^ 52 := rfl
  by_cases h : m.rank < ranksPerDoubling
  · have hu : m.units = m.rank := if_pos h
    have hs : m.units.log2 - 52 = 0 := by
      rw [hu]
      by_cases h0 : m.rank = 0
      · rw [h0]
        rfl
      · have hl := (Nat.log2_lt h0).2 (h.trans_eq hR)
        omega
    refine ⟨m.rank, ?_, ?_⟩
    · rw [hs, pow_zero, mul_one, hu]
    · rw [hs, zero_mul, zero_add]
  · have hu : m.units = (ranksPerDoubling + m.rank % ranksPerDoubling) *
        2 ^ (m.rank / ranksPerDoubling - 1) := if_neg h
    have hpos : 0 < ranksPerDoubling := by
      rw [hR]
      exact Nat.two_pow_pos 52
    have hf : m.rank % ranksPerDoubling < ranksPerDoubling := Nat.mod_lt _ hpos
    have hq : 0 < m.rank / ranksPerDoubling := Nat.div_pos (Nat.not_lt.1 h) hpos
    have hl : m.units.log2 = 52 + (m.rank / ranksPerDoubling - 1) := by
      rw [hu]
      exact log2_scaled (hR.ge.trans (Nat.le_add_right _ _)) (by omega) _
    rw [hl, Nat.add_sub_cancel_left]
    refine ⟨_, hu, ?_⟩
    calc (m.rank / ranksPerDoubling - 1) * ranksPerDoubling +
          (ranksPerDoubling + m.rank % ranksPerDoubling)
        = (m.rank / ranksPerDoubling - 1 + 1) * ranksPerDoubling + m.rank % ranksPerDoubling := by
          ring
      _ = ranksPerDoubling * (m.rank / ranksPerDoubling) + m.rank % ranksPerDoubling := by
          rw [Nat.sub_add_cancel hq, Nat.mul_comm]
      _ = m.rank := Nat.div_add_mod _ _

theorem ofUnits_units (m : Magnitude) {k : Nat} (hk : 0 < k) : ofUnits (m.units * k) k = m := by
  obtain ⟨bits, hu, hr⟩ := m.exists_shift
  have hb : roundHalfEven (m.units * k) (k * Nat.pow 2 (m.units.log2 - 52)) = bits := by
    have hm : m.units * k = bits * (k * Nat.pow 2 (m.units.log2 - 52)) := by
      conv_lhs => rw [hu]
      rw [Nat.pow_eq]
      ring
    rw [hm]
    exact roundHalfEven_mul bits (Nat.mul_pos hk (Nat.two_pow_pos _))
  rw [ofUnits, Nat.mul_div_cancel _ hk]
  simp only [hb, hr]
  exact dif_pos m.rank_le

theorem units_ne_zero {m : Magnitude} (h : m.rank ≠ 0) : m.units ≠ 0 := by
  rw [units]
  split
  · exact h
  · exact (Nat.mul_pos (Nat.add_pos_left (Nat.two_pow_pos 52) _) (Nat.two_pow_pos _)).ne'

end Magnitude

namespace Decimal

theorem toMagnitude_zero (exponent : Int) : toMagnitude ⟨0, exponent⟩ = .zero := if_pos rfl

theorem toMagnitude_nonneg {digits power : Nat} (hd : digits ≠ 0) (hp : power ≤ 310) :
    toMagnitude ⟨digits, power⟩ = .ofQuotient (digits * Nat.pow 10 power) 1 := by
  rw [toMagnitude, if_neg hd, if_neg (by dsimp only; omega), if_neg (by dsimp only; omega),
    if_pos (Int.natCast_nonneg power)]
  rfl

theorem toMagnitude_neg {digits places : Nat} (hd : digits ≠ 0) (hp : places ≠ 0)
    (hl : places ≤ digits.log2) :
    toMagnitude ⟨digits, -places⟩ = .ofQuotient digits (Nat.pow 10 places) := by
  rw [toMagnitude, if_neg hd, if_neg (by dsimp only; omega), if_neg (by dsimp only; omega),
    if_neg (by dsimp only; omega), neg_neg]
  rfl

end Decimal

namespace Magnitude

variable {m : Magnitude}

theorem toMagnitude_fives (h : m.rank ≠ 0) (places : Nat) (hp : places ≠ 0) :
    Decimal.toMagnitude ⟨m.units * Nat.pow 5 places, -places⟩ =
      ofUnits (m.units * Nat.pow 5 places * unitsPerOne) (Nat.pow 10 places) := by
  have hu := units_ne_zero h
  have hd : m.units * Nat.pow 5 places ≠ 0 :=
    Nat.mul_ne_zero hu (Nat.pow_pos (by decide)).ne'
  refine Decimal.toMagnitude_neg hd hp ((Nat.le_log2 hd).2 ?_)
  calc 2 ^ places ≤ 5 ^ places := Nat.pow_le_pow_left (by decide) _
    _ ≤ m.units * 5 ^ places := Nat.le_mul_of_pos_left _ (Nat.pos_of_ne_zero hu)

theorem ofUnits_fives (m : Magnitude) (k : Nat) :
    ofUnits (m.units * Nat.pow 5 k * Nat.pow 2 k) (Nat.pow 10 k) = m := by
  have ht : Nat.pow 5 k * Nat.pow 2 k = Nat.pow 10 k := (Nat.mul_pow 5 2 k).symm
  rw [Nat.mul_assoc, ht]
  exact ofUnits_units m (Nat.pow_pos (by decide))

theorem exactDecimal_toMagnitude (h : m.rank ≠ 0) : m.exactDecimal.toMagnitude = m := by
  -- the power stays a variable, so that nothing evaluates it
  obtain ⟨k, hk, he, hu⟩ : ∃ k, k ≠ 0 ∧ m.exactDecimal = ⟨m.units * Nat.pow 5 k, -k⟩ ∧
      unitsPerOne = Nat.pow 2 k := by
    refine ⟨1074, by decide, rfl, ?_⟩
    delta unitsPerOne
    exact Eq.refl _
  rw [he, toMagnitude_fives h k hk, hu]
  exact ofUnits_fives m k

theorem shortestDecimal_toMagnitude (h : m.rank ≠ 0) (tie : Tie) :
    (m.shortestDecimal tie).toMagnitude = m := by
  rw [shortestDecimal]
  cases hf : (List.range 17).findSome? fun n : Nat => m.onGrid? tie (m.leadingPower - n) with
  | none => exact exactDecimal_toMagnitude h
  | some d =>
    obtain ⟨n, -, hn⟩ := List.exists_of_findSome?_eq_some hf
    exact onGrid?_toMagnitude hn

end Magnitude

namespace Decimal

theorem ofDigits_eq (cs : List Char) : ofDigits cs = Nat.ofDigitChars 10 cs 0 := rfl

theorem ofDigits_toDigits (n : Nat) : ofDigits (toDigits n) = n :=
  Nat.ofDigitChars_toDigits (by decide) (Nat.le_refl 10)

theorem isDigit_toDigits (n : Nat) : ∀ c ∈ toDigits n, c.isDigit = true :=
  fun _ hc => Nat.isDigit_of_mem_toDigits (by decide) (Nat.le_refl 10) hc

theorem ofDigits_append_zeros (cs : List Char) (k : Nat) :
    ofDigits (cs ++ List.replicate k '0') = ofDigits cs * Nat.pow 10 k := by
  rw [ofDigits_eq, Nat.ofDigitChars_append, Nat.ofDigitChars_replicate_zero, Nat.mul_comm]
  rfl

theorem ofDigits_zeros_append (k : Nat) (cs : List Char) :
    ofDigits (List.replicate k '0' ++ cs) = ofDigits cs := by
  rw [ofDigits_eq, Nat.ofDigitChars_append, Nat.ofDigitChars_replicate_zero, Nat.mul_zero]
  rfl

theorem infinity_of_exponent {d : Decimal} (hd : d.digits ≠ 0) (he : 310 < d.exponent) :
    d.toMagnitude = .infinity := by
  rw [toMagnitude, if_neg hd, if_pos he]

/-- Zeros at the end of a whole number stand for a power of ten. -/
theorem toMagnitude_whole {digits power : Nat}
    (h : (toMagnitude ⟨digits, power⟩).isFinite = true) :
    toMagnitude ⟨digits * Nat.pow 10 power, 0⟩ = toMagnitude ⟨digits, power⟩ := by
  by_cases hd : digits = 0
  · rw [hd, Nat.zero_mul, toMagnitude_zero, toMagnitude_zero]
  have hp : power ≤ 310 := by
    by_contra hp
    have hi := infinity_of_exponent (d := ⟨digits, power⟩) hd (by dsimp only; omega)
    rw [hi] at h
    exact absurd h (by decide)
  have hw : digits * Nat.pow 10 power ≠ 0 := Nat.mul_ne_zero hd (Nat.pow_pos (by decide)).ne'
  have hz := toMagnitude_nonneg hw (Nat.zero_le 310)
  rw [show Nat.pow 10 0 = 1 from rfl, Nat.mul_one] at hz
  rw [toMagnitude_nonneg hd hp]
  exact hz

theorem isDigit_zeros (k : Nat) : ∀ c ∈ List.replicate k '0', c.isDigit = true := by
  intro c hc
  rw [List.eq_of_mem_replicate hc]
  rfl

theorem positional_whole (digits power : Nat) :
    ∃ whole, whole ≠ [] ∧ (∀ c ∈ whole, c.isDigit = true) ∧
      positional ⟨digits, power⟩ = whole ∧ ofDigits whole = digits * Nat.pow 10 power := by
  refine ⟨_, ?_, ?_, rfl, ?_⟩ <;>
    simp only [positional, if_pos (Int.natCast_nonneg power), Int.toNat_natCast] <;> split
  · exact Nat.toDigits_ne_nil
  · exact List.append_ne_nil_of_left_ne_nil Nat.toDigits_ne_nil _
  · exact isDigit_toDigits digits
  · exact List.forall_mem_append.2 ⟨isDigit_toDigits digits, isDigit_zeros power⟩
  · rename_i h
    rw [h, ofDigits_toDigits, Nat.zero_mul]
  · rw [ofDigits_append_zeros, ofDigits_toDigits]

theorem positional_fraction (digits : Nat) {places : Nat} (hp : places ≠ 0) :
    ∃ whole fraction, whole ≠ [] ∧ (∀ c ∈ whole ++ fraction, c.isDigit = true) ∧
      positional ⟨digits, -places⟩ = whole ++ '.' :: fraction ∧
      ofDigits (whole ++ fraction) = digits ∧ fraction.length = places := by
  have hn : ¬(0 : Int) ≤ -places := by omega
  have hpos : positional ⟨digits, -places⟩ =
      if places < (toDigits digits).length then
        (toDigits digits).take ((toDigits digits).length - places) ++
          '.' :: (toDigits digits).drop ((toDigits digits).length - places)
      else '0' :: '.' :: List.replicate (places - (toDigits digits).length) '0' ++
        toDigits digits := by
    rw [positional, if_neg hn, neg_neg, Int.toNat_natCast]
  have hds := isDigit_toDigits digits
  by_cases hl : places < (toDigits digits).length
  · have hr := List.take_append_drop ((toDigits digits).length - places) (toDigits digits)
    refine ⟨(toDigits digits).take ((toDigits digits).length - places),
      (toDigits digits).drop ((toDigits digits).length - places), ?_, ?_, ?_, ?_, ?_⟩
    · refine List.ne_nil_of_length_pos ?_
      rw [List.length_take]
      omega
    · rwa [hr]
    · rw [hpos, if_pos hl]
    · rw [hr, ofDigits_toDigits]
    · rw [List.length_drop]
      omega
  · refine ⟨['0'], List.replicate (places - (toDigits digits).length) '0' ++ toDigits digits,
      by simp, ?_, ?_, ?_, ?_⟩
    · exact List.forall_mem_append.2 ⟨isDigit_zeros 1,
        List.forall_mem_append.2 ⟨isDigit_zeros _, hds⟩⟩
    · rw [hpos, if_neg hl]
      rfl
    · rw [show ['0'] = List.replicate 1 '0' from rfl, ofDigits_zeros_append, ofDigits_zeros_append,
        ofDigits_toDigits]
    · rw [List.length_append, List.length_replicate]
      omega

/-- Written in full, a decimal is a literal that reads as the same magnitude. It need not be the
same decimal: zeros are written for a power of ten. -/
theorem exists_literal (d : Decimal) (h : d.toMagnitude.isFinite = true) (negative : Bool) :
    ∃ l : Number.Literal, l.negative = negative ∧ d.positional = l.whole ++ l.behind ∧
      l.decimal.toMagnitude = d.toMagnitude := by
  obtain ⟨digits, exponent⟩ := d
  obtain ⟨power, rfl⟩ | ⟨places, hp, rfl⟩ :
      (∃ power : Nat, exponent = power) ∨ ∃ places : Nat, places ≠ 0 ∧ exponent = -places := by
    rcases Int.lt_or_le exponent 0 with he | he
    · exact .inr ⟨(-exponent).toNat, by omega, by omega⟩
    · exact .inl ⟨exponent.toNat, by omega⟩
  · obtain ⟨whole, hne, hd, hpos, hv⟩ := positional_whole digits power
    refine ⟨⟨negative, whole, [], hne, by rwa [List.append_nil]⟩, rfl, ?_, ?_⟩
    · rw [hpos]
      exact (List.append_nil _).symm
    · rw [Number.Literal.decimal]
      dsimp only
      rw [List.append_nil, hv]
      exact toMagnitude_whole h
  · obtain ⟨whole, fraction, hne, hd, hpos, hv, hlen⟩ := positional_fraction digits hp
    have hf : fraction ≠ [] := List.ne_nil_of_length_pos (by omega)
    refine ⟨⟨negative, whole, fraction, hne, hd⟩, rfl, ?_, ?_⟩
    · rw [hpos, Number.Literal.behind, if_neg hf]
    · rw [Number.Literal.decimal]
      dsimp only
      rw [hv, hlen]

end Decimal

theorem Number.exists_literal (n : Number) (h : n.isFinite = true) :
    ∃ l : Literal, n.toText = String.ofList l.toChars ∧ l.value = n := by
  match n, h with
  | .real negative m, h =>
    have hm : m.isFinite = true := h
    by_cases h0 : m.rank = 0
    · refine ⟨⟨negative, ['0'], [], by decide, by simp⟩, ?_, ?_⟩
      · cases negative <;> rw [toText, if_pos h0] <;> rfl
      · rw [show m = Magnitude.zero from Magnitude.ext_rank h0]
        rfl
    · have hs := m.shortestDecimal_toMagnitude h0 .up
      have hf : (m.shortestDecimal .up).toMagnitude.isFinite = true := by
        rw [hs]
        exact hm
      obtain ⟨l, hl, hp, hd⟩ := (m.shortestDecimal .up).exists_literal hf negative
      refine ⟨l, ?_, ?_⟩
      · rw [toText, if_neg h0, if_pos hm, hp, Literal.toChars, hl]
        cases negative <;> rfl
      · rw [Literal.value, hl, hd, hs]

end RelAlg
