import RelAlg.Json.Number
import RelAlg.Proofs.Number.Rounding
import RelAlg.Proofs.Text.Spans

/-!
Numbers in JSON read back. Reading stops where a number ends and gives finite numbers only. What is
written without a point is read exactly; other numbers can be read beside their place, so that they
come back is a property of the number.
-/

set_option autoImplicit false

namespace RelAlg.Json

/-- Text that does not go on with a number in front of it. -/
def EndsNumber (rest : List Char) : Prop :=
  ∀ c ∈ rest.head?, c.isDigit = false ∧ c ≠ '.' ∧ c ≠ 'e' ∧ c ≠ 'E'

section Rest

variable {cs rest r : List Char} {d e : Decimal} {n : Number}

theorem EndsNumber.not_digit (h : EndsNumber rest) : ∀ c ∈ rest.head?, c.isDigit = false :=
  fun c hc => (h c hc).1

theorem EndsNumber.any_head (h : EndsNumber rest) (cs : List Char) :
    (cs ++ rest).head?.any Char.isDigit = cs.head?.any Char.isDigit :=
  Text.any_head_append h.not_digit cs

theorem EndsNumber.takeWhile (h : EndsNumber rest) (cs : List Char) :
    (cs ++ rest).takeWhile Char.isDigit = cs.takeWhile Char.isDigit :=
  Text.takeWhile_append_of_head h.not_digit cs

theorem EndsNumber.dropWhile (h : EndsNumber rest) (cs : List Char) :
    (cs ++ rest).dropWhile Char.isDigit = cs.dropWhile Char.isDigit ++ rest :=
  Text.dropWhile_append_of_head h.not_digit cs

theorem EndsNumber.appendDigits (h : EndsNumber rest) (s : Nat) (cs : List Char) :
    appendDigits s (cs ++ rest) =
      ((appendDigits s cs).1, (appendDigits s cs).2.1, (appendDigits s cs).2.2 ++ rest) := by
  induction cs generalizing s with
  | nil =>
    cases rest with
    | nil => rfl
    | cons c rest =>
      have hc : ¬(c.isDigit = true ∧ 10 * s + (c.toNat - '0'.toNat) ≤ maxSignificand) := by
        rw [h.not_digit c rfl]
        exact fun hc => Bool.false_ne_true hc.1
      rw [List.nil_append, Json.appendDigits]
      exact if_neg hc
  | cons c cs ih =>
    rw [List.cons_append, Json.appendDigits, Json.appendDigits, ih]
    dsimp only
    split <;> rfl

theorem EndsNumber.readWhole? (h : EndsNumber rest) (hr : readWhole? cs = some (d, r)) :
    readWhole? (cs ++ rest) = some (d, r ++ rest) := by
  cases cs with
  | nil => cases hr
  | cons c cs =>
    rw [Json.readWhole?] at hr
    rw [List.cons_append, Json.readWhole?, h.any_head, h.appendDigits]
    dsimp only at hr ⊢
    rw [h.takeWhile, h.dropWhile]
    split_ifs at hr ⊢
    · cases hr
      rfl
    · cases hr
      rfl

theorem EndsNumber.readFraction? (h : EndsNumber rest) (hr : readFraction? d cs = some (e, r)) :
    readFraction? d (cs ++ rest) = some (e, r ++ rest) := by
  rw [Json.readFraction?.eq_def] at hr
  split at hr
  · rename_i cs
    rw [List.cons_append, Json.readFraction?, h.any_head, h.appendDigits]
    dsimp only at hr ⊢
    rw [h.dropWhile]
    split_ifs at hr ⊢
    cases hr
    rfl
  · rename_i hp
    cases hr
    rw [Json.readFraction?]
    rintro cs' hcs
    cases cs with
    | cons c cs => exact hp cs (by rw [(List.cons.inj hcs).1])
    | nil => exact (h '.' (by rw [← List.nil_append rest, hcs]; rfl)).2.1 rfl

theorem EndsNumber.readPower? (h : EndsNumber rest) (hr : readPower? d cs = some (e, r)) :
    readPower? d (cs ++ rest) = some (e, r ++ rest) := by
  cases cs with
  | nil =>
    cases hr
    cases rest with
    | nil => rfl
    | cons c rest =>
      obtain ⟨-, -, he, hE⟩ := h c rfl
      rw [List.nil_append, Json.readPower?, if_neg (not_or.2 ⟨he, hE⟩)]
  | cons c cs =>
    rw [Json.readPower?] at hr
    rw [List.cons_append, Json.readPower?]
    split_ifs at hr ⊢ with hc
    · have hs : Number.splitSign (cs ++ rest) =
          ((Number.splitSign cs).1, (Number.splitSign cs).2 ++ rest) := by
        cases cs with
        | nil => cases hr
        | cons c cs =>
          rw [List.cons_append, Number.splitSign.eq_def, Number.splitSign.eq_def]
          split <;> simp_all
      rw [hs]
      dsimp only at hr ⊢
      rw [h.takeWhile, h.dropWhile]
      split at hr
      · cases hr
      · rename_i hd
        cases hr
        rw [if_neg hd]
    · cases hr
      rfl

theorem EndsNumber.readNumber? (h : EndsNumber rest) (hr : readNumber? cs = some (n, r)) :
    readNumber? (cs ++ rest) = some (n, r ++ rest) := by
  simp only [Json.readNumber?, Option.pure_def, Option.bind_eq_bind, Option.bind_eq_some_iff,
    Option.some.injEq, Prod.mk.injEq, Prod.exists] at hr ⊢
  obtain ⟨d, cs₁, hw, d', cs₂, hf, d'', cs₃, hp, m, hm, rfl, rfl⟩ := hr
  cases cs with
  | nil =>
    cases hw
  | cons c cs =>
    refine ⟨d, cs₁ ++ rest, ?_, d', cs₂ ++ rest, h.readFraction? hf, d'', cs₃ ++ rest,
      h.readPower? hp, m, hm, rfl, rfl⟩
    rw [← h.readWhole? hw, List.cons_append, List.head?_cons, List.head?_cons]
    split <;> rfl

end Rest

theorem head_of_readNumber? {c : Char} {cs rest : List Char} {n : Number}
    (h : readNumber? (c :: cs) = some (n, rest)) : c = '-' ∨ c.isDigit = true := by
  simp only [readNumber?, Option.pure_def, Option.bind_eq_bind, Option.bind_eq_some_iff,
    Prod.exists] at h
  obtain ⟨d, cs₁, hw, -⟩ := h
  by_cases hc : c = '-'
  · exact .inl hc
  · right
    have hne : ¬((some c == some '-') = true) := by simpa using hc
    rw [List.head?_cons, if_neg hne, readWhole?] at hw
    split_ifs at hw with h0 _ hd
    · rw [h0]
      rfl
    · exact hd

theorem appendDigits_le {s : Nat} (h : s ≤ maxSignificand) (cs : List Char) :
    (appendDigits s cs).1 ≤ maxSignificand := by
  induction cs generalizing s with
  | nil => exact h
  | cons c cs ih =>
    simp only [appendDigits]
    split
    · rename_i hn
      exact ih hn.2
    · exact h

theorem digit_le {c : Char} (h : c.isDigit = true) : c.toNat - '0'.toNat ≤ 9 := by
  simp only [Char.isDigit, Bool.and_eq_true, decide_eq_true_eq] at h
  have h9 : c.toNat ≤ 57 := h.2
  have h0 : '0'.toNat = 48 := rfl
  omega

theorem digits_readWhole? {cs rest : List Char} {d : Decimal}
    (h : readWhole? cs = some (d, rest)) : d.digits ≤ maxSignificand := by
  cases cs with
  | nil => cases h
  | cons c cs =>
    rw [readWhole?] at h
    split_ifs at h with h0 _ hd
    · cases h
      exact Nat.zero_le _
    · cases h
      exact appendDigits_le ((digit_le hd).trans (by decide)) cs

theorem digits_readFraction? {d e : Decimal} {cs rest : List Char}
    (h : readFraction? d cs = some (e, rest)) (hd : d.digits ≤ maxSignificand) :
    e.digits ≤ maxSignificand := by
  rw [readFraction?.eq_def] at h
  split at h
  · split_ifs at h
    cases h
    exact appendDigits_le hd _
  · cases h
    exact hd

theorem digits_readPower? {d e : Decimal} {cs rest : List Char}
    (h : readPower? d cs = some (e, rest)) : e.digits = d.digits := by
  cases cs with
  | nil =>
    cases h
    rfl
  | cons c cs =>
    rw [readPower?] at h
    split_ifs at h
    · dsimp only at h
      split at h
      · cases h
      · cases h
        rfl
    · cases h
      rfl

theorem rank_scaleDown_le (m : Magnitude) (power : Nat) : (scaleDown m power).rank ≤ m.rank := by
  have hd (m : Magnitude) (k : Nat) : (m.div (.ofNat (Nat.pow 10 k))).rank ≤ m.rank :=
    m.rank_div_le (Nat.pow_pos (by decide))
  fun_induction scaleDown m power with
  | case1 m power hp => exact hd m power
  | case2 m power hp h0 => exact Nat.le_refl _
  | case3 m power hp h0 ih => exact ih.trans (hd m 308)

theorem isFinite_of_scale? {d : Decimal} {m : Magnitude} (hd : d.digits ≤ maxSignificand)
    (h : scale? d = some m) : m.isFinite = true := by
  have hf : (Magnitude.ofNat d.digits).isFinite = true :=
    Magnitude.isFinite_ofNat (hd.trans (Nat.sub_le _ _))
  simp only [scale?] at h
  split_ifs at h with _ _ _ hp
  · rw [← Option.some.inj h]
    exact Magnitude.isFinite_of_rank_le hf (rank_scaleDown_le _ _)
  · rw [← Option.some.inj h]
    exact hf
  · rw [← Option.some.inj h]
    exact hp

/-- Reading gives finite numbers only. -/
theorem isFinite_of_readNumber? {cs rest : List Char} {n : Number}
    (h : readNumber? cs = some (n, rest)) : n.isFinite = true := by
  simp only [readNumber?, Option.pure_def, Option.bind_eq_bind, Option.bind_eq_some_iff,
    Option.some.injEq, Prod.mk.injEq, Prod.exists] at h
  obtain ⟨d, _, hw, d', _, hf, d'', _, hp, m, hm, rfl, -⟩ := h
  refine isFinite_of_scale? ?_ hm
  rw [digits_readPower? hp]
  exact digits_readFraction? hf (digits_readWhole? hw)

theorem le_ofDigitChars (s : Nat) (cs : List Char) : s ≤ Nat.ofDigitChars 10 cs s := by
  induction cs generalizing s with
  | nil => exact Nat.le_refl _
  | cons c cs ih =>
    rw [Nat.ofDigitChars_cons]
    exact le_trans (by omega) (ih _)

theorem appendDigits_all {s : Nat} {cs : List Char} (hd : ∀ c ∈ cs, c.isDigit = true)
    (h : Nat.ofDigitChars 10 cs s ≤ maxSignificand) :
    appendDigits s cs = (Nat.ofDigitChars 10 cs s, cs.length, []) := by
  induction cs generalizing s with
  | nil => rfl
  | cons c cs ih =>
    rw [Nat.ofDigitChars_cons] at h ⊢
    have hn := (le_ofDigitChars _ cs).trans h
    rw [appendDigits, ih (fun c hc => hd c (List.mem_cons_of_mem _ hc)) h]
    exact if_pos ⟨hd c List.mem_cons_self, hn⟩

theorem digitChar_ne_zero {w : Nat} (hw : w < 10) (h : w ≠ 0) : Nat.digitChar w ≠ '0' := by
  decide +revert

theorem head_toDigits {w : Nat} (h : w ≠ 0) :
    ∃ c cs, Decimal.toDigits w = c :: cs ∧ c ≠ '0' := by
  induction w using Nat.strong_induction_on with
  | _ w ih =>
    by_cases hw : w < 10
    · exact ⟨Nat.digitChar w, [], Nat.toDigits_of_lt_base hw, digitChar_ne_zero hw h⟩
    · obtain ⟨c, cs, hc, h0⟩ := ih (w / 10) (by omega) (by omega)
      refine ⟨c, cs ++ [Nat.digitChar (w % 10)], ?_, h0⟩
      rw [Decimal.toDigits, Nat.toDigits_of_base_le (by decide) (Nat.not_lt.1 hw)]
      exact congrArg (· ++ [Nat.digitChar (w % 10)]) hc

theorem readWhole?_toDigits {w : Nat} (h : w ≤ maxSignificand) :
    readWhole? (Decimal.toDigits w) = some (⟨w, 0⟩, []) := by
  by_cases h0 : w = 0
  · rw [h0]
    rfl
  · obtain ⟨c, cs, hcs, hc⟩ := head_toDigits h0
    have hd := Decimal.isDigit_toDigits w
    have hw := Decimal.ofDigits_toDigits w
    rw [hcs] at hd hw ⊢
    have hv : Nat.ofDigitChars 10 cs (c.toNat - '0'.toNat) = w := by
      rw [Decimal.ofDigits_eq, Nat.ofDigitChars_cons, Nat.mul_zero, Nat.zero_add] at hw
      exact hw
    have ha := appendDigits_all (fun d hm => hd d (List.mem_cons_of_mem _ hm)) (hv.trans_le h)
    rw [readWhole?, if_neg hc, if_pos (hd c List.mem_cons_self), ha, hv]
    rfl

def isPlain : Number → Bool
  | .nan => false
  | .real _ m => m.isFinite && (m.units % Magnitude.unitsPerOne = 0 ∧
      m.units / Magnitude.unitsPerOne < 9 * Nat.pow 10 15)

/-- What is written is read as the number again, if without the sign of zero. -/
def ReadsBack (n : Number) : Prop :=
  readNumber? (writeNumber n) = some (n.canonical, [])

instance (n : Number) : Decidable (ReadsBack n) :=
  inferInstanceAs (Decidable (_ = _))

theorem scale?_whole {m : Magnitude} {w : Nat} (hf : m.isFinite = true)
    (h : m.units = w * Magnitude.unitsPerOne) : scale? ⟨w, 0⟩ = some m := by
  have hm := Magnitude.ofNat_of_units h
  have hp : m.mul (.ofNat (Nat.pow 10 (0 : Int).toNat)) = m := Magnitude.mul_one m
  simp only [scale?, hm]
  rw [if_neg (by decide)]
  split
  · rfl
  · rw [if_neg (by decide), hp, if_pos hf]

theorem writeNumber_plain {negative : Bool} {m : Magnitude} (hf : m.isFinite = true)
    (hz : m.units % Magnitude.unitsPerOne = 0)
    (hlt : m.units / Magnitude.unitsPerOne < 9 * Nat.pow 10 15) :
    writeNumber (.real negative m) =
      (if negative = true ∧ m.units / Magnitude.unitsPerOne ≠ 0 then ['-'] else []) ++
        Decimal.toDigits (m.units / Magnitude.unitsPerOne) := by
  have hn : ¬(!m.isFinite) = true := by
    rw [hf]
    exact Bool.false_ne_true
  rw [writeNumber, if_neg hn, if_pos ⟨hz, hlt⟩]

theorem readNumber?_whole (negative : Bool) {ds : List Char} {d : Decimal} {m : Magnitude}
    (hd : readWhole? ds = some (d, [])) (hm : scale? d = some m) :
    readNumber? ((if negative then ['-'] else []) ++ ds) = some (.real negative m, []) := by
  have hp : readFraction? d [] = some (d, []) := rfl
  have he : readPower? d [] = some (d, []) := rfl
  cases negative with
  | true => simp [readNumber?, hd, hp, he, hm]
  | false =>
    have hh : (ds.head? == some '-') = false := by
      cases ds with
      | nil => rfl
      | cons c ds =>
        refine beq_eq_false_iff_ne.2 fun hc => ?_
        rw [Option.some.inj hc] at hd
        cases hd
    simp [readNumber?, hh, hd, hp, he, hm]

theorem canonical_real {negative : Bool} {m : Magnitude} (h : m.rank ≠ 0) :
    (Number.real negative m).canonical = .real negative m := if_neg h

/-- A whole number below the limit comes back. -/
theorem readsBack_of_isPlain {n : Number} (h : isPlain n = true) : ReadsBack n := by
  cases n with
  | nan => cases h
  | real negative m =>
    rw [isPlain, Bool.and_eq_true, decide_eq_true_eq] at h
    obtain ⟨hf, hz, hlt⟩ := h
    have hu := (Nat.div_mul_cancel (Nat.dvd_of_mod_eq_zero hz)).symm
    have hm := readWhole?_toDigits (hlt.le.trans (by decide))
    have hs := scale?_whole hf hu
    rw [ReadsBack, writeNumber_plain hf hz hlt]
    by_cases h0 : m.units / Magnitude.unitsPerOne = 0
    · have hr : m.rank = 0 := by
        by_contra hr
        rw [h0, Nat.zero_mul] at hu
        exact Magnitude.units_ne_zero hr hu
      have hc : Number.canonical (.real negative m) = .real false m := by
        rw [Number.canonical, if_pos hr, Magnitude.ext_rank (a := m) (b := .zero) hr]
        rfl
      rw [hc, if_neg (fun hn => hn.2 h0)]
      exact readNumber?_whole false hm hs
    · have hr : m.rank ≠ 0 := by
        intro hr
        rw [Magnitude.ext_rank (a := m) (b := .zero) hr, Magnitude.units_zero] at h0
        exact h0 (Nat.zero_div _)
      rw [canonical_real hr]
      cases negative
      · rw [if_neg (fun hn => Bool.false_ne_true hn.1)]
        exact readNumber?_whole false hm hs
      · rw [if_pos ⟨rfl, h0⟩]
        exact readNumber?_whole true hm hs

theorem writeNumber_zero (negative : Bool) : writeNumber (.real negative .zero) = ['0'] := by
  have hu := Magnitude.units_zero
  have hz : Magnitude.zero.units % Magnitude.unitsPerOne = 0 := by rw [hu, Nat.zero_mod]
  have hw : Magnitude.zero.units / Magnitude.unitsPerOne = 0 := by rw [hu, Nat.zero_div]
  rw [writeNumber_plain (by decide) hz (by rw [hw]; decide), hw, if_neg (fun h => h.2 rfl)]
  rfl

theorem writeNumber_canonical (n : Number) : writeNumber n.canonical = writeNumber n := by
  cases n with
  | nan => rfl
  | real negative m =>
    by_cases h : m.rank = 0
    · rw [Magnitude.ext_rank (a := m) (b := .zero) h, writeNumber_zero]
      exact writeNumber_zero false
    · rw [canonical_real h]

end RelAlg.Json
