import RelAlg.Json.Text

set_option autoImplicit false

namespace RelAlg.Json

theorem hexValue?_digitChar {d : Nat} (h : d < 16) : hexValue? (Nat.digitChar d) = some d := by
  decide +revert

theorem codeUnit?_control {n : Nat} (h : n < 0x20) :
    codeUnit? '0' '0' (Nat.digitChar (n / 16)) (Nat.digitChar (n % 16)) = some n := by
  have hz : hexValue? '0' = some 0 := rfl
  have hv : ((0 * 16 + 0) * 16 + n / 16) * 16 + n % 16 = n := by omega
  rw [codeUnit?, hz, hexValue?_digitChar (by omega), hexValue?_digitChar (by omega)]
  exact congrArg some hv

theorem whole_of_control {n : Nat} (h : n < 0x20) :
    isHighHalf n = false ∧ isLowHalf n = false := by
  simp only [isHighHalf, isLowHalf, Bool.and_eq_false_iff, decide_eq_false_iff_not]
  omega

theorem readText?_escapeChar (c : Char) (cs : List Char) :
    readText? none (escapeChar c ++ cs) = (readText? none cs).map fun p => (c :: p.1, p.2) := by
  rw [escapeChar.eq_def]
  split
  · rfl
  · rfl
  · rfl
  · rfl
  · rfl
  · rfl
  · rfl
  · rename_i hq hb _ _ _ _ _
    split
    · rename_i hc
      obtain ⟨hh, hl⟩ := whole_of_control hc
      rw [readText?.eq_def]
      simp only [List.cons_append, List.nil_append, codeUnit?_control hc, hh, hl,
        Char.ofNat_toNat, Bool.false_eq_true, if_false]
    · rename_i hc
      rw [List.singleton_append, readText?]
      · simp [hc]
      · exact hq
      · exact fun _ _ _ _ _ h => absurd h hb
      · exact fun _ _ h => absurd h hb

/-- A written text is read back up to its closing quote. -/
theorem readText?_written (s rest : List Char) :
    readText? none (s.flatMap escapeChar ++ '"' :: rest) = some (s, rest) := by
  induction s with
  | nil => rfl
  | cons c s ih => rw [List.flatMap_cons, List.append_assoc, readText?_escapeChar, ih]; rfl

end RelAlg.Json
