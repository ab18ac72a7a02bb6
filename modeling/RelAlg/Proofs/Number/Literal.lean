import RelAlg.Number.Decimal
import RelAlg.Proofs.Text.Spans

/-!
Number literals: an optional minus, digits, and digits behind a point if there are any. Each is
written in one way and is read as the nearest number.
-/

set_option autoImplicit false

namespace RelAlg.Number

structure Literal where
  negative : Bool
  whole : List Char
  fraction : List Char
  whole_ne : whole ≠ []
  digits : ∀ c ∈ whole ++ fraction, c.isDigit = true

namespace Literal

def behind (n : Literal) : List Char :=
  if n.fraction = [] then [] else '.' :: n.fraction

def toChars (n : Literal) : List Char :=
  (if n.negative then ['-'] else []) ++ (n.whole ++ n.behind)

def decimal (n : Literal) : Decimal :=
  ⟨Decimal.ofDigits (n.whole ++ n.fraction), -n.fraction.length⟩

def value (n : Literal) : Number :=
  .real n.negative n.decimal.toMagnitude

theorem isDigit_whole (n : Literal) : ∀ c ∈ n.whole, c.isDigit = true :=
  fun c hc => n.digits c (List.mem_append_left _ hc)

theorem isDigit_fraction (n : Literal) : ∀ c ∈ n.fraction, c.isDigit = true :=
  fun c hc => n.digits c (List.mem_append_right _ hc)

theorem head_behind (n : Literal) : ∀ c ∈ n.behind.head?, c.isDigit = false := by
  intro c hc
  rw [behind] at hc
  split at hc
  · cases hc
  · cases hc
    decide

theorem splitSign_toChars (n : Literal) :
    splitSign n.toChars = (n.negative, n.whole ++ n.behind) := by
  obtain ⟨d, ds, hd⟩ := List.exists_cons_of_ne_nil n.whole_ne
  have hdigit : d.isDigit = true := n.isDigit_whole d (by rw [hd]; exact List.mem_cons_self)
  cases hn : n.negative with
  | true => rw [toChars, hn]; rfl
  | false =>
    rw [toChars, hn, hd]
    change splitSign (d :: (ds ++ n.behind)) = (false, d :: (ds ++ n.behind))
    rw [splitSign]
    · rintro cs h
      cases h
      revert hdigit
      decide
    · rintro cs h
      cases h
      revert hdigit
      decide

theorem readDecimal?_body (n : Literal) :
    readDecimal? (n.whole ++ n.behind) = some n.decimal := by
  have hw : (n.whole ++ n.behind).takeWhile Char.isDigit = n.whole :=
    Text.takeWhile_span n.isDigit_whole n.head_behind
  have hb : (n.whole ++ n.behind).dropWhile Char.isDigit = n.behind :=
    Text.dropWhile_span n.isDigit_whole n.head_behind
  have he : n.whole.isEmpty = false := by
    rw [List.isEmpty_eq_false_iff]
    exact n.whole_ne
  rw [readDecimal?, hw, hb, behind]
  by_cases hf : n.fraction = []
  · simp [hf, he, readExponent?, decimal]
  · have hd : ∀ c ∈ n.fraction, c.isDigit = true := n.isDigit_fraction
    have ht : (n.fraction ++ []).takeWhile Char.isDigit = n.fraction :=
      Text.takeWhile_span hd (by simp)
    have hr : (n.fraction ++ []).dropWhile Char.isDigit = [] :=
      Text.dropWhile_span hd (by simp)
    rw [List.append_nil] at ht hr
    simp [hf, he, ht, hr, readExponent?, decimal]

theorem toLower_of_isDigit {c : Char} (h : c.isDigit = true) : c.toLower = c := by
  have hd : c.toNat ≤ 57 := (Char.isDigit_iff_toNat.1 h).2
  have hu : ¬('A'.val ≤ c.val ∧ c.val ≤ 'Z'.val) := by
    rintro ⟨ha, -⟩
    have ha : 65 ≤ c.toNat := ha
    omega
  exact dif_neg hu

theorem read?_toChars (n : Literal) : read? n.toChars = some n.value := by
  have hword : ∀ (c : Char) (w : List Char), c.isDigit = false →
      String.ofList ((n.whole ++ n.behind).map Char.toLower) ≠ String.ofList (c :: w) := by
    intro c w hc h
    obtain ⟨d, ds, hd⟩ := List.exists_cons_of_ne_nil n.whole_ne
    have hdigit : d.isDigit = true := n.isDigit_whole d (by rw [hd]; exact List.mem_cons_self)
    have hl := String.ofList_injective h
    rw [hd] at hl
    rw [← (List.cons.inj hl).1, toLower_of_isDigit hdigit, hdigit] at hc
    cases hc
  have h₁ := hword 'n' ['a', 'n'] (by decide)
  have h₂ := hword 'i' ['n', 'f'] (by decide)
  have h₃ := hword 'i' ['n', 'f', 'i', 'n', 'i', 't', 'y'] (by decide)
  rw [read?, splitSign_toChars]
  simp only [readDecimal?_body]
  rw [if_neg h₁, if_neg]
  · rfl
  · rw [Bool.or_eq_true, decide_eq_true_eq, decide_eq_true_eq]
    rintro (h | h)
    · exact h₂ h
    · exact h₃ h

theorem toChars_injective : Function.Injective toChars := by
  intro m n h
  have hs : (m.negative, m.whole ++ m.behind) = (n.negative, n.whole ++ n.behind) := by
    rw [← splitSign_toChars, ← splitSign_toChars, h]
  obtain ⟨hneg, hbody⟩ := Prod.mk.inj hs
  have hw : m.whole = n.whole := by
    rw [← Text.takeWhile_span m.isDigit_whole m.head_behind, hbody,
      Text.takeWhile_span n.isDigit_whole n.head_behind]
  have hb : m.behind = n.behind := by
    rw [hw] at hbody
    exact List.append_cancel_left hbody
  have hf : m.fraction = n.fraction := by
    rw [behind, behind] at hb
    split at hb <;> split at hb
    · rename_i hm hn
      rw [hm, hn]
    · cases hb
    · cases hb
    · exact (List.cons.inj hb).2
  cases m
  cases n
  cases hneg
  cases hw
  cases hf
  rfl

end Literal

end RelAlg.Number
