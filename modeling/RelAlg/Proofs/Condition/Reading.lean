import Mathlib.Data.List.TakeWhile
import Mathlib.Logic.Basic
import RelAlg.Proofs.Condition.Grammar

set_option autoImplicit false

namespace RelAlg.Condition

def symbols : List (List Char × Token) :=
  [(['='], .equal), (['=', '='], .equal), (['<'], .less), (['<', '='], .lessEqual),
   (['<', '>'], .notEqual), (['>'], .greater), (['>', '='], .greaterEqual), (['!', '='], .notEqual),
   (['&', '&'], .and), (['|', '|'], .or), (['≠'], .notEqual), (['≤'], .lessEqual),
   (['≥'], .greaterEqual)]

inductive Reads : Char → List Char → Token → Nat → Prop where
  | leftParen (cs : List Char) : Reads '(' cs .leftParen 0
  | rightParen (cs : List Char) : Reads ')' cs .rightParen 0
  | symbol {c : Char} {tail cs : List Char} {t : Token} : (c :: tail, t) ∈ symbols → tail <+: cs →
      Reads c cs t tail.length
  | text {q : Char} {cs s : List Char} {count : Nat} : q = '\'' ∨ q = '"' →
      quotedTail? q cs = some (s, count) → Reads q cs (.text (String.ofList s)) count
  | number {c : Char} {cs : List Char} :
      c.isDigit = true ∨ c = '-' ∧ cs.head?.any Char.isDigit = true →
      Reads c cs (.number (String.ofList (c :: numberTail cs))) (numberTail cs).length
  | word {c : Char} {cs : List Char} : startsName c = true →
      Reads c cs (.ofWord (String.ofList (c :: cs.takeWhile continuesName)))
        (cs.takeWhile continuesName).length

variable {c d : Char} {cs : List Char} {t : Token} {count : Nat}

theorem symbol_alone (h : ([c], t) ∈ symbols) : Reads c cs t 0 :=
  .symbol h List.nil_prefix

theorem symbol_with (hd : cs.head? = some d) (h : ([c, d], t) ∈ symbols) : Reads c cs t 1 := by
  obtain ⟨rest, rfl⟩ := List.head?_eq_some_iff.1 hd
  exact .symbol h ⟨rest, rfl⟩

theorem reads_of_read (h : Token.read c cs = .ok (t, count)) : Reads c cs t count := by
  simp only [Token.read] at h
  rcases ite_eq_iff.1 h with ⟨rfl, hr⟩ | ⟨-, h⟩
  · split at hr <;> cases hr
    · exact symbol_with (by assumption) (by decide)
    · exact symbol_alone (by decide)
  rcases ite_eq_iff.1 h with ⟨rfl, hr⟩ | ⟨-, h⟩
  · split at hr
    · cases hr
      exact symbol_with (by assumption) (by decide)
    split at hr <;> cases hr
    · exact symbol_with (by assumption) (by decide)
    · exact symbol_alone (by decide)
  rcases ite_eq_iff.1 h with ⟨rfl, hr⟩ | ⟨-, h⟩
  · split at hr <;> cases hr
    · exact symbol_with (by assumption) (by decide)
    · exact symbol_alone (by decide)
  rcases ite_eq_iff.1 h with ⟨⟨rfl, hd⟩, hr⟩ | ⟨-, h⟩
  · cases hr
    exact symbol_with hd (by decide)
  rcases ite_eq_iff.1 h with ⟨⟨rfl, hd⟩, hr⟩ | ⟨-, h⟩
  · cases hr
    exact symbol_with hd (by decide)
  rcases ite_eq_iff.1 h with ⟨⟨rfl, hd⟩, hr⟩ | ⟨-, h⟩
  · cases hr
    exact symbol_with hd (by decide)
  rcases ite_eq_iff.1 h with ⟨rfl, hr⟩ | ⟨-, h⟩
  · cases hr
    exact symbol_alone (by decide)
  rcases ite_eq_iff.1 h with ⟨rfl, hr⟩ | ⟨-, h⟩
  · cases hr
    exact symbol_alone (by decide)
  rcases ite_eq_iff.1 h with ⟨rfl, hr⟩ | ⟨-, h⟩
  · cases hr
    exact symbol_alone (by decide)
  rcases ite_eq_iff.1 h with ⟨rfl, hr⟩ | ⟨-, h⟩
  · cases hr
    exact .leftParen cs
  rcases ite_eq_iff.1 h with ⟨rfl, hr⟩ | ⟨-, h⟩
  · cases hr
    exact .rightParen cs
  rcases ite_eq_iff.1 h with ⟨hq, hr⟩ | ⟨-, h⟩
  · split at hr <;> cases hr
    exact .text hq (by assumption)
  rcases ite_eq_iff.1 h with ⟨hn, hr⟩ | ⟨-, h⟩
  · cases hr
    exact .number hn
  rcases ite_eq_iff.1 h with ⟨hw, hr⟩ | ⟨-, h⟩
  · cases hr
    exact .word hw
  · cases h

/-- A point with digits behind it, or nothing. -/
def IsFraction (f : List Char) : Prop :=
  f = [] ∨ ∃ d ds, f = '.' :: d :: ds ∧ ∀ c ∈ d :: ds, c.isDigit = true

/-- A number with this fraction does not go on with what follows. -/
def Stops (f rest : List Char) : Prop :=
  (∀ c ∈ rest.head?, c.isDigit = false) ∧
    (f = [] → ∀ r, rest = '.' :: r → r.head?.any Char.isDigit = false)

theorem exists_numberTail (cs : List Char) : ∃ w f rest, cs = w ++ (f ++ rest) ∧
    numberTail cs = w ++ f ∧ (∀ c ∈ w, c.isDigit = true) ∧ IsFraction f ∧ Stops f rest := by
  have hcs : cs.takeWhile Char.isDigit ++ cs.dropWhile Char.isDigit = cs :=
    List.takeWhile_append_dropWhile
  have hw : ∀ c ∈ cs.takeWhile Char.isDigit, c.isDigit = true := fun c hc =>
    List.mem_takeWhile_imp hc
  have hd := Text.head_dropWhile (p := Char.isDigit) cs
  rw [numberTail]
  split
  · rename_i r hr
    rw [hr] at hcs hd
    split
    · rename_i ha
      refine ⟨_, '.' :: r.takeWhile Char.isDigit, r.dropWhile Char.isDigit, ?_, rfl, hw, ?_,
        Text.head_dropWhile r, fun he => by cases he⟩
      · rw [List.cons_append, List.takeWhile_append_dropWhile, hcs]
      · obtain ⟨d, hd, hdigit⟩ := (Option.any_eq_true _ _).1 ha
        obtain ⟨r, rfl⟩ := List.head?_eq_some_iff.1 hd
        rw [List.takeWhile_cons_of_pos hdigit]
        exact .inr ⟨d, _, rfl,
          List.forall_mem_cons.2 ⟨hdigit, fun c hc => List.mem_takeWhile_imp hc⟩⟩
    · rename_i ha
      refine ⟨_, [], _, hcs.symm, (List.append_nil _).symm, hw, .inl rfl, hd, ?_⟩
      rintro - r' ⟨⟩
      exact Bool.eq_false_iff.2 ha
  · rename_i hne
    exact ⟨_, [], _, hcs.symm, (List.append_nil _).symm, hw, .inl rfl, hd,
      fun _ r he => absurd he (hne r)⟩

theorem numberTail_parts {w f rest : List Char} (hw : ∀ c ∈ w, c.isDigit = true)
    (hf : IsFraction f) (hs : Stops f rest) : numberTail (w ++ (f ++ rest)) = w ++ f := by
  obtain ⟨hd, hp⟩ := hs
  obtain rfl | ⟨d, ds, rfl, hds⟩ := hf
  · rw [numberTail, List.nil_append, Text.takeWhile_span hw hd, Text.dropWhile_span hw hd,
      List.append_nil]
    split
    · exact if_neg (Bool.eq_false_iff.1 (hp rfl _ rfl))
    · rfl
  · have hh : ∀ c ∈ ('.' :: d :: ds ++ rest).head?, c.isDigit = false := by
      rintro c ⟨⟩
      decide
    have ha : (d :: ds ++ rest).head?.any Char.isDigit = true := hds d List.mem_cons_self
    rw [numberTail, Text.takeWhile_span hw hh, Text.dropWhile_span hw hh]
    exact (if_pos ha).trans (congrArg (w ++ '.' :: ·) (Text.takeWhile_span hds hd))

/-- Digits, and a point with digits behind it or nothing else. -/
theorem numberTail_eq (cs : List Char) : ∃ whole fraction : List Char,
    whole = cs.takeWhile Char.isDigit ∧ (∀ c ∈ fraction, c.isDigit = true) ∧
      numberTail cs = whole ++ if fraction = [] then [] else '.' :: fraction := by
  rw [numberTail]
  split
  · rename_i rest hr
    split
    · rename_i hd
      refine ⟨_, rest.takeWhile Char.isDigit, rfl, fun c hc => ?_, ?_⟩
      · exact List.mem_takeWhile_imp hc
      · cases rest with
        | nil => cases hd
        | cons d rest =>
          have hd : d.isDigit = true := hd
          rw [List.takeWhile_cons_of_pos hd, if_neg (by simp)]
    · exact ⟨_, [], rfl, by simp, by simp⟩
  · exact ⟨_, [], rfl, by simp, by simp⟩

theorem numberTail_isPrefix (cs : List Char) : numberTail cs <+: cs := by
  have hw : cs.takeWhile Char.isDigit ++ cs.dropWhile Char.isDigit = cs :=
    List.takeWhile_append_dropWhile
  rw [numberTail]
  split
  · rename_i rest hr
    split
    · refine ⟨rest.dropWhile Char.isDigit, ?_⟩
      rw [List.append_assoc, List.cons_append, List.takeWhile_append_dropWhile, ← hr, hw]
    · exact List.takeWhile_prefix _
  · exact List.takeWhile_prefix _

theorem literal_of_start (h : c.isDigit = true ∨ c = '-' ∧ cs.head?.any Char.isDigit = true) :
    ∃ n : Number.Literal, c :: numberTail cs = n.toChars := by
  obtain ⟨whole, fraction, hw, hf, he⟩ := numberTail_eq cs
  have hw' : ∀ c ∈ whole, c.isDigit = true := by
    intro c hc
    rw [hw] at hc
    exact List.mem_takeWhile_imp hc
  rw [he]
  rcases h with hc | ⟨rfl, hd⟩
  · refine ⟨⟨false, c :: whole, fraction, by simp, fun d hd => ?_⟩, rfl⟩
    rcases List.mem_append.1 hd with hd | hd
    · rcases List.mem_cons.1 hd with rfl | hd
      · exact hc
      · exact hw' d hd
    · exact hf d hd
  · refine ⟨⟨true, whole, fraction, ?_, fun d hd => ?_⟩, rfl⟩
    · cases cs with
      | nil => cases hd
      | cons d cs =>
        have hd : d.isDigit = true := hd
        rw [hw, List.takeWhile_cons_of_pos hd]
        simp
    · rcases List.mem_append.1 hd with hd | hd
      · exact hw' d hd
      · exact hf d hd

theorem Token.ofWord_mem (word : String) :
    ofWord word ∈ [and, or, true, false, identifier word] := by
  rw [ofWord]
  split
  · simp
  split
  · simp
  split
  · simp
  split <;> simp

theorem Reads.lexical (h : Reads c cs t count) : t.Lexical := by
  intro literal ht
  cases h with
  | leftParen => cases ht
  | rightParen => cases ht
  | symbol hs _ =>
    rw [ht] at hs
    simp [symbols] at hs
  | text _ _ => cases ht
  | number hn =>
    cases ht
    obtain ⟨n, hn⟩ := literal_of_start hn
    exact ⟨n, congrArg String.ofList hn⟩
  | word _ =>
    have hw := Token.ofWord_mem (String.ofList (c :: cs.takeWhile continuesName))
    rw [ht] at hw
    simp at hw

theorem Reads.paren (h : Reads c cs t count) :
    (t = .leftParen → c = '(' ∧ count = 0) ∧ (t = .rightParen → c = ')' ∧ count = 0) := by
  cases h with
  | leftParen => exact ⟨fun _ => ⟨rfl, rfl⟩, fun ht => by cases ht⟩
  | rightParen => exact ⟨fun ht => (by cases ht), fun _ => ⟨rfl, rfl⟩⟩
  | symbol hs _ =>
    constructor
    all_goals
      intro ht
      rw [ht] at hs
      simp [symbols] at hs
  | text _ _ => exact ⟨fun ht => (by cases ht), fun ht => by cases ht⟩
  | number _ => exact ⟨fun ht => (by cases ht), fun ht => by cases ht⟩
  | word _ =>
    have hw := Token.ofWord_mem (String.ofList (c :: cs.takeWhile continuesName))
    constructor
    all_goals
      intro ht
      rw [ht] at hw
      simp at hw

theorem forall_lexemes {P : Token → Prop}
    (h : ∀ {c : Char} {cs : List Char} {t : Token} {count : Nat}, Reads c cs t count → P t)
    (position : Nat) (cs : List Char) : ∀ l ∈ (lexemes position cs).1, P l.token := by
  fun_induction lexemes position cs with
  | case1 =>
    intro l hl
    cases hl
  | case2 position c cs hb ih => exact ih
  | case3 position c cs hb fault hr =>
    intro l hl
    cases hl
  | case4 position c cs hb t count hr rest fault hl ih =>
    rw [hl] at ih
    intro l hl
    rcases List.mem_cons.1 hl with rfl | hl
    · exact h (reads_of_read hr)
    · exact ih l hl

theorem forall_lex {P : Token → Prop}
    (h : ∀ {c : Char} {cs : List Char} {t : Token} {count : Nat}, Reads c cs t count → P t)
    (cs : List Char) : ∀ t ∈ (lex cs).1, P t := by
  intro t ht
  obtain ⟨l, hl, rfl⟩ := List.mem_map.1 ht
  exact forall_lexemes h 0 cs l hl

theorem lexical_lex (cs : List Char) : ∀ t ∈ (lex cs).1, t.Lexical :=
  forall_lex Reads.lexical cs

end RelAlg.Condition
