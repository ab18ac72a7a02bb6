import RelAlg.Proofs.Condition.Reading
import RelAlg.Proofs.Number.Text
import RelAlg.Proofs.Text.Words

set_option autoImplicit false

namespace RelAlg.Condition

theorem toNat_of_isAlpha {c : Char} (h : c.isAlpha = true) : 65 ≤ c.toNat ∧ c.toNat ≤ 122 := by
  rcases Bool.or_eq_true_iff.1 h with h | h
  · have hu : 'A'.val ≤ c.val ∧ c.val ≤ 'Z'.val := of_decide_eq_true h
    exact ⟨hu.1, le_trans hu.2 (by decide)⟩
  · obtain ⟨hl, hu⟩ := Bool.and_eq_true_iff.1 h
    have hl : 'a'.val ≤ c.val := of_decide_eq_true hl
    have hu : c.val ≤ 'z'.val := of_decide_eq_true hu
    exact ⟨le_trans (by decide) hl, hu⟩

theorem toNat_of_startsName {c : Char} (h : startsName c = true) :
    65 ≤ c.toNat ∧ c.toNat ≤ 122 ∨ 128 ≤ c.toNat ∧ Text.letterRanges.contains c = true := by
  rw [startsName, Text.isLetter, Bool.or_eq_true, Bool.or_eq_true, Bool.and_eq_true,
    decide_eq_true_eq, decide_eq_true_eq] at h
  rcases h with (h | h) | rfl
  · exact .inl (toNat_of_isAlpha h)
  · exact .inr h
  · exact .inl (by decide)

theorem isBlank_of_startsName {c : Char} (h : startsName c = true) : Text.isBlank c = false := by
  rcases toNat_of_startsName h with ha | ⟨-, hl⟩
  · exact Text.CodePoints.contains_of_apart (by decide) (Text.CodePoints.contains_singleton ha)
  · exact Text.CodePoints.contains_of_apart (by decide +kernel) hl

theorem isDigit_of_startsName {c : Char} (h : startsName c = true) : c.isDigit = false := by
  by_contra hd
  have hd : 48 ≤ c.toNat ∧ c.toNat ≤ 57 :=
    Char.isDigit_iff_toNat.1 (Bool.eq_true_of_not_eq_false hd)
  rcases toNat_of_startsName h with ⟨hl, -⟩ | ⟨hl, -⟩ <;> omega

/-- The characters that start a token which is no word and no number. -/
def signs : List Char :=
  ['=', '<', '>', '!', '&', '|', '≠', '≤', '≥', '(', ')', '\'', '"']

theorem not_sign {p : Char → Bool} (hs : signs.all (fun c => !p c) = true) {c : Char}
    (h : p c = true) : c ∉ signs := by
  intro hc
  have hn := List.all_eq_true.1 hs c hc
  rw [h] at hn
  cases hn

theorem read_of_not_sign {c : Char} (h : c ∉ signs) (cs : List Char) :
    Token.read c cs =
      if c.isDigit ∨ (c = '-' ∧ cs.head?.any Char.isDigit) then
        .ok (.number (String.ofList (c :: numberTail cs)), (numberTail cs).length)
      else if startsName c then
        .ok (.ofWord (String.ofList (c :: cs.takeWhile continuesName)),
          (cs.takeWhile continuesName).length)
      else .error (.unexpected c) := by
  simp only [signs, List.mem_cons, List.not_mem_nil, or_false, not_or] at h
  obtain ⟨h₁, h₂, h₃, h₄, h₅, h₆, h₇, h₈, h₉, h₁₀, h₁₁, h₁₂, h₁₃⟩ := h
  rw [Token.read, if_neg h₁, if_neg h₂, if_neg h₃, if_neg fun h => h₄ h.1, if_neg fun h => h₅ h.1,
    if_neg fun h => h₆ h.1, if_neg h₇, if_neg h₈, if_neg h₉, if_neg h₁₀, if_neg h₁₁,
    if_neg (not_or.2 ⟨h₁₂, h₁₃⟩)]

theorem read_text {q : Char} {cs s : List Char} {count : Nat} (hq : q = '\'' ∨ q = '"')
    (h : quotedTail? q cs = some (s, count)) :
    Token.read q cs = .ok (.text (String.ofList s), count) := by
  rcases hq with rfl | rfl <;> simp [Token.read, h]

theorem read_number {c : Char} {cs : List Char}
    (h : c.isDigit = true ∨ c = '-' ∧ cs.head?.any Char.isDigit = true) :
    Token.read c cs =
      .ok (.number (String.ofList (c :: numberTail cs)), (numberTail cs).length) := by
  have hc : c ∉ signs := by
    rcases h with hd | ⟨rfl, -⟩
    · exact not_sign (by decide) hd
    · decide
  rw [read_of_not_sign hc, if_pos h]

theorem read_word {c : Char} (h : startsName c = true) (cs : List Char) :
    Token.read c cs = .ok (.ofWord (String.ofList (c :: cs.takeWhile continuesName)),
      (cs.takeWhile continuesName).length) := by
  have hd : ¬(c.isDigit = true ∨ c = '-' ∧ cs.head?.any Char.isDigit = true) := by
    rintro (hd | ⟨rfl, -⟩)
    · rw [isDigit_of_startsName h] at hd
      cases hd
    · exact absurd h (by decide +kernel)
  rw [read_of_not_sign (not_sign (by decide +kernel) h), if_neg hd, if_pos h]

def doubling (q : Char) (cs : List Char) : List Char :=
  cs.flatMap fun c => if c = q then [q, q] else [c]

theorem doubling_cons (q c : Char) (cs : List Char) :
    doubling q (c :: cs) = (if c = q then [q, q] else [c]) ++ doubling q cs :=
  List.flatMap_cons

theorem quotedTail?_of_ne {q c : Char} (hc : c ≠ q) {cs : List Char} (hcs : cs ≠ []) :
    quotedTail? q (c :: cs) = (quotedTail? q cs).map fun p => (c :: p.1, p.2 + 1) := by
  obtain ⟨d, ds, rfl⟩ := List.exists_cons_of_ne_nil hcs
  rw [quotedTail?, if_neg hc]

theorem quotedTail?_doubling (q : Char) (cs : List Char) {rest : List Char}
    (hr : rest.head? ≠ some q) :
    quotedTail? q (doubling q cs ++ q :: rest) = some (cs, (doubling q cs).length + 1) := by
  induction cs with
  | nil =>
    cases rest with
    | nil => exact if_pos rfl
    | cons d rest =>
      have hd : d ≠ q := fun hd => hr (congrArg some hd)
      change quotedTail? q (q :: d :: rest) = _
      rw [quotedTail?, if_pos rfl, if_neg hd]
      rfl
  | cons c cs ih =>
    rw [doubling_cons]
    by_cases hc : c = q
    · subst hc
      rw [if_pos rfl, List.append_assoc, List.cons_append, List.singleton_append, quotedTail?,
        if_pos rfl, if_pos rfl, ih]
      rfl
    · rw [if_neg hc, List.append_assoc, List.singleton_append, quotedTail?_of_ne hc (by simp), ih]
      rfl

variable {q c : Char} {cs as bs s tail : List Char} {t t' : Token} {count : Nat}

theorem exists_quotedTail? (h : quotedTail? q cs = some (s, count)) : ∃ rest,
    cs = doubling q s ++ q :: rest ∧ count = (doubling q s).length + 1 ∧ rest.head? ≠ some q := by
  fun_induction quotedTail? q cs generalizing s count with
  | case1 => cases h
  | case2 =>
    cases h
    exact ⟨[], rfl, rfl, fun h => by cases h⟩
  | case3 => cases h
  | case4 cs ih =>
    obtain ⟨⟨s', count'⟩, ht, he⟩ := Option.map_eq_some_iff.1 h
    cases he
    obtain ⟨rest, rfl, rfl, hr⟩ := ih ht
    refine ⟨rest, ?_, ?_, hr⟩ <;> rw [doubling_cons, if_pos rfl] <;> rfl
  | case5 d cs hd =>
    cases h
    exact ⟨d :: cs, rfl, rfl, fun h => hd (Option.some.inj h)⟩
  | case6 c d cs hc ih =>
    obtain ⟨⟨s', count'⟩, ht, he⟩ := Option.map_eq_some_iff.1 h
    cases he
    obtain ⟨rest, he, rfl, hr⟩ := ih ht
    refine ⟨rest, ?_, ?_, hr⟩ <;> rw [doubling_cons, if_neg hc]
    · rw [he]
      rfl
    · rfl

theorem symbol_le (hs : (c :: tail, t') ∈ symbols) (hp : tail <+: cs)
    (h : Token.read c cs = .ok (t, count)) : tail.length ≤ count := by
  obtain ⟨rest, rfl⟩ := hp
  cases tail with
  | nil => exact Nat.zero_le count
  | cons d tail =>
    simp only [symbols, List.mem_cons, Prod.mk.injEq, List.cons.injEq, reduceCtorEq, and_false,
      false_and, or_false, false_or, List.not_mem_nil] at hs
    rcases hs with ⟨⟨rfl, rfl, rfl⟩, -⟩ | ⟨⟨rfl, rfl, rfl⟩, -⟩ | ⟨⟨rfl, rfl, rfl⟩, -⟩ |
      ⟨⟨rfl, rfl, rfl⟩, -⟩ | ⟨⟨rfl, rfl, rfl⟩, -⟩ | ⟨⟨rfl, rfl, rfl⟩, -⟩ | ⟨⟨rfl, rfl, rfl⟩, -⟩
    all_goals
      cases h
      exact Nat.le_refl 1

/-- Of the symbols that a text starts with, the longest is read. -/
theorem read_symbol (hs : (c :: tail, t) ∈ symbols) (hp : tail <+: cs)
    (hmax : ∀ tail' t', (c :: tail', t') ∈ symbols → tail' <+: cs → tail'.length ≤ tail.length) :
    Token.read c cs = .ok (t, tail.length) := by
  obtain ⟨rest, rfl⟩ := hp
  have hne : tail = [] → ∀ d t', ([c, d], t') ∈ symbols → (tail ++ rest).head? ≠ some d := by
    rintro rfl d t' hd he
    obtain ⟨rest', hr⟩ := List.head?_eq_some_iff.1 he
    exact absurd (hmax [d] t' hd ⟨rest', hr.symm⟩) (Nat.not_succ_le_zero 0)
  simp only [symbols, List.mem_cons, Prod.mk.injEq, List.cons.injEq, List.not_mem_nil,
    or_false] at hs
  rcases hs with ⟨⟨rfl, rfl⟩, rfl⟩ | ⟨⟨rfl, rfl⟩, rfl⟩ | ⟨⟨rfl, rfl⟩, rfl⟩ | ⟨⟨rfl, rfl⟩, rfl⟩ |
    ⟨⟨rfl, rfl⟩, rfl⟩ | ⟨⟨rfl, rfl⟩, rfl⟩ | ⟨⟨rfl, rfl⟩, rfl⟩ | ⟨⟨rfl, rfl⟩, rfl⟩ |
    ⟨⟨rfl, rfl⟩, rfl⟩ | ⟨⟨rfl, rfl⟩, rfl⟩ | ⟨⟨rfl, rfl⟩, rfl⟩ | ⟨⟨rfl, rfl⟩, rfl⟩ |
    ⟨⟨rfl, rfl⟩, rfl⟩
  · have he := hne rfl '=' .equal (by decide)
    exact congrArg (fun count => Except.ok (Token.equal, count)) (if_neg he)
  · rfl
  · have he := hne rfl '=' .lessEqual (by decide)
    have hg := hne rfl '>' .notEqual (by decide)
    exact congrArg Except.ok ((if_neg he).trans (if_neg hg))
  · rfl
  · rfl
  · have he := hne rfl '=' .greaterEqual (by decide)
    exact congrArg Except.ok (if_neg he)
  all_goals rfl

/-- A token is read where it can be, unless a longer symbol starts at the same character. -/
theorem read_eq_ok_iff : Token.read c cs = .ok (t, count) ↔ Reads c cs t count ∧
    ∀ tail t', (c :: tail, t') ∈ symbols → tail <+: cs → tail.length ≤ count := by
  refine ⟨fun h => ⟨reads_of_read h, fun tail t' hs hp => symbol_le hs hp h⟩, ?_⟩
  rintro ⟨h, hmax⟩
  cases h with
  | leftParen => rfl
  | rightParen => rfl
  | symbol hs hp => exact read_symbol hs hp hmax
  | text hq ht => exact read_text hq ht
  | number hn => exact read_number hn
  | word hw => exact read_word hw cs

theorem takeWhile_of_append {p : Char → Bool} (h : ((as ++ bs).takeWhile p).length ≤ as.length) :
    (as ++ bs).takeWhile p = as.takeWhile p := by
  rw [List.takeWhile_append] at h ⊢
  split at h <;> rename_i hw
  · have ht : as.takeWhile p = as := (List.takeWhile_prefix p).eq_of_length hw
    rw [List.length_append] at h
    have hb : bs.takeWhile p = [] := List.eq_nil_of_length_eq_zero (by omega)
    rw [if_pos hw, ht, hb, List.append_nil]
  · rw [if_neg hw]

theorem Stops.of_append {f : List Char} (h : Stops f (as ++ bs)) : Stops f as := by
  obtain ⟨hd, hp⟩ := h
  refine ⟨fun c hc => hd c (List.mem_head?_append_of_mem_head? hc), ?_⟩
  rintro hf r rfl
  have ha := hp hf (r ++ bs) rfl
  cases r with
  | nil => rfl
  | cons d r => exact ha

theorem numberTail_of_append (h : (numberTail (as ++ bs)).length ≤ as.length) :
    numberTail (as ++ bs) = numberTail as := by
  obtain ⟨w, f, rest, he, hn, hw, hf, hs⟩ := exists_numberTail (as ++ bs)
  rw [hn] at h ⊢
  have hp : w ++ f <+: as ++ bs := ⟨rest, by rw [he, List.append_assoc]⟩
  obtain ⟨r, rfl⟩ := List.prefix_of_prefix_length_le hp (List.prefix_append as bs) h
  have hr : r ++ bs = rest := by
    rw [List.append_assoc, List.append_assoc] at he
    exact List.append_cancel_left (List.append_cancel_left he)
  rw [← hr] at hs
  rw [List.append_assoc, numberTail_parts hw hf hs.of_append]

theorem quotedTail?_of_append (h : quotedTail? q (as ++ bs) = some (s, count))
    (hc : count ≤ as.length) : quotedTail? q as = some (s, count) := by
  obtain ⟨rest, he, rfl, hr⟩ := exists_quotedTail? h
  rw [List.append_cons] at he
  have hlen : (doubling q s ++ [q]).length ≤ as.length := by
    rwa [List.length_append, List.length_singleton]
  obtain ⟨r, rfl⟩ := List.prefix_of_prefix_length_le ⟨rest, he.symm⟩ (List.prefix_append as bs) hlen
  have hb : r ++ bs = rest := by
    rw [List.append_assoc] at he
    exact List.append_cancel_left he
  rw [List.append_assoc, List.singleton_append]
  refine quotedTail?_doubling q s fun hq => hr ?_
  rw [← hb, List.head?_append, hq]
  rfl

/-- A token is read the same if the text ends behind it. -/
theorem read_of_append (h : Token.read c (as ++ bs) = .ok (t, count)) (hc : count ≤ as.length) :
    Token.read c as = .ok (t, count) := by
  rw [read_eq_ok_iff] at h ⊢
  obtain ⟨hr, hmax⟩ := h
  refine ⟨?_, fun tail t' hs hp => hmax tail t' hs (hp.trans (List.prefix_append as bs))⟩
  cases hr with
  | leftParen => exact .leftParen as
  | rightParen => exact .rightParen as
  | symbol hs hp =>
    exact .symbol hs (List.prefix_of_prefix_length_le hp (List.prefix_append as bs) hc)
  | text hq ht => exact .text hq (quotedTail?_of_append ht hc)
  | number hn =>
    have hn' : c.isDigit = true ∨ c = '-' ∧ as.head?.any Char.isDigit = true := by
      refine hn.imp_right fun ⟨hm, ha⟩ => ⟨hm, ?_⟩
      cases as with
      | cons d as => exact ha
      | nil =>
        -- a sign takes the digit behind it
        obtain ⟨whole, fraction, hw, -, he⟩ := numberTail_eq ([] ++ bs)
        cases bs with
        | nil => cases ha
        | cons d bs =>
          have hd : d.isDigit = true := ha
          rw [List.nil_append, List.takeWhile_cons_of_pos hd] at hw
          rw [he, hw] at hc
          cases hc
    rw [numberTail_of_append hc]
    exact .number hn'
  | word hw =>
    rw [takeWhile_of_append hc]
    exact .word hw

/-- Nothing, or a blank or a parenthesis first. No token goes on with this. -/
def Divided (rest : List Char) : Prop :=
  ∀ c ∈ rest.head?, Text.isBlank c = true ∨ c = '(' ∨ c = ')'

theorem isBlank_of_continuesName (h : continuesName c = true) : Text.isBlank c = false := by
  simp only [continuesName, Text.isLetterOrNumeral, Text.isNumeral, Bool.or_eq_true,
    Bool.and_eq_true, decide_eq_true_eq] at h
  rcases h with (hl | hd | ⟨-, hn⟩) | rfl
  · exact isBlank_of_startsName (Bool.or_eq_true_iff.2 (.inl hl))
  · exact Text.isBlank_of_isDigit hd
  · exact Text.CodePoints.contains_of_apart (by decide +kernel) hn
  · decide

section Divided

variable {rest : List Char}

theorem Divided.head_eq_false (h : Divided rest) {p : Char → Bool}
    (hb : ∀ c, p c = true → Text.isBlank c = false) (hl : p '(' = false) (hr : p ')' = false) :
    ∀ c ∈ rest.head?, p c = false := by
  intro c hc
  rcases h c hc with hc | rfl | rfl
  · by_contra hp
    rw [hb c (Bool.eq_true_of_not_eq_false hp)] at hc
    cases hc
  · exact hl
  · exact hr

theorem Divided.head_ne (h : Divided rest) (hb : Text.isBlank c = false) (hl : c ≠ '(')
    (hr : c ≠ ')') : rest.head? ≠ some c := by
  intro hc
  rcases h c hc with hc | rfl | rfl
  · rw [hb] at hc
    cases hc
  · exact hl rfl
  · exact hr rfl

theorem Divided.isDigit_head (h : Divided rest) : ∀ c ∈ rest.head?, c.isDigit = false :=
  h.head_eq_false (fun _ => Text.isBlank_of_isDigit) (by decide) (by decide)

theorem Stops.append {f : List Char} (h : Stops f cs) (hd : Divided rest) :
    Stops f (cs ++ rest) := by
  cases cs with
  | nil =>
    exact ⟨hd.isDigit_head, fun _ r he =>
      absurd (congrArg List.head? he) (hd.head_ne (by decide) (by decide) (by decide))⟩
  | cons c cs =>
    refine ⟨h.1, fun hf r he => ?_⟩
    obtain ⟨rfl, rfl⟩ := List.cons.inj he
    exact (Text.any_head_append hd.isDigit_head cs).trans (h.2 hf cs rfl)

theorem numberTail_append (cs : List Char) (hd : Divided rest) :
    numberTail (cs ++ rest) = numberTail cs := by
  obtain ⟨w, f, r, rfl, hn, hw, hf, hs⟩ := exists_numberTail cs
  rw [hn, List.append_assoc, List.append_assoc, numberTail_parts hw hf (hs.append hd)]

theorem quotedTail?_append (h : quotedTail? q cs = some (s, count)) (hq : q = '\'' ∨ q = '"')
    (hd : Divided rest) : quotedTail? q (cs ++ rest) = some (s, count) := by
  obtain ⟨r, rfl, rfl, hr⟩ := exists_quotedTail? h
  have hne : rest.head? ≠ some q := by
    rcases hq with rfl | rfl <;> exact hd.head_ne (by decide) (by decide) (by decide)
  rw [List.append_assoc, List.cons_append]
  refine quotedTail?_doubling q s fun he => ?_
  cases r with
  | nil => exact hne he
  | cons c r => exact hr he

theorem symbol_prefix_of_append (hs : (c :: tail, t) ∈ symbols) (hp : tail <+: cs ++ rest)
    (hd : Divided rest) : tail <+: cs := by
  rcases List.prefix_or_prefix_of_prefix hp (List.prefix_append cs rest) with h | ⟨r, rfl⟩
  · exact h
  · cases r with
    | nil => exact ⟨[], by simp⟩
    | cons d r =>
      -- the symbol would contain the first character of what follows
      obtain ⟨behind, rfl⟩ := (List.prefix_append_right_inj cs).1 hp
      have hall : symbols.all (fun s => s.1.tail.all fun c =>
          !Text.isBlank c && c != '(' && c != ')') = true := by decide
      have hm : d ∈ cs ++ d :: r := by simp
      have hn := List.all_eq_true.1 (List.all_eq_true.1 hall _ hs) d hm
      simp only [Bool.and_eq_true, Bool.not_eq_true', bne_iff_ne] at hn
      exact absurd rfl (hd.head_ne hn.1.1 hn.1.2 hn.2)

theorem read_append (h : Token.read c cs = .ok (t, count)) (hd : Divided rest) :
    Token.read c (cs ++ rest) = .ok (t, count) := by
  rw [read_eq_ok_iff] at h ⊢
  obtain ⟨hr, hmax⟩ := h
  refine ⟨?_, fun tail t' hs hp => hmax tail t' hs (symbol_prefix_of_append hs hp hd)⟩
  cases hr with
  | leftParen => exact .leftParen _
  | rightParen => exact .rightParen _
  | symbol hs hp => exact .symbol hs (hp.trans (List.prefix_append cs rest))
  | text hq ht => exact .text hq (quotedTail?_append ht hq hd)
  | number hn =>
    rw [← Text.any_head_append hd.isDigit_head cs] at hn
    rw [← numberTail_append cs hd]
    exact .number hn
  | word hw =>
    have hc : ∀ c ∈ rest.head?, continuesName c = false :=
      hd.head_eq_false (fun _ => isBlank_of_continuesName) (by decide +kernel) (by decide +kernel)
    rw [← Text.takeWhile_append_of_head hc cs]
    exact .word hw

end Divided

end RelAlg.Condition
