import RelAlg.Proofs.Condition.Lexemes

set_option autoImplicit false

namespace RelAlg

namespace Condition

/-- The tokens of a text, whatever stands before it. -/
def Lexes (cs : List Char) (ts : List Token) : Prop :=
  ∀ position, (lexemes position cs).1.map Lexeme.token = ts ∧ (lexemes position cs).2 = none

section Lexes

variable {c : Char} {cs rest : List Char} {t : Token} {ts us : List Token}

theorem Lexes.lex_eq (h : Lexes cs ts) : lex cs = (ts, none) := by
  rw [lex]
  exact Prod.ext (h 0).1 (h 0).2

theorem lexes_nil : Lexes [] [] := by
  intro position
  rw [lexemes_nil]
  exact ⟨rfl, rfl⟩

theorem Lexes.blank (hb : Text.isBlank c = true) (h : Lexes cs ts) : Lexes (c :: cs) ts := by
  intro position
  rw [lexemes_blank hb]
  exact h (position + 1)

theorem Lexes.token (hb : Text.isBlank c = false)
    (hr : Token.read c (cs ++ rest) = .ok (t, cs.length)) (h : Lexes rest ts) :
    Lexes (c :: cs ++ rest) (t :: ts) := by
  intro position
  rw [List.cons_append, lexemes_token hb hr, List.drop_left]
  exact ⟨congrArg (t :: ·) (h _).1, (h _).2⟩

end Lexes

/-- No written token goes on with this. -/
def Ended (rest : List Char) : Prop :=
  ∀ c ∈ rest.head?, c = ' ' ∨ c = ')'

theorem ended_nil : Ended [] := by
  intro c hc
  cases hc

theorem ended_blank (rest : List Char) : Ended (' ' :: rest) := by
  rintro c ⟨⟩
  exact .inl rfl

theorem ended_rightParen (rest : List Char) : Ended (')' :: rest) := by
  rintro c ⟨⟩
  exact .inr rfl

theorem Ended.divided {rest : List Char} (h : Ended rest) : Divided rest := by
  intro c hc
  rcases h c hc with rfl | rfl
  · exact .inl (by decide)
  · exact .inr (.inr rfl)

/-- The text gives the tokens, and what follows it its own. -/
def Writes (cs : List Char) (ts : List Token) : Prop :=
  ∀ rest us, Ended rest → Lexes rest us → Lexes (cs ++ rest) (ts ++ us)

section Writes

variable {cs ds : List Char} {ts us : List Token}

theorem Writes.lex_eq (h : Writes cs ts) : lex cs = (ts, none) := by
  have hl := (h [] [] ended_nil lexes_nil).lex_eq
  rwa [List.append_nil, List.append_nil] at hl

theorem Writes.spaced (h : Writes cs ts) (h' : Writes ds us) :
    Writes (cs ++ ' ' :: ds) (ts ++ us) := by
  intro rest vs hr hl
  rw [List.append_assoc, List.append_assoc]
  exact h _ _ (ended_blank _) ((h' rest vs hr hl).blank (by decide))

theorem Writes.paren (h : Writes cs ts) :
    Writes ('(' :: cs ++ [')']) (.leftParen :: (ts ++ [.rightParen])) := by
  intro rest vs hr hl
  have hc : Lexes (')' :: [] ++ rest) (.rightParen :: vs) := Lexes.token (by decide) rfl hl
  have hi : Lexes ('(' :: [] ++ (cs ++ ')' :: rest)) (.leftParen :: (ts ++ .rightParen :: vs)) :=
    Lexes.token (by decide) rfl (h _ _ (ended_rightParen rest) hc)
  change Lexes ('(' :: (cs ++ [')'] ++ rest)) (.leftParen :: (ts ++ [.rightParen] ++ vs))
  rw [List.append_assoc, List.append_assoc]
  exact hi

theorem writes_token (c : Char) (cs : List Char) {t : Token} (hb : Text.isBlank c = false)
    (hr : Token.read c cs = .ok (t, cs.length)) : Writes (c :: cs) [t] :=
  fun _ _ he hl => Lexes.token hb (read_append hr he.divided) hl

end Writes

theorem writes_word {c : Char} {w : List Char} (hc : startsName c = true)
    (hw : ∀ d ∈ w, continuesName d = true) :
    Writes (c :: w) [.ofWord (String.ofList (c :: w))] := by
  refine writes_token c w (isBlank_of_startsName hc) ?_
  rw [read_word hc, List.takeWhile_eq_self_iff.2 hw]

theorem writes_comparison (op : Comparison) : Writes op.symbol.toList [comparisonToken op] := by
  cases op with
  | eq => exact writes_token '=' [] (by decide) rfl
  | ne => exact writes_token '!' ['='] (by decide) rfl
  | lt => exact writes_token '<' [] (by decide) rfl
  | le => exact writes_token '<' ['='] (by decide) rfl
  | gt => exact writes_token '>' [] (by decide) rfl
  | ge => exact writes_token '>' ['='] (by decide) rfl

theorem numberTail_body {w : List Char} (l : Number.Literal) (hw : ∀ c ∈ w, c.isDigit = true) :
    numberTail (w ++ l.behind) = w ++ l.behind := by
  have hs : Stops l.behind [] := ⟨fun c hc => (by cases hc), fun _ r he => by cases he⟩
  have hf : IsFraction l.behind := by
    rw [Number.Literal.behind]
    cases hf : l.fraction with
    | nil => exact .inl (if_pos rfl)
    | cons d ds =>
      refine .inr ⟨d, ds, if_neg (List.cons_ne_nil d ds), ?_⟩
      rw [← hf]
      exact l.isDigit_fraction
  have h := numberTail_parts hw hf hs
  rwa [List.append_nil] at h

theorem writes_number (l : Number.Literal) :
    Writes l.toChars [.number (String.ofList l.toChars)] := by
  obtain ⟨d, ds, hw⟩ := List.exists_cons_of_ne_nil l.whole_ne
  have hdigits : ∀ c ∈ d :: ds, c.isDigit = true := by
    rw [← hw]
    exact l.isDigit_whole
  have hd : d.isDigit = true := hdigits d List.mem_cons_self
  rw [Number.Literal.toChars, hw]
  cases l.negative with
  | false =>
    refine writes_token d (ds ++ l.behind) (Text.isBlank_of_isDigit hd) ?_
    rw [read_number (.inl hd), numberTail_body l fun c hc => hdigits c (List.mem_cons_of_mem d hc)]
    rfl
  | true =>
    refine writes_token '-' (d :: ds ++ l.behind) (by decide) ?_
    have ha : (d :: ds ++ l.behind).head?.any Char.isDigit = true := hd
    rw [read_number (.inr ⟨rfl, ha⟩), numberTail_body l hdigits]
    rfl

theorem writes_text (s : String) : Writes (Operand.quote s.toList) [.text s] := by
  refine writes_token '\'' (doubling '\'' s.toList ++ ['\'']) (by decide) ?_
  have hn : ([] : List Char).head? ≠ some '\'' := by simp
  rw [read_text (.inl rfl) (quotedTail?_doubling '\'' s.toList hn), String.ofList_toList,
    List.length_append]
  rfl

end Condition

end RelAlg
