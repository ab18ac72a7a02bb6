import RelAlg.Proofs.Condition.Fault

set_option autoImplicit false

namespace RelAlg

/-- The same error of a text that starts farther along. -/
def ConditionError.moved (n : Nat) : ConditionError → ConditionError
  | unexpectedCharacter c position => unexpectedCharacter c (position + n)
  | unterminatedText position => unterminatedText (position + n)
  | e => e

theorem ConditionError.moved_moved (m n : Nat) (e : ConditionError) :
    (e.moved m).moved n = e.moved (m + n) := by
  cases e with
  | unexpectedCharacter c position =>
    exact congrArg (unexpectedCharacter c) (Nat.add_assoc position m n)
  | unterminatedText position => exact congrArg unterminatedText (Nat.add_assoc position m n)
  | _ => rfl

namespace Condition

variable {w : Char} {as bs cs : List Char} {ts : List Token} {t : Token}

def outcome : List Token × Option (LexicalFault × Nat) → Except ConditionError (List Token)
  | (ts, none) => .ok ts
  | (_, some (fault, position)) => .error (fault.toError position)

theorem outcome_append (ts : List Token) (read : List Token × Option (LexicalFault × Nat)) :
    outcome (ts ++ read.1, read.2) = (outcome read).map (ts ++ ·) := by
  obtain ⟨us, _ | ⟨fault, position⟩⟩ := read <;> rfl

theorem outcome_moved (n : Nat) (read : List Token × Option (LexicalFault × Nat)) :
    outcome (read.1, read.2.map fun p => (p.1, p.2 + n)) =
      (outcome read).mapError (.moved n) := by
  obtain ⟨us, _ | ⟨_ | _, position⟩⟩ := read <;> rfl

theorem tokenize_eq (cs : List Char) : tokenize cs = outcome (lex cs) := by
  rw [tokenize]
  obtain ⟨us, _ | ⟨fault, position⟩⟩ := lex cs <;> rfl

theorem lex_of_tokenize (h : tokenize cs = .ok ts) : lex cs = (ts, none) := by
  rw [tokenize_eq] at h
  cases hl : lex cs with
  | mk us fault =>
    rw [hl] at h
    cases fault with
    | none =>
      cases h
      rfl
    | some p => cases h

theorem lex_append (h : lex as = (ts, none)) (hd : Divided bs) : lex (as ++ bs) =
    (ts ++ (lex bs).1, (lex bs).2.map fun p => (p.1, p.2 + as.length)) := by
  obtain ⟨rfl, hf⟩ := Prod.mk.inj h
  have hl : lexemes 0 (as ++ bs) = _ := lexemes_append (Prod.ext rfl hf) hd
  rw [lexemes_add] at hl
  rw [lex, hl, lex]
  simp only [List.map_append, List.map_map]
  rfl

theorem tokenize_append (h : tokenize as = .ok ts) (hd : Divided bs) :
    tokenize (as ++ bs) = ((tokenize bs).map (ts ++ ·)).mapError (.moved as.length) := by
  rw [tokenize_eq, lex_append (lex_of_tokenize h) hd, tokenize_eq, ← outcome_append,
    ← outcome_moved]

theorem tokenize_blank (hw : Text.isBlank w = true) (cs : List Char) :
    tokenize (w :: cs) = (tokenize cs).mapError (.moved 1) := by
  have hl : lexemes 0 (w :: cs) = _ := (lexemes_blank hw 0 cs).trans (lexemes_add 1 0 cs)
  rw [tokenize_eq, lex, hl, tokenize_eq, ← outcome_moved, lex]
  simp only [List.map_map]
  rfl

theorem lexemes_dropWhile (position : Nat) (cs : List Char) : lexemes position cs =
    lexemes (position + (cs.takeWhile Text.isBlank).length) (cs.dropWhile Text.isBlank) := by
  induction cs generalizing position with
  | nil => rfl
  | cons c cs ih =>
    by_cases hb : Text.isBlank c = true
    · rw [lexemes_blank hb, ih, List.takeWhile_cons_of_pos hb, List.dropWhile_cons_of_pos hb,
        List.length_cons, Nat.add_assoc, Nat.add_comm 1]
    · rw [List.takeWhile_cons_of_neg hb, List.dropWhile_cons_of_neg hb]
      rfl

/-- How far a text is read, and what is left of it. -/
structure Place where
  position : Nat
  ahead : List Char
deriving DecidableEq

inductive Found where
  | finish
  | fault (fault : LexicalFault) (position : Nat)
  | token (t : Token) (behind : Place)
deriving DecidableEq

namespace Place

variable {p q : Place}

def next (p : Place) : Found :=
  let position := p.position + (p.ahead.takeWhile Text.isBlank).length
  match p.ahead.dropWhile Text.isBlank with
  | [] => .finish
  | c :: cs =>
    match Token.read c cs with
    | .error fault => .fault fault position
    | .ok (t, count) => .token t ⟨position + 1 + count, cs.drop count⟩

/-- The tokens from a place on, call by call; none if so many calls do not reach the end. -/
def tokens? : Nat → Place → Option (Except ConditionError (List Token))
  | 0, _ => none
  | n + 1, p =>
    match p.next with
    | .finish => some (.ok [])
    | .fault fault position => some (.error (fault.toError position))
    | .token t q => (tokens? n q).map fun ts => ts.map (t :: ·)

def lex (p : Place) : List Token × Option (LexicalFault × Nat) :=
  ((lexemes p.position p.ahead).1.map Lexeme.token, (lexemes p.position p.ahead).2)

theorem lex_eq (p : Place) : p.lex = match p.next with
    | .finish => ([], none)
    | .fault fault position => ([], some (fault, position))
    | .token t q => (t :: q.lex.1, q.lex.2) := by
  rw [lex, lexemes_dropWhile, next]
  cases hc : p.ahead.dropWhile Text.isBlank with
  | nil =>
    rw [lexemes_nil]
    rfl
  | cons c cs =>
    have hb : Text.isBlank c = false := Text.head_dropWhile p.ahead c (by rw [hc]; rfl)
    cases hr : Token.read c cs with
    | error fault => simp only [lexemes_fault hb hr, hr, List.map_nil]
    | ok r =>
      simp only [lexemes_token hb hr, hr]
      rfl

theorem exists_of_next (h : p.next = .token t q) : ∃ blanks source,
    p.ahead = blanks ++ source ++ q.ahead ∧ (∀ c ∈ blanks, Text.isBlank c = true) ∧
      Spells source t ∧ source ≠ [] ∧ q.position = p.position + (blanks ++ source).length := by
  rw [next] at h
  cases hc : p.ahead.dropWhile Text.isBlank with
  | nil =>
    rw [hc] at h
    cases h
  | cons c cs =>
    cases hr : Token.read c cs with
    | error fault =>
      simp only [hc, hr] at h
      cases h
    | ok r =>
      simp only [hc, hr] at h
      cases h
      have hread := reads_of_read hr
      refine ⟨p.ahead.takeWhile Text.isBlank, c :: cs.take r.2, ?_,
        fun c hm => List.mem_takeWhile_imp hm, hread.spells, List.cons_ne_nil _ _, ?_⟩
      · rw [List.append_assoc, List.cons_append, List.take_append_drop, ← hc,
          List.takeWhile_append_dropWhile]
      · rw [List.length_append, hread.length_source, Nat.add_assoc, Nat.add_assoc]

theorem length_lt_of_next (h : p.next = .token t q) : q.ahead.length < p.ahead.length := by
  obtain ⟨blanks, source, he, -, -, hs, -⟩ := exists_of_next h
  have hpos := List.length_pos_iff.2 hs
  rw [he, List.length_append, List.length_append]
  omega

/-- The text left gets shorter with each token, so it has no more tokens than characters. -/
theorem length_lex_le (p : Place) : p.lex.1.length ≤ p.ahead.length := by
  rw [lex_eq]
  cases hn : p.next with
  | finish => exact Nat.zero_le _
  | fault => exact Nat.zero_le _
  | token t q =>
    have hlt := length_lt_of_next hn
    exact Nat.succ_le_of_lt (Nat.lt_of_le_of_lt q.length_lex_le hlt)
termination_by p.ahead.length

/-- One call for each token and one that meets the end or the fault: so many are enough, and no
fewer. -/
theorem tokens?_eq (n : Nat) (p : Place) :
    tokens? n p = if p.lex.1.length < n then some (outcome p.lex) else none := by
  induction n generalizing p with
  | zero => rfl
  | succ n ih =>
    rw [tokens?, lex_eq]
    cases p.next with
    | finish => rfl
    | fault => rfl
    | token t q =>
      have hout : outcome (t :: q.lex.1, q.lex.2) = (outcome q.lex).map (t :: ·) :=
        outcome_append [t] q.lex
      simp only [ih, hout, List.length_cons, Nat.add_lt_add_iff_right]
      split <;> rfl

end Place

/-- Reading is compositional at blanks: behind a text without faults and a blank, a text gives the
tokens that it gives alone, or the same error farther along. Each call of the reader takes a token
of one character or more, so a text is read to its end with one call more than it has tokens. -/
theorem tokenize_piecewise :
    (∀ as ts w bs, tokenize as = .ok ts → Text.isBlank w = true → tokenize (as ++ w :: bs) =
      ((tokenize bs).map (ts ++ ·)).mapError (.moved (as.length + 1))) ∧
    (∀ (p q : Place) t, p.next = .token t q → ∃ blanks source,
      p.ahead = blanks ++ source ++ q.ahead ∧ (∀ c ∈ blanks, Text.isBlank c = true) ∧
        Spells source t ∧ source ≠ [] ∧ q.position = p.position + (blanks ++ source).length) ∧
    ∀ cs, (lex cs).1.length ≤ cs.length ∧ ∀ n, Place.tokens? n ⟨0, cs⟩ =
      if (lex cs).1.length < n then some (tokenize cs) else none := by
  refine ⟨fun as ts w bs h hw => ?_, fun p q t => Place.exists_of_next, fun cs => ?_⟩
  · have hd : Divided (w :: bs) := by
      rintro c ⟨⟩
      exact .inl hw
    rw [tokenize_append h hd, tokenize_blank hw, Nat.add_comm as.length]
    cases tokenize bs with
    | ok us => rfl
    | error e => exact congrArg Except.error (e.moved_moved 1 as.length)
  · refine ⟨Place.length_lex_le ⟨0, cs⟩, fun n => ?_⟩
    rw [tokenize_eq]
    exact Place.tokens?_eq n ⟨0, cs⟩

theorem tokenize_piecewise_signs :
    (tokenize "a <".toList = .ok [.identifier "a", .less] ∧ Text.isBlank '\t' = true ∧
      tokenize "a <\t= 'b'".toList = .ok [.identifier "a", .less, .equal, .text "b"] ∧
      tokenize "a <\t= 'b".toList = .error (.unterminatedText 6)) ∧
    (Place.next ⟨3, "\t= 'b".toList⟩ = .token .equal ⟨5, " 'b".toList⟩ ∧
      ∃ blanks source, "\t= 'b".toList = blanks ++ source ++ " 'b".toList ∧ source ≠ [] ∧
        5 = 3 + (blanks ++ source).length) ∧
    Place.tokens? 3 ⟨0, "a <\t= 'b".toList⟩ = none ∧
    Place.tokens? 4 ⟨0, "a <\t= 'b".toList⟩ = some (.error (.unterminatedText 6)) := by
  have ha : tokenize "a <".toList = .ok [.identifier "a", .less] := by decide +kernel
  have hw : Text.isBlank '\t' = true := by decide
  have hclosed : tokenize "= 'b'".toList = .ok [.equal, .text "b"] := by decide +kernel
  have hopen : tokenize "= 'b".toList = .error (.unterminatedText 2) := by decide +kernel
  have hn : Place.next ⟨3, "\t= 'b".toList⟩ = .token .equal ⟨5, " 'b".toList⟩ := by decide +kernel
  have hcount : (lex "a <\t= 'b".toList).1.length = 3 := by decide +kernel
  obtain ⟨hjoin, hnext, hcalls⟩ := tokenize_piecewise
  have hrun := (hcalls "a <\t= 'b".toList).2
  rw [hcount] at hrun
  have herror : tokenize "a <\t= 'b".toList = .error (.unterminatedText 6) :=
    (hjoin _ _ '\t' "= 'b".toList ha hw).trans (by rw [hopen]; rfl)
  refine ⟨⟨ha, hw, ?_, herror⟩, ⟨hn, ?_⟩, hrun 3, ?_⟩
  · exact (hjoin _ _ '\t' "= 'b'".toList ha hw).trans (by rw [hclosed]; rfl)
  · obtain ⟨blanks, source, he, -, -, hs, hp⟩ := hnext _ _ _ hn
    exact ⟨blanks, source, he, hs, hp⟩
  · rw [← herror]
    exact hrun 4

end Condition

end RelAlg
