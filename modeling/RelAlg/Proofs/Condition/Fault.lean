import RelAlg.Condition
import RelAlg.Proofs.Condition.Lexemes

set_option autoImplicit false

namespace RelAlg

theorem Number.Literal.start (l : Number.Literal) : ∃ d ds, l.toChars = d :: ds ∧
    (d.isDigit = true ∨ d = '-' ∧ ds.head?.any Char.isDigit = true) := by
  obtain ⟨d, ds, hw⟩ := List.exists_cons_of_ne_nil l.whole_ne
  have hd : d.isDigit = true := l.isDigit_whole d (by rw [hw]; exact List.mem_cons_self)
  rw [Number.Literal.toChars, hw]
  cases l.negative with
  | true => exact ⟨'-', _, rfl, .inr ⟨rfl, hd⟩⟩
  | false => exact ⟨d, _, rfl, .inl hd⟩

namespace Condition

variable {q c : Char} {cs as : List Char} {t : Token} {count : Nat} {fault : LexicalFault}

inductive Spells : List Char → Token → Prop where
  | leftParen : Spells ['('] .leftParen
  | rightParen : Spells [')'] .rightParen
  | symbol {cs : List Char} {t : Token} : (cs, t) ∈ symbols → Spells cs t
  | text {q : Char} (s : List Char) : q = '\'' ∨ q = '"' →
      Spells (q :: doubling q s ++ [q]) (.text (String.ofList s))
  | number (l : Number.Literal) : Spells l.toChars (.number (String.ofList l.toChars))
  | word {c : Char} {w : List Char} : startsName c = true → (∀ d ∈ w, continuesName d = true) →
      Spells (c :: w) (.ofWord (String.ofList (c :: w)))

theorem Reads.spells (h : Reads c cs t count) : Spells (c :: cs.take count) t := by
  cases h with
  | leftParen => exact .leftParen
  | rightParen => exact .rightParen
  | symbol hs hp =>
    rw [← List.prefix_iff_eq_take.1 hp]
    exact .symbol hs
  | text hq ht =>
    obtain ⟨rest, rfl, rfl, -⟩ := exists_quotedTail? ht
    rw [List.append_cons, List.take_left' (by rw [List.length_append, List.length_singleton])]
    exact .text _ hq
  | number hn =>
    rw [← List.prefix_iff_eq_take.1 (numberTail_isPrefix cs)]
    obtain ⟨l, hl⟩ := literal_of_start hn
    rw [hl]
    exact .number l
  | word hw =>
    rw [← List.prefix_iff_eq_take.1 (List.takeWhile_prefix _)]
    exact .word hw fun d hd => List.mem_takeWhile_imp hd

theorem fault_of_read (h : Token.read c cs = .error fault) :
    fault = .unexpected c ∨
      fault = .unterminated ∧ (c = '\'' ∨ c = '"') ∧ quotedTail? c cs = none := by
  simp only [Token.read] at h
  -- the first eleven kinds of signs are read whatever follows
  iterate 11
    obtain ⟨-, hr⟩ | ⟨-, h⟩ := ite_eq_iff.1 h
    · cases hr
  obtain ⟨hq, hr⟩ | ⟨-, h⟩ := ite_eq_iff.1 h
  · split at hr
    · cases hr
    · cases hr
      exact .inr ⟨rfl, hq, by assumption⟩
  iterate 2
    obtain ⟨-, hr⟩ | ⟨-, h⟩ := ite_eq_iff.1 h
    · cases hr
  cases h
  exact .inl rfl

theorem read_open (hq : q = '\'' ∨ q = '"') (h : quotedTail? q cs = none) :
    Token.read q cs = .error .unterminated := by
  rcases hq with rfl | rfl <;> simp [Token.read, h]

/-- Where a character is not expected no token can start. -/
theorem not_spells_of_unexpected (h : Token.read c cs = .error (.unexpected c))
    {source : List Char} (hs : Spells source t) : ¬source <+: c :: cs := by
  rintro ⟨rest, he⟩
  cases hs with
  | leftParen =>
    cases he
    cases h
  | rightParen =>
    cases he
    cases h
  | symbol hs =>
    simp only [symbols, List.mem_cons, Prod.mk.injEq, List.not_mem_nil, or_false] at hs
    rcases hs with ⟨rfl, -⟩ | ⟨rfl, -⟩ | ⟨rfl, -⟩ | ⟨rfl, -⟩ | ⟨rfl, -⟩ | ⟨rfl, -⟩ | ⟨rfl, -⟩ |
      ⟨rfl, -⟩ | ⟨rfl, -⟩ | ⟨rfl, -⟩ | ⟨rfl, -⟩ | ⟨rfl, -⟩ | ⟨rfl, -⟩
    all_goals
      cases he
      cases h
  | @text q s hq =>
    obtain ⟨rfl, -⟩ := List.cons.inj he
    cases ht : quotedTail? q cs with
    | none =>
      rw [read_open hq ht] at h
      cases h
    | some p =>
      rw [read_text hq ht] at h
      cases h
  | number l =>
    obtain ⟨d, ds, hl, hd⟩ := l.start
    rw [hl, List.cons_append] at he
    obtain ⟨rfl, rfl⟩ := List.cons.inj he
    have hd' : d.isDigit = true ∨ d = '-' ∧ (ds ++ rest).head?.any Char.isDigit = true := by
      refine hd.imp_right fun hm => ⟨hm.1, ?_⟩
      have ha := hm.2
      cases ds with
      | nil => cases ha
      | cons d' ds => exact ha
    rw [read_number hd'] at h
    cases h
  | word hw _ =>
    obtain ⟨rfl, -⟩ := List.cons.inj he
    rw [read_word hw] at h
    cases h

/-- Every run of the character that no further one adjoins has even length. -/
def EvenRuns (q : Char) (cs : List Char) : Prop :=
  ∀ as k bs, cs = as ++ List.replicate k q ++ bs → as.getLast? ≠ some q → bs.head? ≠ some q →
    k % 2 = 0

theorem getLast?_ne_of_cons {a : Char} (h : (a :: as).getLast? ≠ some q) :
    as.getLast? ≠ some q := by
  intro hl
  rw [List.getLast?_cons, hl] at h
  exact h rfl

theorem EvenRuns.pair (h : EvenRuns q cs) : EvenRuns q (q :: q :: cs) := by
  rintro (_ | ⟨a, _ | ⟨b, as⟩⟩) k bs he ha hb
  · obtain _ | _ | k := k
    · rfl
    · obtain ⟨-, rfl⟩ : q = q ∧ q :: cs = bs := List.cons.inj he
      exact absurd rfl hb
    · obtain ⟨-, he⟩ := List.cons.inj he
      have hk := h [] k bs (List.cons.inj he).2 ha hb
      omega
  · obtain ⟨rfl, -⟩ := List.cons.inj he
    exact absurd rfl ha
  · obtain ⟨-, he⟩ := List.cons.inj he
    exact h as k bs (List.cons.inj he).2 (getLast?_ne_of_cons (getLast?_ne_of_cons ha)) hb

theorem EvenRuns.cons (h : EvenRuns q cs) (hc : c ≠ q) : EvenRuns q (c :: cs) := by
  rintro (_ | ⟨a, as⟩) k bs he ha hb
  · obtain _ | k := k
    · rfl
    · exact absurd (List.cons.inj he).1 hc
  · exact h as k bs (List.cons.inj he).2 (getLast?_ne_of_cons ha) hb

theorem evenRuns_nil (q : Char) : EvenRuns q [] := by
  intro as k bs he _ _
  have hk := congrArg List.length he
  simp only [List.length_nil, List.length_append, List.length_replicate] at hk
  omega

theorem evenRuns_of_quotedTail? (h : quotedTail? q cs = none) : EvenRuns q cs := by
  fun_induction quotedTail? q cs with
  | case1 => exact evenRuns_nil q
  | case2 => cases h
  | case3 c hc => exact (evenRuns_nil q).cons hc
  | case4 cs ih => exact (ih (Option.map_eq_none_iff.1 h)).pair
  | case5 d cs hd => cases h
  | case6 c d cs hc ih => exact (ih (Option.map_eq_none_iff.1 h)).cons hc

/-- The lexemes of a text that starts at `position`: each stands in it as its token is spelled, none
starts before the one in front of it ends, and a character that is no blank belongs to one. -/
structure Consumed (position : Nat) (cs : List Char) (ls : List Lexeme) : Prop where
  spelled : ∀ l ∈ ls, Spells l.source l.token ∧ ∃ before behind,
    cs = before ++ l.source ++ behind ∧ l.position = position + before.length
  ordered : ls.Pairwise fun l m => l.position + l.source.length ≤ m.position
  covered : ∀ i c, cs[i]? = some c → Text.isBlank c = false →
    ∃! l, l ∈ ls ∧ l.Covers (position + i)

variable {position p : Nat} {ls : List Lexeme}

theorem Consumed.nil : Consumed position [] [] where
  spelled := List.forall_mem_nil _
  ordered := .nil
  covered := fun i c hc => by cases hc

theorem Consumed.blank (h : Consumed (position + 1) cs ls) (hb : Text.isBlank c = true) :
    Consumed position (c :: cs) ls where
  spelled := by
    intro l hl
    obtain ⟨hs, before, behind, rfl, hp⟩ := h.spelled l hl
    refine ⟨hs, c :: before, behind, rfl, ?_⟩
    rw [hp, List.length_cons]
    omega
  ordered := h.ordered
  covered := by
    intro i d hd hn
    cases i with
    | zero =>
      cases hd
      rw [hb] at hn
      cases hn
    | succ i =>
      rw [Nat.add_comm i, ← Nat.add_assoc]
      exact h.covered i d hd hn

theorem Consumed.le_position (h : Consumed position cs ls) {l : Lexeme} (hl : l ∈ ls) :
    position ≤ l.position := by
  obtain ⟨-, before, behind, -, hp⟩ := h.spelled l hl
  rw [hp]
  exact Nat.le_add_right _ _

theorem Consumed.lexeme {source : List Char} (hs : Spells source t)
    (h : Consumed (position + source.length) cs ls) :
    Consumed position (source ++ cs) (⟨t, position, source⟩ :: ls) where
  spelled := by
    refine List.forall_mem_cons.2 ⟨⟨hs, [], cs, rfl, rfl⟩, fun l hl => ?_⟩
    obtain ⟨hs, before, behind, rfl, hp⟩ := h.spelled l hl
    refine ⟨hs, source ++ before, behind, ?_, ?_⟩
    · simp only [List.append_assoc]
    · rw [hp, List.length_append, Nat.add_assoc]
  ordered := List.pairwise_cons.2 ⟨fun _ hl => h.le_position hl, h.ordered⟩
  covered := by
    intro i c hc hn
    by_cases hi : i < source.length
    · refine ⟨⟨t, position, source⟩, ⟨List.mem_cons_self, Nat.le_add_right position i,
        Nat.add_lt_add_left hi position⟩, ?_⟩
      rintro l ⟨hl, hcl, -⟩
      rcases List.mem_cons.1 hl with rfl | hl
      · rfl
      · have hb := h.le_position hl
        omega
    · obtain ⟨k, rfl⟩ := Nat.exists_eq_add_of_le (Nat.le_of_not_lt hi)
      rw [List.getElem?_append_right (Nat.le_add_right _ k), Nat.add_sub_cancel_left] at hc
      obtain ⟨l, ⟨hl, hcl⟩, hu⟩ := h.covered k c hc hn
      rw [← Nat.add_assoc]
      refine ⟨l, ⟨List.mem_cons_of_mem _ hl, hcl⟩, ?_⟩
      rintro l' ⟨hl', hcl'⟩
      rcases List.mem_cons.1 hl' with rfl | hl'
      · have hlt := hcl'.2
        dsimp only at hlt
        omega
      · exact hu l' ⟨hl', hcl'⟩

theorem consumed_of_lexemes (h : lexemes position cs = (ls, none)) : Consumed position cs ls := by
  fun_induction lexemes position cs generalizing ls with
  | case1 =>
    cases h
    exact .nil
  | case2 position c cs hb ih => exact (ih h).blank hb
  | case3 position c cs hb fault hr => cases h
  | case4 position c cs hb t count hr rest fault hl ih =>
    cases h
    have hread := reads_of_read hr
    have hrest := ih hl
    rw [Nat.add_assoc, ← hread.length_source] at hrest
    have h := hrest.lexeme hread.spells
    rwa [List.cons_append, List.take_append_drop] at h

/-- Up to the first fault a text is read as if it ended there. -/
theorem lexemes_before (h : lexemes position cs = (ls, some (fault, p))) :
    ∃ before c behind, cs = before ++ c :: behind ∧ p = position + before.length ∧
      Text.isBlank c = false ∧ Token.read c behind = .error fault ∧
      lexemes position before = (ls, none) := by
  fun_induction lexemes position cs generalizing ls with
  | case1 => cases h
  | case2 position c cs hb ih =>
    obtain ⟨before, d, behind, rfl, rfl, hd, hr, hl⟩ := ih h
    refine ⟨c :: before, d, behind, rfl, ?_, hd, hr, ?_⟩
    · rw [List.length_cons]
      omega
    · rw [lexemes_blank hb, hl]
  | case3 position c cs hb fault hr =>
    cases h
    exact ⟨[], c, cs, rfl, rfl, Bool.eq_false_iff.2 hb, hr, lexemes_nil _⟩
  | case4 position c cs hb t count hr rest fault hl ih =>
    cases h
    obtain ⟨before, d, behind, he, rfl, hd, hf, hb'⟩ := ih hl
    have hread := reads_of_read hr
    have hcs : cs = cs.take count ++ before ++ d :: behind := by
      rw [List.append_assoc, ← he, List.take_append_drop]
    have hlen : (cs.take count).length = count := by
      rw [List.length_take, Nat.min_eq_left hread.count_le]
    refine ⟨c :: (cs.take count ++ before), d, behind, ?_, ?_, hd, hf, ?_⟩
    · rw [List.cons_append, ← hcs]
    · rw [List.length_cons, List.length_append, hlen]
      omega
    · have hr' : Token.read c (cs.take count ++ before) = .ok (t, count) := by
        refine read_of_append ((congrArg (Token.read c) hcs).symm.trans hr) ?_
        rw [List.length_append, hlen]
        exact Nat.le_add_right count _
      rw [lexemes_token (Bool.eq_false_iff.2 hb) hr', List.drop_left' hlen,
        List.take_left' hlen, hb']

/-- Reading a condition consumes all of its text, or it fails at a place inside it. In front of that
place the text is read as if it ended there, to the tokens that were read; the character there is
named, and no token can start with it and what follows, or it is a quote that none of those behind
it closes. -/
theorem tokenize_culprit (cs : List Char) :
    (∃ ls, Consumed 0 cs ls ∧ tokenize cs = .ok (ls.map Lexeme.token)) ∨
    ∃ before c behind, cs = before ++ c :: behind ∧ Text.isBlank c = false ∧
      tokenize before = .ok (lex cs).1 ∧
      (tokenize cs = .error (.unexpectedCharacter c before.length) ∧
          (∀ source t, Spells source t → ¬source <+: c :: behind) ∨
        tokenize cs = .error (.unterminatedText before.length) ∧ (c = '\'' ∨ c = '"') ∧
          EvenRuns c behind) := by
  cases hl : lexemes 0 cs with
  | mk ls fault =>
    have hlex : lex cs = (ls.map Lexeme.token, fault) := by
      rw [lex, hl]
    cases fault with
    | none =>
      refine .inl ⟨ls, consumed_of_lexemes hl, ?_⟩
      rw [tokenize, hlex]
    | some p =>
      obtain ⟨fault, p⟩ := p
      obtain ⟨before, c, behind, he, rfl, hb, hr, hbefore⟩ := lexemes_before hl
      refine .inr ⟨before, c, behind, he, hb, ?_, ?_⟩
      · rw [tokenize, lex, hbefore, hlex]
      · rw [tokenize, hlex, Nat.zero_add]
        rcases fault_of_read hr with rfl | ⟨rfl, hq, ht⟩
        · exact .inl ⟨rfl, fun source t hs => not_spells_of_unexpected hr hs⟩
        · exact .inr ⟨rfl, hq, evenRuns_of_quotedTail? ht⟩

-- The quote that opens at 6 is not closed by the doubled one.
example : tokenize "a != é".toList = .ok [.identifier "a", .notEqual, .identifier "é"] ∧
    tokenize "é = 1 'it''s".toList = .error (.unterminatedText 6) := by
  decide +kernel

end Condition

end RelAlg
