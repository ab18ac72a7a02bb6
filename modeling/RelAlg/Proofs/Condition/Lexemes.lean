import RelAlg.Proofs.Condition.Longest

set_option autoImplicit false

namespace RelAlg.Condition

def Lexeme.Covers (l : Lexeme) (i : Nat) : Prop :=
  l.position ≤ i ∧ i < l.position + l.source.length

/-- The character at a place is read as part of this token. -/
def ReadAs (ls : List Lexeme) (i : Nat) (t : Token) : Prop :=
  ∃ l ∈ ls, l.Covers i ∧ l.token = t

theorem count_le_of_quotedTail? {q : Char} {cs s : List Char} {count : Nat}
    (h : quotedTail? q cs = some (s, count)) : count ≤ cs.length := by
  fun_induction quotedTail? q cs generalizing s count with
  | case1 => cases h
  | case2 =>
    cases h
    exact Nat.le_refl 1
  | case3 => cases h
  | case4 cs ih =>
    obtain ⟨⟨s', count'⟩, ht, he⟩ := Option.map_eq_some_iff.1 h
    cases he
    exact Nat.add_le_add_right (ih ht) 2
  | case5 d cs hd =>
    cases h
    exact Nat.le_add_left 1 _
  | case6 c d cs hc ih =>
    obtain ⟨⟨s', count'⟩, ht, he⟩ := Option.map_eq_some_iff.1 h
    cases he
    exact Nat.add_le_add_right (ih ht) 1

theorem Reads.count_le {c : Char} {cs : List Char} {t : Token} {count : Nat}
    (h : Reads c cs t count) : count ≤ cs.length := by
  cases h with
  | leftParen => exact Nat.zero_le _
  | rightParen => exact Nat.zero_le _
  | symbol _ hp => exact hp.length_le
  | text _ ht => exact count_le_of_quotedTail? ht
  | number _ => exact (numberTail_isPrefix cs).length_le
  | word _ => exact (List.takeWhile_prefix _).length_le

theorem Reads.length_source {c : Char} {cs : List Char} {t : Token} {count : Nat}
    (h : Reads c cs t count) : (c :: cs.take count).length = 1 + count := by
  rw [List.length_cons, List.length_take, Nat.min_eq_left h.count_le, Nat.add_comm]

/-- Lexemes stand inside the text that they are read from. -/
theorem bounds_of_mem_lexemes {position : Nat} {cs : List Char} :
    ∀ l ∈ (lexemes position cs).1,
      position ≤ l.position ∧ l.position + l.source.length ≤ position + cs.length := by
  fun_induction lexemes position cs with
  | case1 =>
    intro l hl
    cases hl
  | case2 position c cs hb ih =>
    intro l hl
    have h := ih l hl
    rw [List.length_cons]
    omega
  | case3 position c cs hb fault hr =>
    intro l hl
    cases hl
  | case4 position c cs hb t count hr rest fault he ih =>
    have hc := (reads_of_read hr).count_le
    rw [he, List.length_drop] at ih
    intro l hl
    rw [List.length_cons]
    rcases List.mem_cons.1 hl with rfl | hl
    · simp only [List.length_cons, List.length_take]
      omega
    · have h := ih l hl
      omega

def Lexeme.moved (n : Nat) (l : Lexeme) : Lexeme :=
  { l with position := l.position + n }

theorem lexemes_add (n position : Nat) (cs : List Char) :
    lexemes (position + n) cs =
      ((lexemes position cs).1.map (Lexeme.moved n),
        (lexemes position cs).2.map fun p => (p.1, p.2 + n)) := by
  fun_induction lexemes position cs with
  | case1 => exact lexemes_nil _
  | case2 position c cs hb ih =>
    rw [lexemes_blank hb, Nat.add_right_comm]
    exact ih
  | case3 position c cs hb fault hr => exact lexemes_fault (Bool.eq_false_iff.2 hb) hr _
  | case4 position c cs hb t count hr rest fault he ih =>
    rw [he] at ih
    rw [lexemes_token (Bool.eq_false_iff.2 hb) hr, Nat.add_right_comm position n,
      Nat.add_right_comm (position + 1) n, ih]
    rfl

theorem lexemes_tokens (position position' : Nat) (cs : List Char) :
    (lexemes position cs).1.map Lexeme.token = (lexemes position' cs).1.map Lexeme.token ∧
      ((lexemes position cs).2 = none ↔ (lexemes position' cs).2 = none) := by
  have h : ∀ n, (lexemes n cs).1.map Lexeme.token = (lexemes 0 cs).1.map Lexeme.token ∧
      ((lexemes n cs).2 = none ↔ (lexemes 0 cs).2 = none) := by
    intro n
    rw [← Nat.zero_add n, lexemes_add, List.map_map]
    exact ⟨rfl, Option.map_eq_none_iff⟩
  exact ⟨(h position).1.trans (h position').1.symm, (h position).2.trans (h position').2.symm⟩

/-- Behind a text without faults a blank or a parenthesis is read as the start of a text. -/
theorem lexemes_append {position : Nat} {as bs : List Char} {ls : List Lexeme}
    (h : lexemes position as = (ls, none)) (hd : Divided bs) :
    lexemes position (as ++ bs) = (ls ++ (lexemes (position + as.length) bs).1,
      (lexemes (position + as.length) bs).2) := by
  fun_induction lexemes position as generalizing ls with
  | case1 =>
    cases h
    rfl
  | case2 position c cs hb ih =>
    rw [List.cons_append, lexemes_blank hb, ih h, List.length_cons, Nat.add_right_comm,
      Nat.add_assoc position]
  | case3 position c cs hb fault hr => cases h
  | case4 position c cs hb t count hr rest fault he ih =>
    cases h
    -- the token ends inside the first text, so what is dropped behind it comes from there
    have hcount := (reads_of_read hr).count_le
    have hlen : position + 1 + count + (cs.drop count).length = position + (c :: cs).length := by
      rw [List.length_drop, List.length_cons]
      omega
    rw [List.cons_append, lexemes_token (Bool.eq_false_iff.2 hb) (read_append hr hd),
      List.take_append_of_le_length hcount, List.drop_append_of_le_length hcount, ih he, hlen]
    rfl

section ReadAs

variable {l : Lexeme} {ls : List Lexeme} {i bound : Nat} {t : Token}

theorem not_readAs_of_lt (h : ∀ l ∈ ls, bound ≤ l.position) (hi : i < bound) : ¬ReadAs ls i t := by
  rintro ⟨l, hl, hc, -⟩
  have hb := h l hl
  have := hc.1
  omega

theorem not_readAs_of_le (h : ∀ l ∈ ls, l.position + l.source.length ≤ bound) (hi : bound ≤ i) :
    ¬ReadAs ls i t := by
  rintro ⟨l, hl, hc, -⟩
  have hb := h l hl
  have := hc.2
  omega

theorem readAs_head (h : ∀ l' ∈ ls, l.position + l.source.length ≤ l'.position) (hi : l.Covers i) :
    ReadAs (l :: ls) i t ↔ l.token = t := by
  constructor
  · rintro ⟨l', hl', hc, ht⟩
    rcases List.mem_cons.1 hl' with rfl | hl'
    · exact ht
    · exact absurd ⟨l', hl', hc, ht⟩ (not_readAs_of_lt h hi.2)
  · exact fun ht => ⟨l, List.mem_cons_self, hi, ht⟩

theorem readAs_tail (hi : l.position + l.source.length ≤ i) :
    ReadAs (l :: ls) i t ↔ ReadAs ls i t := by
  constructor
  · rintro ⟨l', hl', hc, ht⟩
    rcases List.mem_cons.1 hl' with rfl | hl'
    · have := hc.2
      omega
    · exact ⟨l', hl', hc, ht⟩
  · rintro ⟨l', hl', hc, ht⟩
    exact ⟨l', List.mem_cons_of_mem l hl', hc, ht⟩

end ReadAs

end RelAlg.Condition
