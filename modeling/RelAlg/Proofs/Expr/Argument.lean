import RelAlg.Proofs.Condition.Acceptance
import RelAlg.Proofs.Expr.Scan

set_option autoImplicit false

namespace RelAlg

namespace Condition

def Token.isText : Token → Bool
  | text _ => Bool.true
  | _ => Bool.false

/-- How many parentheses are open behind the tokens, if none closes that was open before. -/
def level? : Nat → List Token → Option Nat
  | k, [] => some k
  | k, .leftParen :: ts => level? (k + 1) ts
  | 0, .rightParen :: _ => none
  | k + 1, .rightParen :: ts => level? k ts
  | k, _ :: ts => level? k ts

theorem level?_of_ne {t : Token} (hl : t ≠ .leftParen) (hr : t ≠ .rightParen) (k : Nat)
    (ts : List Token) : level? k (t :: ts) = level? k ts := by
  cases t <;> first | rfl | exact absurd rfl hl | exact absurd rfl hr

theorem level?_atom (a : Atom) (k : Nat) (ts : List Token) :
    level? k (a.token :: ts) = level? k ts := by
  cases a <;> exact level?_of_ne (by simp [Atom.token]) (by simp [Atom.token]) k ts

theorem level?_comparison (op : Comparison) (k : Nat) (ts : List Token) :
    level? k (comparisonToken op :: ts) = level? k ts := by
  cases op <;> rfl

mutual

theorem Disjunction.level?_tokens : ∀ (d : Disjunction) (k : Nat) (rest : List Token),
    level? k (d.tokens ++ rest) = level? k rest
  | .single c, k, rest => c.level?_tokens k rest
  | .or c d, k, rest => by
    rw [Disjunction.tokens, List.append_assoc, c.level?_tokens, List.cons_append,
      level?_of_ne (by decide) (by decide), d.level?_tokens]

theorem Conjunction.level?_tokens : ∀ (c : Conjunction) (k : Nat) (rest : List Token),
    level? k (c.tokens ++ rest) = level? k rest
  | .single p, k, rest => p.level?_tokens k rest
  | .and p c, k, rest => by
    rw [Conjunction.tokens, List.append_assoc, p.level?_tokens, List.cons_append,
      level?_of_ne (by decide) (by decide), c.level?_tokens]

theorem Primary.level?_tokens : ∀ (p : Primary) (k : Nat) (rest : List Token),
    level? k (p.tokens ++ rest) = level? k rest
  | .group d, k, rest => by
    rw [Primary.tokens, List.cons_append, List.append_assoc, level?, d.level?_tokens]
    rfl
  | .compare left op right, k, rest => by
    change level? k (left.token :: comparisonToken op :: right.token :: rest) = _
    rw [level?_atom, level?_comparison, level?_atom]
  | .const b, k, rest => by cases b <;> rfl

end

end Condition

namespace Expr

open Nesting Condition

abbrev Plain (c : Char) : Prop :=
  c ∉ ['(', ')', '[', ']', '\'', '"']

theorem plain_of_isDigit {c : Char} (h : c.isDigit = true) : Plain c := by
  intro hc
  simp only [List.mem_cons, List.not_mem_nil, or_false] at hc
  rcases hc with rfl | rfl | rfl | rfl | rfl | rfl <;> revert h <;> decide

theorem plain_of_continuesName {c : Char} (h : continuesName c = true) : Plain c := by
  intro hc
  simp only [List.mem_cons, List.not_mem_nil, or_false] at hc
  rcases hc with rfl | rfl | rfl | rfl | rfl | rfl <;> revert h <;> decide

theorem plain_of_isBlank {c : Char} (h : Text.isBlank c = true) : Plain c := by
  intro hc
  simp only [List.mem_cons, List.not_mem_nil, or_false] at hc
  rcases hc with rfl | rfl | rfl | rfl | rfl | rfl <;> revert h <;> decide

theorem continuesName_of_startsName {c : Char} (h : startsName c = true) :
    continuesName c = true := by
  rw [startsName, Bool.or_eq_true] at h
  rw [continuesName, Bool.or_eq_true]
  exact h.imp_left Text.isLetterOrNumeral_of_isLetter

theorem plain_symbols : ∀ s ∈ symbols, ∀ c ∈ s.1, Plain c := by
  have h : symbols.all (fun s => s.1.all fun c => Plain c) = true := by decide
  intro s hs c hc
  exact of_decide_eq_true (List.all_eq_true.1 (List.all_eq_true.1 h s hs) c hc)

theorem isText_symbols : ∀ s ∈ symbols, s.2.isText = false := by decide

theorem isText_ofWord (word : String) : (Token.ofWord word).isText = false := by
  have h := Token.ofWord_mem word
  generalize Token.ofWord word = t at h
  simp only [List.mem_cons, List.not_mem_nil, or_false] at h
  rcases h with rfl | rfl | rfl | rfl | rfl <;> rfl

theorem plain_numberTail {cs : List Char} : ∀ c ∈ numberTail cs, Plain c := by
  obtain ⟨whole, fraction, hw, hf, he⟩ := numberTail_eq cs
  intro c hc
  rw [he] at hc
  rcases List.mem_append.1 hc with hc | hc
  · rw [hw] at hc
    exact plain_of_isDigit (List.mem_takeWhile_imp hc)
  · split at hc
    · cases hc
    · rcases List.mem_cons.1 hc with rfl | hc
      · decide
      · exact plain_of_isDigit (hf c hc)

/-- What the characters of a token see that is no parenthesis. -/
def Inside (p : Int) (n : Nesting) (c : Char) : Prop :=
  n.brackets = 1 ∧ n.parens = p ∧ (c = ')' → n.quotes c = true)

/-- All in quotes, or nothing that groups. -/
def Kept (p : Int) (quoted : Bool) (n : Nesting) (c : Char) : Prop :=
  n.brackets = 1 ∧ n.parens = p ∧ n.quotes c = quoted ∧ (quoted = false → Plain c)

theorem Kept.inside {p : Int} {quoted : Bool} {n : Nesting} {c : Char} (h : Kept p quoted n c) :
    Inside p n c := by
  obtain ⟨hb, hp, hq, hc⟩ := h
  refine ⟨hb, hp, ?_⟩
  rintro rfl
  cases quoted with
  | true => exact hq
  | false => exact absurd (hc rfl) (by decide)

theorem opensLiteral_plain {c : Char} (hc : Plain c) (n : Nesting) : n.opensLiteral c = false := by
  simp only [Plain, List.mem_cons, List.not_mem_nil, or_false, not_or] at hc
  simp [opensLiteral, hc]

theorem step_plain {c : Char} (hc : Plain c) (p b : Int) :
    Nesting.step ⟨p, b, none⟩ c = ⟨p, b, none⟩ := by
  have ho := opensLiteral_plain hc ⟨p, b, none⟩
  simp only [Plain, List.mem_cons, List.not_mem_nil, or_false, not_or] at hc
  simp [step, ho, hc]

theorem runs_plain (p : Int) {cs : List Char} (h : ∀ c ∈ cs, Plain c) :
    Runs (Kept p false) ⟨p, 1, none⟩ cs ⟨p, 1, none⟩ := by
  induction cs with
  | nil => exact .nil
  | cons c cs ih =>
    have hc : Plain c := h c List.mem_cons_self
    exact .cons ⟨rfl, rfl, opensLiteral_plain hc _, fun _ => hc⟩ (step_plain hc p 1)
      (ih fun d hd => h d (List.mem_cons_of_mem _ hd))

theorem runs_quotedTail (p : Int) {q : Char} (hq : q = '\'' ∨ q = '"') {cs s : List Char}
    {count : Nat} (h : quotedTail? q cs = some (s, count)) (hb : ']' ∉ cs.take count) :
    Runs (Kept p true) ⟨p, 1, some q⟩ (cs.take count) ⟨p, 1, none⟩ := by
  have hquoted : ∀ c ≠ ']', Kept p true ⟨p, 1, some q⟩ c := by
    intro c hc
    exact ⟨rfl, rfl, by simp [quotes, cutsLiteral, hc], fun h => by cases h⟩
  have hclose : Nesting.step ⟨p, 1, some q⟩ q = ⟨p, 1, none⟩ := by
    rcases hq with rfl | rfl <;> simp [step, cutsLiteral]
  have hopen : Nesting.step ⟨p, 1, none⟩ q = ⟨p, 1, some q⟩ := by
    rcases hq with rfl | rfl <;> simp [step, opensLiteral]
  have hne : q ≠ ']' := by
    rcases hq with rfl | rfl <;> decide
  have hend : Runs (Kept p true) ⟨p, 1, some q⟩ [q] ⟨p, 1, none⟩ :=
    .cons (hquoted q hne) hclose .nil
  fun_induction quotedTail? q cs generalizing s count with
  | case1 => cases h
  | case2 =>
    cases h
    exact hend
  | case3 => cases h
  | case4 cs ih =>
    obtain ⟨⟨s', count'⟩, ht, he⟩ := Option.map_eq_some_iff.1 h
    cases he
    simp only [List.take_succ_cons, List.mem_cons, not_or] at hb
    have hin : Kept p true ⟨p, 1, none⟩ q := by
      rcases hq with rfl | rfl <;> exact ⟨rfl, rfl, rfl, fun h => by cases h⟩
    -- the first of the two quotes closes the literal and the second opens it again
    exact .cons (hquoted q hne) hclose (.cons hin hopen (ih ht hb.2.2))
  | case5 d cs hd =>
    cases h
    exact hend
  | case6 c d cs hc ih =>
    obtain ⟨⟨s', count'⟩, ht, he⟩ := Option.map_eq_some_iff.1 h
    cases he
    rw [List.take_succ_cons, List.mem_cons, not_or] at hb
    have hs : Nesting.step ⟨p, 1, some q⟩ c = ⟨p, 1, some q⟩ := by
      simp [step, cutsLiteral, Ne.symm hb.1, hc]
    exact .cons (hquoted c (Ne.symm hb.1)) hs (ih ht hb.2)

theorem runs_token (p : Int) {c : Char} {cs : List Char} {t : Token} {count : Nat}
    (h : Reads c cs t count) (hl : t ≠ .leftParen) (hr : t ≠ .rightParen)
    (hb : ']' ∉ c :: cs.take count) :
    Runs (Kept p t.isText) ⟨p, 1, none⟩ (c :: cs.take count) ⟨p, 1, none⟩ := by
  cases h with
  | leftParen => exact absurd rfl hl
  | rightParen => exact absurd rfl hr
  | symbol hs hp =>
    rw [← List.prefix_iff_eq_take.1 hp, isText_symbols _ hs]
    exact runs_plain p (plain_symbols _ hs)
  | text hq ht =>
    rw [List.mem_cons, not_or] at hb
    have hin : Kept p true ⟨p, 1, none⟩ c := by
      rcases hq with rfl | rfl <;> exact ⟨rfl, rfl, rfl, fun h => by cases h⟩
    have hopen : Nesting.step ⟨p, 1, none⟩ c = ⟨p, 1, some c⟩ := by
      rcases hq with rfl | rfl <;> simp [step, opensLiteral]
    exact .cons hin hopen (runs_quotedTail p hq ht hb.2)
  | number hn =>
    rw [← List.prefix_iff_eq_take.1 (numberTail_isPrefix cs)]
    refine runs_plain p fun d hd => ?_
    rcases List.mem_cons.1 hd with rfl | hd
    · rcases hn with hn | ⟨rfl, -⟩
      · exact plain_of_isDigit hn
      · decide
    · exact plain_numberTail d hd
  | word hw =>
    have ht : cs.takeWhile continuesName <+: cs := List.takeWhile_prefix _
    rw [← List.prefix_iff_eq_take.1 ht, isText_ofWord]
    refine runs_plain p fun d hd => ?_
    rcases List.mem_cons.1 hd with rfl | hd
    · exact plain_of_continuesName (continuesName_of_startsName hw)
    · exact plain_of_continuesName (List.mem_takeWhile_imp hd)

theorem Inside.bracketed {p q : Int} (hpq : p ≤ q) {n : Nesting} {c : Char} (h : Inside q n c) :
    Bracketed p n c := by
  obtain ⟨hb, hp, hq⟩ := h
  refine ⟨hb, by omega, fun hc hf => ?_⟩
  rw [hq hc] at hf
  cases hf

theorem not_mem_parts {a c : Char} {cs : List Char} (h : a ∉ c :: cs) (count : Nat) :
    a ∉ c :: cs.take count ∧ a ∉ cs.drop count := by
  have happ : c :: cs = (c :: cs.take count) ++ cs.drop count := by
    rw [List.cons_append, List.take_append_drop]
  rwa [happ, List.mem_append, not_or] at h

/-- The parentheses of a text are those of its tokens. -/
theorem runs_lexemes (p : Int) {position k m : Nat} {cs : List Char} {ls : List Lexeme}
    (h : lexemes position cs = (ls, none)) (hb : ']' ∉ cs)
    (hk : level? k (ls.map Lexeme.token) = some m) :
    Runs (Bracketed p) ⟨p + k, 1, none⟩ cs ⟨p + m, 1, none⟩ := by
  fun_induction lexemes position cs generalizing ls k with
  | case1 =>
    cases h
    cases hk
    exact .nil
  | case2 position c cs hc ih =>
    have hp : ∀ d ∈ [c], Plain d := by
      intro d hd
      rw [List.mem_singleton.1 hd]
      exact plain_of_isBlank hc
    have hin : Runs (Bracketed p) ⟨p + k, 1, none⟩ [c] ⟨p + k, 1, none⟩ :=
      (runs_plain (p + k) hp).mono fun n c h => h.inside.bracketed (by omega)
    exact hin.append (ih h (fun hm => hb (List.mem_cons_of_mem _ hm)) hk)
  | case3 position c cs hc fault hr => cases h
  | case4 position c cs hc t count hr rest fault hl ih =>
    cases h
    obtain ⟨htake, hrest⟩ := not_mem_parts hb count
    rw [← List.take_append_drop count cs, ← List.cons_append]
    rw [List.map_cons] at hk
    have hread := reads_of_read hr
    -- the level says how far the parentheses stand above those around the condition
    by_cases htl : t = .leftParen
    · subst htl
      obtain ⟨rfl, rfl⟩ := hread.paren.1 rfl
      have hs : Nesting.step ⟨p + k, 1, none⟩ '(' = ⟨p + (k + 1 : Nat), 1, none⟩ := by
        simp [step, opensLiteral, Int.add_assoc]
      have hle : p ≤ p + (k : Int) := by omega
      have hin : Bracketed p ⟨p + k, 1, none⟩ '(' := ⟨rfl, hle, fun hc => by cases hc⟩
      exact .cons hin hs (ih hl hrest hk)
    by_cases htr : t = .rightParen
    · subst htr
      obtain ⟨rfl, rfl⟩ := hread.paren.2 rfl
      cases k with
      | zero => cases hk
      | succ k =>
        have hs : Nesting.step ⟨p + (k + 1 : Nat), 1, none⟩ ')' = ⟨p + k, 1, none⟩ := by
          simp [step, opensLiteral]
          omega
        have hlt : p < p + ((k + 1 : Nat) : Int) := by omega
        have hin : Bracketed p ⟨p + (k + 1 : Nat), 1, none⟩ ')' :=
          ⟨rfl, Int.le_of_lt hlt, fun _ _ => hlt⟩
        exact .cons hin hs (ih hl hrest hk)
    · rw [level?_of_ne htl htr] at hk
      have hin := (runs_token (p + k) hread htl htr htake).mono fun n c h =>
        h.inside.bracketed (p := p) (by omega)
      exact hin.append (ih hl hrest hk)

/-- Between brackets an accepted condition leaves the nesting as it was. -/
theorem runs_condition {limit : Nat} {cs : List Char} {predicate : Predicate}
    (h : parsePredicate limit cs = .ok predicate) (hb : ']' ∉ cs) (p : Int) :
    Runs (Bracketed p) ⟨p, 1, none⟩ cs ⟨p, 1, none⟩ := by
  obtain ⟨d, hl, -, -⟩ := (parsePredicate_eq_ok_iff limit cs predicate).1 h
  obtain ⟨ht, hf⟩ := Prod.mk.inj hl
  have hk : level? 0 ((lexemes 0 cs).1.map Lexeme.token) = some 0 := by
    rw [ht, ← List.append_nil d.tokens, d.level?_tokens]
    rfl
  have hrun := runs_lexemes p (Prod.ext rfl hf) hb hk
  rwa [Int.natCast_zero, Int.add_zero] at hrun

theorem runs_rightBracket (p : Int) : Runs (Bracketed p) ⟨p, 1, none⟩ [']'] ⟨p, 0, none⟩ :=
  .cons ⟨rfl, above_of_ne p 1 none (by decide)⟩ (step_rightBracket p Int.one_pos none) .nil

theorem argument_of_condition {limit : Nat} {cs : List Char} {predicate : Predicate}
    (h : parsePredicate limit cs = .ok predicate) (hb : ']' ∉ cs) : Argument cs :=
  fun p => (runs_condition h hb p).append (runs_rightBracket p)

end Expr

end RelAlg
