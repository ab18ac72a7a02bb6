import Mathlib.Order.Bounds.Basic
import RelAlg.Proofs.Expr.Offset
import RelAlg.Proofs.Expr.Scan

set_option autoImplicit false

namespace RelAlg.Expr

open Nesting

namespace Nesting

variable {n : Nesting} {c : Char} {cs : List Char}

/-- Literals are known inside brackets only. -/
def Sound (n : Nesting) : Prop :=
  n.quote.isSome = true → 0 < n.brackets

theorem Sound.step (h : n.Sound) (c : Char) : (n.step c).Sound := by
  obtain ⟨p, b, _ | q⟩ := n
  · grind [Sound, Nesting.step, opensLiteral]
  · grind [Sound, Nesting.step, cutsLiteral]

theorem Sound.run (h : n.Sound) (cs : List Char) : (n.run cs).Sound := by
  induction cs generalizing n with
  | nil => exact h
  | cons c cs ih => exact ih (h.step c)

theorem sound_start : start.Sound :=
  fun h => by cases h

theorem Sound.of_quotes (h : n.Sound) (hq : n.quotes c = true) : 0 < n.brackets ∧ c ≠ ']' := by
  obtain ⟨p, b, _ | q⟩ := n
  · grind [quotes, opensLiteral]
  · grind [quotes, cutsLiteral, Sound]

theorem run_literal {q : Char} (hq : n.quote = some q) (h : q ∉ cs) (hb : ']' ∉ cs) :
    n.run cs = n := by
  obtain ⟨p, b, _⟩ := n
  cases hq
  induction cs with
  | nil => rfl
  | cons c cs ih =>
    rw [List.mem_cons, not_or] at h hb
    have hs : step ⟨p, b, some q⟩ c = ⟨p, b, some q⟩ := by
      simp [step, cutsLiteral, Ne.symm hb.1, Ne.symm h.1]
    exact (congrArg (run · cs) hs).trans (ih h.2 hb.2)

end Nesting

namespace Position

def quoted (p : Position) : Bool :=
  p.nesting.quotes p.char

def counts (p : Position) (c : Char) : Bool :=
  p.char = c && !p.quoted

end Position

def unquoted (c : Char) (ps : List Position) : Nat :=
  ps.countP (·.counts c)

theorem unquoted_cons (c : Char) (p : Position) (ps : List Position) :
    unquoted c (p :: ps) = unquoted c ps + if p.counts c = true then 1 else 0 :=
  List.countP_cons

/-- As many parentheses and brackets are open behind a text as it opens more than it closes. -/
theorem counts_run (offset : Nat) (n : Nesting) (cs : List Char) :
    (n.run cs).parens = n.parens + (unquoted '(' (positionsFrom offset n cs) -
        unquoted ')' (positionsFrom offset n cs)) ∧
      (n.run cs).brackets = n.brackets + (unquoted '[' (positionsFrom offset n cs) -
        unquoted ']' (positionsFrom offset n cs)) := by
  induction cs generalizing offset n with
  | nil => exact ⟨(Int.add_zero _).symm, (Int.add_zero _).symm⟩
  | cons c cs ih =>
    obtain ⟨hp, hb⟩ := ih (offset + c.utf8Size) (n.step c)
    change ((n.step c).run cs).parens = _ ∧ ((n.step c).run cs).brackets = _
    rw [hp, hb, parens_step, brackets_step]
    simp only [positionsFrom, unquoted_cons, Position.counts, Position.quoted]
    by_cases hq : n.quotes c = true
    · simp [hq]
    · grind

theorem counts_of_mem_positions {cs : List Char} {i : Nat} {p : Position}
    (h : (positions cs)[i]? = some p) :
    p.nesting.parens = (unquoted '(' ((positions cs).take i) : Int) -
        unquoted ')' ((positions cs).take i) ∧
      p.nesting.brackets = (unquoted '[' ((positions cs).take i) : Int) -
        unquoted ']' ((positions cs).take i) := by
  rw [positions, getElem?_positionsFrom] at h
  obtain ⟨c, -, rfl⟩ := Option.map_eq_some_iff.1 h
  obtain ⟨hp, hb⟩ := counts_run 0 .start (cs.take i)
  rw [← take_positionsFrom] at hp hb
  exact ⟨hp.trans (Int.zero_add _), hb.trans (Int.zero_add _)⟩

section Literals

variable {before behind text : List Char} {q c : Char}

def quotedAt? (cs : List Char) (i : Nat) : Option Bool :=
  (positions cs)[i]?.map Position.quoted

theorem quotedAt?_append (before : List Char) (c : Char) (behind : List Char) :
    quotedAt? (before ++ c :: behind) before.length =
      some ((Nesting.start.run before).quotes c) := by
  rw [quotedAt?, positions, getElem?_positionsFrom, List.getElem?_append_right (Nat.le_refl _),
    Nat.sub_self, List.take_left']
  · rfl
  · rfl

theorem run_quote (hn : (Nesting.start.run before).quote = none)
    (hq : (Nesting.start.run before).quotes q = true) (h : q ∉ text) (hb : ']' ∉ text) :
    Nesting.start.run (before ++ q :: text) =
      { Nesting.start.run before with quote := some q } := by
  have hs : (Nesting.start.run before).step q =
      { Nesting.start.run before with quote := some q } := by
    rw [quotes, hn] at hq
    rw [step, hn]
    exact if_pos hq
  rw [run_append]
  exact (congrArg (Nesting.run · text) hs).trans (run_literal rfl h hb)

theorem literal_extent (hn : (Nesting.start.run before).quote = none)
    (hq : (Nesting.start.run before).quotes q = true) (h : q ∉ text) (hb : ']' ∉ text) :
    (∀ i, before.length ≤ i → i ≤ before.length + text.length →
      quotedAt? (before ++ q :: text ++ behind) i = some true) ∧
    ∀ c rest, behind = c :: rest → c = q ∨ c = ']' →
      quotedAt? (before ++ q :: text ++ behind) (before.length + text.length + 1) =
          some (decide (c = q)) ∧
        (Nesting.start.run (before ++ q :: text ++ [c])).quote = none := by
  refine ⟨fun i hi hi' => ?_, ?_⟩
  · obtain ⟨j, rfl⟩ := Nat.exists_eq_add_of_le hi
    cases j with
    | zero =>
      rw [List.append_assoc, List.cons_append, Nat.add_zero, quotedAt?_append, hq]
    | succ j =>
      obtain ⟨xs, d, ys, rfl, rfl⟩ : ∃ xs d ys, text = xs ++ d :: ys ∧ xs.length = j := by
        have hj : j < text.length := by omega
        exact ⟨text.take j, text[j], text.drop (j + 1), by simp, List.length_take_of_le hj.le⟩
      rw [List.mem_append, List.mem_cons, not_or, not_or] at h hb
      have happ : before ++ q :: (xs ++ d :: ys) ++ behind =
          (before ++ q :: xs) ++ d :: (ys ++ behind) := by
        simp
      have hlen : before.length + (xs.length + 1) = (before ++ q :: xs).length := by
        rw [List.length_append, List.length_cons]
      rw [happ, hlen, quotedAt?_append, run_quote hn hq h.1 hb.1]
      simp [quotes, cutsLiteral, Ne.symm hb.2.1]
  · rintro c rest rfl hc
    have hlen : before.length + text.length + 1 = (before ++ q :: text).length := by
      rw [List.length_append, List.length_cons, Nat.add_assoc]
    rw [hlen, quotedAt?_append, run_append _ _ [c], run_quote hn hq h hb]
    rw [quotes, hn, opensLiteral, Bool.and_eq_true, Bool.or_eq_true, decide_eq_true_eq,
      decide_eq_true_eq, decide_eq_true_eq] at hq
    obtain ⟨hq, hpos⟩ := hq
    have hne : q ≠ ']' := by
      rintro rfl
      revert hq
      decide
    generalize Nesting.start.run before = m at hpos
    change some (Nesting.quotes { m with quote := some q } c) = _ ∧
      (Nesting.step { m with quote := some q } c).quote = none
    rcases hc with rfl | rfl
    · simp [quotes, cutsLiteral, step, hne]
    · simp [quotes, cutsLiteral, step, hne.symm, hpos]

end Literals

section Matching

variable {cs : List Char} {p : Position} {ps : List Position} {closing : Nat}

def between (cs : List Char) (opening closing : Nat) : List Position :=
  (positions cs).filter fun p => opening ≤ p.offset && p.offset ≤ closing

/-- At the second offset stands a `)`, and from the first one up to it as many parentheses close as
open; all of them outside of literals. -/
def Closes (cs : List Char) (opening closing : Nat) : Prop :=
  opening < closing ∧ (∃ p ∈ positions cs, p.offset = closing ∧ p.counts ')' = true) ∧
    unquoted '(' (between cs opening closing) = unquoted ')' (between cs opening closing)

theorem isLeast_find? {f : Position → Bool} (hs : ps.Pairwise fun p q => p.offset < q.offset)
    (h : ps.find? f = some p) :
    IsLeast {c | ∃ p ∈ ps, f p = true ∧ p.offset = c} p.offset := by
  obtain ⟨hf, earlier, later, rfl, he⟩ := List.find?_eq_some_iff_append.1 h
  refine ⟨⟨p, List.mem_append_right _ List.mem_cons_self, hf, rfl⟩, ?_⟩
  rintro c ⟨p', hp', hf', rfl⟩
  rcases List.mem_append.1 hp' with hp' | hp'
  · have hno := he p' hp'
    rw [hf'] at hno
    cases hno
  · rcases List.mem_cons.1 hp' with rfl | hp'
    · exact le_rfl
    · exact (List.rel_of_pairwise_cons (List.pairwise_append.1 hs).2.1 hp').le

/-- The search for the closing parenthesis takes the first one that is back at the level. -/
theorem closeParen_eq_find? (level : Int) (offset : Nat) (n : Nesting) (cs : List Char) :
    (closeParen level n cs).map (fun parts => offset + utf8Size parts.1) =
      ((positionsFrom offset n cs).find? fun p =>
        p.counts ')' && p.nesting.parens = level + 1).map Position.offset := by
  induction cs generalizing offset n with
  | nil => rfl
  | cons c cs ih =>
    rw [closeParen, positionsFrom]
    split
    · rename_i hc
      rw [List.find?_cons_of_pos]
      · rfl
      · obtain ⟨rfl, hq, hp⟩ := hc
        simp [Position.counts, Position.quoted, hq, hp]
    · rename_i hc
      rw [List.find?_cons_of_neg, ← ih, Option.map_map]
      · congr 1
        funext parts
        exact (Nat.add_assoc _ _ _).symm
      · simpa [Position.counts, Position.quoted, and_assoc] using hc

theorem between_append (before text : List Char) (last : Char) (behind : List Char) {closing : Nat}
    (hc : closing = utf8Size before + utf8Size text) :
    between (before ++ (text ++ last :: behind)) (utf8Size before) closing =
      positionsFrom (utf8Size before) (Nesting.start.run before) (text ++ [last]) := by
  have hpos := last.utf8Size_pos
  rw [List.append_cons text, between, positions, positionsFrom_append, positionsFrom_append,
    Nat.zero_add, List.filter_append, List.filter_append, List.filter_eq_nil_iff.2,
    List.filter_eq_self.2, List.filter_eq_nil_iff.2, List.nil_append, List.append_nil]
  · intro p hp
    have hb := (bounds_of_mem_positionsFrom hp).1
    rw [utf8Size_append, utf8Size, utf8Size] at hb
    simp only [Bool.and_eq_true, decide_eq_true_eq, not_and]
    omega
  · intro p hp
    rw [positionsFrom_append] at hp
    simp only [Bool.and_eq_true, decide_eq_true_eq]
    rcases List.mem_append.1 hp with hp | hp
    · have hb := bounds_of_mem_positionsFrom hp
      omega
    · rw [List.mem_singleton.1 hp]
      dsimp only
      omega
  · intro p hp
    have hb := (bounds_of_mem_positionsFrom hp).2
    simp only [Bool.and_eq_true, decide_eq_true_eq, not_and]
    omega

theorem level_iff (offset : Nat) {n : Nesting} (cs : List Char)
    (h : (n.run cs).quotes ')' = false) :
    (n.run cs).parens = n.parens + 1 ↔
      unquoted '(' (positionsFrom offset n (cs ++ [')'])) =
        unquoted ')' (positionsFrom offset n (cs ++ [')'])) := by
  have hrun := (counts_run offset n (cs ++ [')'])).1
  have hstep := parens_step (n.run cs) ')'
  rw [run_append] at hrun
  change ((n.run cs).step ')').parens = _ at hrun
  rw [h] at hstep
  simp only [Bool.false_eq_true, if_false, if_true, show ')' ≠ '(' by decide] at hstep
  omega

theorem closes_iff {before behind : List Char} :
    Closes (before ++ '(' :: behind) (utf8Size before) closing ↔
      ∃ p ∈ positionsFrom (utf8Size before + 1) ((Nesting.start.run before).step '(') behind,
        (p.counts ')' && p.nesting.parens = (Nesting.start.run before).parens + 1) = true ∧
          p.offset = closing := by
  have hpositions : positions (before ++ '(' :: behind) =
      positionsFrom 0 .start before ++ ⟨utf8Size before, '(', Nesting.start.run before⟩ ::
        positionsFrom (utf8Size before + 1) ((Nesting.start.run before).step '(') behind := by
    rw [positions, positionsFrom_append, Nat.zero_add]
    rfl
  -- Behind the opening one, to be back at its level is to have equal numbers since then.
  have hlevel : ∀ p ∈ positionsFrom (utf8Size before + 1)
      ((Nesting.start.run before).step '(') behind, p.counts ')' = true →
        (p.nesting.parens = (Nesting.start.run before).parens + 1 ↔
          unquoted '(' (between (before ++ '(' :: behind) (utf8Size before) p.offset) =
            unquoted ')' (between (before ++ '(' :: behind) (utf8Size before) p.offset)) := by
    intro p hp hc
    obtain ⟨inside, rest, rfl, hoff, hn⟩ := mem_positionsFrom_iff.1 hp
    simp only [Position.counts, Position.quoted, Bool.and_eq_true, decide_eq_true_eq,
      Bool.not_eq_true'] at hc
    obtain ⟨hc, hq⟩ := hc
    have hsize : p.offset = utf8Size before + utf8Size ('(' :: inside) := by
      rw [hoff, utf8Size, Nat.add_assoc]
      rfl
    have hb := between_append before ('(' :: inside) p.char rest hsize
    rw [List.cons_append] at hb
    rw [hb, hc, hn]
    rw [hc, hn] at hq
    exact level_iff (utf8Size before) ('(' :: inside) hq
  constructor
  · rintro ⟨hlt, ⟨p, hp, rfl, hc⟩, he⟩
    rw [hpositions] at hp
    rcases List.mem_append.1 hp with hp | hp
    · have hb := bounds_of_mem_positionsFrom hp
      omega
    rcases List.mem_cons.1 hp with rfl | hp
    · exact absurd hlt (Nat.lt_irrefl _)
    · refine ⟨p, hp, ?_, rfl⟩
      rw [hc, Bool.true_and, decide_eq_true_eq]
      exact (hlevel p hp hc).2 he
  · rintro ⟨p, hp, hc, rfl⟩
    rw [Bool.and_eq_true, decide_eq_true_eq] at hc
    refine ⟨(bounds_of_mem_positionsFrom hp).1, ⟨p, ?_, rfl, hc.1⟩, (hlevel p hp hc.1).1 hc.2⟩
    rw [hpositions]
    exact List.mem_append_right _ (List.mem_cons_of_mem _ hp)

theorem matchingParen?_append (before behind : List Char) :
    matchingParen? (before ++ '(' :: behind) (utf8Size before) =
      ((positionsFrom (utf8Size before + 1) ((Nesting.start.run before).step '(') behind).find?
        fun p => p.counts ')' &&
          p.nesting.parens = (Nesting.start.run before).parens + 1).map Position.offset := by
  rw [matchingParen?_eq rfl, ← closeParen_eq_find?]
  rfl

theorem matchingParen?_isLeast (before behind : List Char) :
    (∀ closing, matchingParen? (before ++ '(' :: behind) (utf8Size before) = some closing ↔
      IsLeast {c | Closes (before ++ '(' :: behind) (utf8Size before) c} closing) ∧
    (matchingParen? (before ++ '(' :: behind) (utf8Size before) = none ↔
      ∀ closing, ¬Closes (before ++ '(' :: behind) (utf8Size before) closing) := by
  rw [matchingParen?_append]
  simp only [closes_iff]
  cases hf : List.find? _ _ with
  | none =>
    rw [List.find?_eq_none] at hf
    have hno : ∀ closing, ¬∃ p ∈ positionsFrom (utf8Size before + 1)
        ((Nesting.start.run before).step '(') behind,
        (p.counts ')' && p.nesting.parens = (Nesting.start.run before).parens + 1) = true ∧
          p.offset = closing := by
      rintro closing ⟨p, hp, hc, -⟩
      exact hf p hp hc
    refine ⟨fun closing => ⟨?_, fun h => absurd h.1 (hno closing)⟩, ⟨fun _ => hno, fun _ => rfl⟩⟩
    rintro ⟨⟩
  | some p =>
    have hleast := isLeast_find? (pairwise_positionsFrom _ _ _) hf
    refine ⟨fun closing => ⟨?_, fun h => congrArg some (hleast.unique h)⟩, ⟨?_, fun h => ?_⟩⟩
    · rintro ⟨⟩
      exact hleast
    · rintro ⟨⟩
    · exact absurd hleast.1 (h p.offset)

end Matching

/-- What the scan of a text reports. In front of every character as many parentheses and brackets
are open as stand there outside of literals, less the closing ones. Literals stand inside brackets
and never reach over a closing one: a literal goes on up to the next of its own quote, which belongs
to it, and a closing bracket, which does not. The parenthesis that closes an unquoted one is the
first behind it with as many closed as opened since then; without such a one there is none. -/
theorem scan_reports (cs : List Char) :
    (∀ i p, (positions cs)[i]? = some p →
      p.nesting.parens = (unquoted '(' ((positions cs).take i) : Int) -
          unquoted ')' ((positions cs).take i) ∧
        p.nesting.brackets = (unquoted '[' ((positions cs).take i) : Int) -
          unquoted ']' ((positions cs).take i) ∧
        (p.quoted = true → 0 < p.nesting.brackets ∧ p.char ≠ ']')) ∧
    (∀ before q text behind, cs = before ++ q :: text ++ behind →
      (Nesting.start.run before).quote = none → (Nesting.start.run before).quotes q = true →
      q ∉ text → ']' ∉ text →
      (∀ i, before.length ≤ i → i ≤ before.length + text.length → quotedAt? cs i = some true) ∧
      ∀ c rest, behind = c :: rest → c = q ∨ c = ']' →
        quotedAt? cs (before.length + text.length + 1) = some (decide (c = q)) ∧
          (Nesting.start.run (before ++ q :: text ++ [c])).quote = none) ∧
    ∀ p ∈ positions cs, p.counts '(' = true →
      (∀ closing, matchingParen? cs p.offset = some closing ↔
        IsLeast {c | Closes cs p.offset c} closing) ∧
      (matchingParen? cs p.offset = none ↔ ∀ closing, ¬Closes cs p.offset closing) := by
  refine ⟨fun i p hp => ?_, ?_, fun p hp hc => ?_⟩
  · obtain ⟨hparens, hbrackets⟩ := counts_of_mem_positions hp
    obtain ⟨before, behind, -, -, hn⟩ := mem_positions_iff.1 (List.mem_of_getElem? hp)
    refine ⟨hparens, hbrackets, fun hq => ?_⟩
    have hs : p.nesting.Sound := hn ▸ sound_start.run before
    exact hs.of_quotes hq
  · rintro before q text behind rfl hn hq h hb
    exact literal_extent hn hq h hb
  · obtain ⟨before, behind, rfl, ho, -⟩ := mem_positions_iff.1 hp
    simp only [Position.counts, Bool.and_eq_true, decide_eq_true_eq] at hc
    rw [ho, hc.1]
    exact matchingParen?_isLeast before behind

-- A bracket ends the literal that is open in front of it, and counts.
example : (positions "[')](".toList).map (fun p => (p.quoted, p.nesting.brackets)) =
    [(false, 0), (true, 1), (true, 1), (false, 1), (false, 0)] := by
  decide +kernel

end RelAlg.Expr
