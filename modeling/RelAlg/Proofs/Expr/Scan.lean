import RelAlg.Expr.Parser

set_option autoImplicit false

namespace RelAlg.Expr

namespace Nesting

/-- The property holds of every character with the nesting before it. -/
def Along (P : Nesting → Char → Prop) : Nesting → List Char → Prop
  | _, [] => True
  | n, c :: cs => P n c ∧ Along P (n.step c) cs

/-- No parenthesis closes that was open at this level. -/
def Above (level : Int) (n : Nesting) (c : Char) : Prop :=
  level ≤ n.parens ∧ (c = ')' → n.quotes c = false → level < n.parens)

/-- Between the brackets of an argument, outside of all its parentheses or inside some. -/
def Bracketed (level : Int) (n : Nesting) (c : Char) : Prop :=
  n.brackets = 1 ∧ Above level n c

/-- No binary operator starts here. -/
def Unsplit (n : Nesting) (c : Char) : Prop :=
  n.isTopLevel c = true → c ≠ ' '

theorem parens_step (n : Nesting) (c : Char) : (n.step c).parens = n.parens +
    if n.quotes c = true then 0 else if c = '(' then 1 else if c = ')' then -1 else 0 := by
  obtain ⟨p, b, _ | q⟩ := n
  · by_cases ho : opensLiteral ⟨p, b, none⟩ c = true
    · simp [step, quotes, ho]
    · simp only [step, quotes, ho, Bool.false_eq_true, if_false]
      split
      · rfl
      split
      · rfl
      split
      · exact (Int.add_zero p).symm
      split <;> exact (Int.add_zero p).symm
  · by_cases hx : cutsLiteral ⟨p, b, some q⟩ c = true
    · have hc : c = ']' := by
        simp only [cutsLiteral, Bool.and_eq_true, decide_eq_true_eq] at hx
        exact hx.1
      subst hc
      simp [step, quotes, hx]
    · simp only [step, quotes, hx, Bool.false_eq_true, if_false, Bool.not_false, if_true]
      split <;> exact (Int.add_zero p).symm

theorem brackets_step (n : Nesting) (c : Char) : (n.step c).brackets =
    n.brackets +
      if n.quotes c = true then 0 else if c = '[' then 1 else if c = ']' then -1 else 0 := by
  obtain ⟨p, b, _ | q⟩ := n
  · grind [step, quotes, opensLiteral]
  · grind [step, quotes, cutsLiteral]

variable {P Q : Nesting → Char → Prop} {n : Nesting} {c : Char} {as bs cs : List Char}

theorem Above.mono {level level' : Int} (h : Above level n c) (hl : level' ≤ level) :
    Above level' n c := by
  obtain ⟨hlow, hc⟩ := h
  exact ⟨Int.le_trans hl hlow, fun hr hq => Int.lt_of_le_of_lt hl (hc hr hq)⟩

theorem Along.mono (h : Along P n cs) (hpq : ∀ n c, P n c → Q n c) : Along Q n cs := by
  induction cs generalizing n with
  | nil => trivial
  | cons c cs ih => exact ⟨hpq n c h.1, ih h.2⟩

theorem along_of_mem (h : ∀ n, ∀ c ∈ cs, P n c) : Along P n cs := by
  induction cs generalizing n with
  | nil => trivial
  | cons c cs ih =>
    exact ⟨h n c List.mem_cons_self, ih fun n c hc => h n c (List.mem_cons_of_mem _ hc)⟩

theorem Along.behind (h : Along P n (as ++ bs)) : Along P (n.run as) bs := by
  induction as generalizing n with
  | nil => exact h
  | cons a as ih => exact ih h.2

def Runs (P : Nesting → Char → Prop) (n : Nesting) (cs : List Char) (m : Nesting) : Prop :=
  n.run cs = m ∧ Along P n cs

theorem Runs.nil : Runs P n [] n :=
  ⟨rfl, trivial⟩

theorem Runs.cons {k m : Nesting} (hp : P n c) (hs : n.step c = k) (h : Runs P k cs m) :
    Runs P n (c :: cs) m := by
  subst hs
  exact ⟨h.1, hp, h.2⟩

theorem Runs.append {k m : Nesting} (ha : Runs P n as k) (hb : Runs P k bs m) :
    Runs P n (as ++ bs) m := by
  induction as generalizing n with
  | nil =>
    obtain ⟨rfl, -⟩ := ha
    exact hb
  | cons a as ih =>
    obtain ⟨hr, hp, ha⟩ := ha
    exact .cons hp rfl (ih ⟨hr, ha⟩)

theorem Runs.mono {m : Nesting} (h : Runs P n cs m) (hpq : ∀ n c, P n c → Q n c) : Runs Q n cs m :=
  ⟨h.1, h.2.mono hpq⟩

end Nesting

open Nesting

variable {n : Nesting} {as bs : List Char} {level : Int}

theorem startsWith?_of_ne_blank {c : Char} (h : c ≠ ' ') (cs : List Char) :
    startsWith? BinaryOp.spellings (c :: cs) = none := by
  have hc : (' ' == c) = false := by
    rw [beq_eq_false_iff_ne]
    exact h.symm
  simp [startsWith?, BinaryOp.spellings, List.isPrefixOf, hc]

theorem splitFrom_append {m : Nesting} (h : Runs Unsplit n as m) :
    splitFrom n (as ++ bs) = (splitFrom m bs).map fun s => { s with left := as ++ s.left } := by
  induction as generalizing n with
  | nil =>
    obtain ⟨rfl, -⟩ := h
    change splitFrom n bs = (splitFrom n bs).map id
    rw [Option.map_id]
    rfl
  | cons c as ih =>
    obtain ⟨hr, hc, ha⟩ := h
    have hs : (if n.isTopLevel c then startsWith? BinaryOp.spellings (c :: (as ++ bs)) else none) =
        none := by
      split
      · exact startsWith?_of_ne_blank (hc (by assumption)) _
      · rfl
    rw [List.cons_append, splitFrom, hs, ih ⟨hr, ha⟩]
    simp only [Option.map_map]
    rfl

theorem closeParen_append {m : Nesting} (h : Runs (Above (level + 1)) n as m) :
    closeParen level n (as ++ bs) =
      (closeParen level m bs).map fun p => (as ++ p.1, p.2) := by
  induction as generalizing n with
  | nil =>
    obtain ⟨rfl, -⟩ := h
    change closeParen level n bs = (closeParen level n bs).map id
    rw [Option.map_id]
    rfl
  | cons c as ih =>
    obtain ⟨hr, hp, ha⟩ := h
    have hc : ¬(c = ')' ∧ n.quotes c = false ∧ n.parens = level + 1) := by
      rintro ⟨hc, hq, he⟩
      have hlt := hp.2 hc hq
      omega
    rw [List.cons_append, closeParen, if_neg hc, ih ⟨hr, ha⟩]
    simp only [Option.map_map]
    rfl

/-- A text that may stand between parentheses. -/
def Closed (cs : List Char) : Prop :=
  ∀ p, Runs (Above p) ⟨p, 0, none⟩ cs ⟨p, 0, none⟩

/-- A text that may stand between brackets, followed by the closing one. -/
def Argument (cs : List Char) : Prop :=
  ∀ p, Runs (Bracketed p) ⟨p, 1, none⟩ (cs ++ [']']) ⟨p, 0, none⟩

abbrev Ungrouped (cs : List Char) : Prop :=
  ∀ c ∈ cs, c ≠ '(' ∧ c ≠ ')' ∧ c ≠ '[' ∧ c ≠ ']'

theorem step_open (p : Int) (c : Char) (h : c ≠ '(' ∧ c ≠ ')' ∧ c ≠ '[' ∧ c ≠ ']') :
    Nesting.step ⟨p, 0, none⟩ c = ⟨p, 0, none⟩ := by
  obtain ⟨h₁, h₂, h₃, h₄⟩ := h
  simp [step, opensLiteral, h₁, h₂, h₃, h₄]

theorem step_argument (p : Int) (q : Option Char) (c : Char)
    (h : c ≠ '(' ∧ c ≠ ')' ∧ c ≠ '[' ∧ c ≠ ']') :
    ∃ q', Nesting.step ⟨p, 1, q⟩ c = ⟨p, 1, q'⟩ := by
  obtain ⟨h₁, h₂, h₃, h₄⟩ := h
  cases q with
  | none =>
    by_cases ho : opensLiteral ⟨p, 1, none⟩ c = true
    · exact ⟨some c, by simp [step, ho]⟩
    · exact ⟨none, by simp [step, ho, h₁, h₂, h₃, h₄]⟩
  | some d =>
    by_cases hd : c = d
    · subst hd
      exact ⟨none, by simp [step, cutsLiteral, h₄]⟩
    · exact ⟨some d, by simp [step, cutsLiteral, h₄, hd]⟩

theorem step_rightBracket (p : Int) {b : Int} (h : 0 < b) (q : Option Char) :
    Nesting.step ⟨p, b, q⟩ ']' = ⟨p, b - 1, none⟩ := by
  cases q with
  | none => simp [step, opensLiteral]
  | some d => simp [step, cutsLiteral, h]

theorem above_of_ne (p b : Int) (q : Option Char) {c : Char} (h : c ≠ ')') :
    Above p ⟨p, b, q⟩ c :=
  ⟨Int.le_refl p, fun hc => absurd hc h⟩

theorem closed_of_ungrouped (h : Ungrouped as) : Closed as := by
  intro p
  induction as with
  | nil => exact .nil
  | cons c as ih =>
    have hc := h c List.mem_cons_self
    have hr := ih fun d hd => h d (List.mem_cons_of_mem _ hd)
    exact .cons (above_of_ne p 0 none hc.2.1) (step_open p c hc) hr

theorem argument_of_ungrouped (h : Ungrouped as) : Argument as := by
  intro p
  have hq : ∀ q, Runs (Bracketed p) ⟨p, 1, q⟩ (as ++ [']'])
      ⟨p, 0, none⟩ := by
    induction as with
    | nil =>
      intro q
      exact .cons ⟨rfl, above_of_ne p 1 q (by decide)⟩ (step_rightBracket p Int.one_pos q) .nil
    | cons c as ih =>
      intro q
      have hc := h c List.mem_cons_self
      obtain ⟨q', hs⟩ := step_argument p q c hc
      have hr := ih (fun d hd => h d (List.mem_cons_of_mem _ hd)) q'
      exact .cons ⟨rfl, above_of_ne p 1 q hc.2.1⟩ hs hr
  exact hq none

theorem step_leftParen (p b : Int) : Nesting.step ⟨p, b, none⟩ '(' = ⟨p + 1, b, none⟩ := by
  simp [step, opensLiteral]

theorem step_rightParen (p b : Int) : Nesting.step ⟨p + 1, b, none⟩ ')' = ⟨p, b, none⟩ := by
  simp [step, opensLiteral]

theorem step_leftBracket (p : Int) : Nesting.step ⟨p, 0, none⟩ '[' = ⟨p, 1, none⟩ := by
  simp [step, opensLiteral]

theorem Closed.append (ha : Closed as) (hb : Closed bs) : Closed (as ++ bs) :=
  fun p => (ha p).append (hb p)

/-- Between parentheses the text closes none but its own. -/
def Inner (p b b' : Int) (cs : List Char) : Prop :=
  Runs (Above (p + 1)) ⟨p + 1, b, none⟩ cs ⟨p + 1, b', none⟩

theorem Closed.inner (h : Closed as) (p : Int) : Inner p 0 0 as :=
  h (p + 1)

theorem Inner.paren {p b b' : Int} (h : Inner p b b' as) :
    Runs (Above p) ⟨p, b, none⟩ ('(' :: as ++ [')']) ⟨p, b', none⟩ := by
  have hin := h.mono fun n c hc => hc.mono (Int.le_of_lt (Int.lt_succ p))
  have hlast : Above p ⟨p + 1, b', none⟩ ')' :=
    ⟨Int.le_of_lt (Int.lt_succ p), fun _ _ => Int.lt_succ p⟩
  exact (Runs.cons (above_of_ne p b none (by decide)) (step_leftParen p b) hin).append
    (.cons hlast (step_rightParen p b') .nil)

theorem Closed.paren (h : Closed as) : Closed ('(' :: as ++ [')']) :=
  fun p => (h.inner p).paren

def applied (sign : Char) (argument input : List Char) : List Char :=
  sign :: '[' :: argument ++ ']' :: '(' :: input ++ [')']

theorem applied_eq (sign : Char) (argument input : List Char) :
    applied sign argument input =
      sign :: '[' :: ((argument ++ [']']) ++ ('(' :: input ++ [')'])) := by
  simp [applied]

theorem unsplit_of_above (hl : 0 < level) {n : Nesting} {c : Char} (h : Above level n c) :
    Unsplit n c := by
  intro ht
  have hlow := h.1
  simp only [isTopLevel, Bool.and_eq_true, decide_eq_true_eq] at ht
  omega

theorem unsplit_paren {b : Int} (h : Inner 0 0 b as) :
    Runs Unsplit .start ('(' :: as ++ [')']) ⟨0, b, none⟩ := by
  have hin := h.mono fun n c hc => unsplit_of_above Int.one_pos hc
  exact (Runs.cons (fun _ => by decide) (step_leftParen 0 0) hin).append
    (.cons (fun _ => by decide) (step_rightParen 0 b) .nil)

section Applied

variable {sign : Char} {argument input : List Char}

theorem closed_applied (hs : Ungrouped [sign]) (ha : Argument argument) (hi : Closed input) :
    Closed (applied sign argument input) := by
  intro p
  have hsign := hs sign List.mem_cons_self
  rw [applied_eq]
  refine .cons (above_of_ne p 0 none hsign.2.1) (step_open p sign hsign) ?_
  refine .cons (above_of_ne p 0 none (by decide)) (step_leftBracket p) ?_
  exact ((ha p).mono fun n c hc => hc.2).append (hi.paren p)

theorem unsplit_applied (hs : Ungrouped [sign]) (hb : sign ≠ ' ') (ha : Argument argument)
    (hi : Closed input) : Runs Unsplit .start (applied sign argument input) .start := by
  have hin : Runs Unsplit ⟨0, 1, none⟩ (argument ++ [']']) .start := by
    refine (ha 0).mono fun n c hc ht => ?_
    simp [isTopLevel, hc.1] at ht
  rw [applied_eq]
  refine .cons (fun _ => hb) (step_open 0 sign (hs sign List.mem_cons_self)) ?_
  refine .cons (fun _ => by decide) (step_leftBracket 0) ?_
  exact hin.append (unsplit_paren (hi.inner 0))

end Applied

theorem enclosed?_paren {p b b' : Int} (h : Inner p b b' as) (bs : List Char) :
    enclosed? ⟨p, b, none⟩ ('(' :: as ++ ')' :: bs) = some (as, bs) := by
  rw [List.cons_append, enclosed?, step_leftParen, closeParen_append h, closeParen]
  simp [quotes, opensLiteral]

end RelAlg.Expr
