import RelAlg.Proofs.Expr.Scan

set_option autoImplicit false

namespace RelAlg.Expr

namespace Nesting

variable {n m : Nesting} {c : Char} {cs : List Char} {level : Int}

/-- With `k` more parentheses open. -/
def raise (k : Int) (n : Nesting) : Nesting :=
  { n with parens := n.parens + k }

theorem step_raise (k : Int) (n : Nesting) (c : Char) :
    (n.raise k).step c = (n.step c).raise k := by
  obtain ⟨p, b, _ | q⟩ := n
  · grind [raise, step, opensLiteral]
  · grind [raise, step, cutsLiteral]

theorem Runs.raise (h : Runs (Above level) n cs m) (k : Int) :
    Runs (Above (level + k)) (n.raise k) cs (m.raise k) := by
  induction cs generalizing n with
  | nil =>
    obtain ⟨rfl, -⟩ := h
    exact .nil
  | cons c cs ih =>
    obtain ⟨hr, ⟨hlow, hc⟩, ha⟩ := h
    have hc' : Above (level + k) (n.raise k) c :=
      ⟨Int.add_le_add_right hlow k, fun he hq => Int.add_lt_add_right (hc he hq) k⟩
    exact .cons hc' (step_raise k n c) (ih ⟨hr, ha⟩)

theorem Above.le_step (h : Above level n c) : level ≤ (n.step c).parens := by
  obtain ⟨hlow, hc⟩ := h
  rw [parens_step]
  split
  · omega
  · rename_i hq
    split
    · omega
    split
    · rename_i he
      have := hc he (Bool.eq_false_iff.2 hq)
      omega
    · omega

theorem Runs.le_parens (h : Runs (Above level) n cs m) (hn : level ≤ n.parens) :
    level ≤ m.parens := by
  induction cs generalizing n with
  | nil =>
    obtain ⟨rfl, -⟩ := h
    exact hn
  | cons c cs ih =>
    obtain ⟨hr, hc, ha⟩ := h
    exact ih ⟨hr, ha⟩ hc.le_step

theorem le_brackets_step (n : Nesting) (h : c ≠ ']') : n.brackets ≤ (n.step c).brackets := by
  obtain ⟨p, b, _ | q⟩ := n
  · grind [step]
  · grind [step, cutsLiteral]

theorem brackets_run (h : ']' ∉ cs) (hn : 0 < n.brackets) : 0 < (n.run cs).brackets := by
  induction cs generalizing n with
  | nil => exact hn
  | cons c cs ih =>
    rw [List.mem_cons, not_or] at h
    exact ih h.2 (Int.lt_of_lt_of_le hn (le_brackets_step n (Ne.symm h.1)))

theorem start_of_isTopLevel (h : n.isTopLevel ' ' = true) : n = .start := by
  obtain ⟨p, b, _ | q⟩ := n
  · simp only [isTopLevel, Bool.and_eq_true, decide_eq_true_eq] at h
    obtain ⟨⟨rfl, rfl⟩, -⟩ := h
    rfl
  · simp [isTopLevel, quotes, cutsLiteral] at h

theorem quote_of_quotes (h : n.quotes ')' = false) : n.quote = none := by
  obtain ⟨p, b, _ | q⟩ := n
  · rfl
  · cases h

/-- Short of a parenthesis that goes back to the level, a character stays above it. -/
theorem above_of_not_closing (hn : level < n.parens)
    (hc : ¬(c = ')' ∧ n.quotes c = false ∧ n.parens = level + 1)) : Above (level + 1) n c := by
  refine ⟨hn, fun he hq => ?_⟩
  have hne : n.parens ≠ level + 1 := fun hp => hc ⟨he, hq, hp⟩
  omega

end Nesting

open Nesting

variable {n : Nesting} {level : Int} {cs inside rest : List Char}

theorem runs_of_closeParen_none (h : closeParen level n cs = none) (hn : level < n.parens) :
    Runs (Above (level + 1)) n cs (n.run cs) := by
  induction cs generalizing n with
  | nil => exact .nil
  | cons c cs ih =>
    rw [closeParen] at h
    split at h
    · cases h
    · rename_i hc
      have ha := above_of_not_closing hn hc
      exact .cons ha rfl (ih (Option.map_eq_none_iff.1 h) ha.le_step)

theorem runs_of_closeParen (h : closeParen level n cs = some (inside, rest))
    (hn : level < n.parens) :
    ∃ b, Runs (Above (level + 1)) n inside ⟨level + 1, b, none⟩ := by
  induction cs generalizing n inside with
  | nil => cases h
  | cons c cs ih =>
    rw [closeParen] at h
    split at h
    · rename_i hc
      cases h
      obtain ⟨rfl, hq, hp⟩ := hc
      obtain ⟨p, b, q⟩ := n
      cases hp
      cases quote_of_quotes hq
      exact ⟨b, .nil⟩
    · rename_i hc
      obtain ⟨⟨inside', rest'⟩, hr, he⟩ := Option.map_eq_some_iff.1 h
      cases he
      have ha := above_of_not_closing hn hc
      obtain ⟨b, hr⟩ := ih hr ha.le_step
      exact ⟨b, .cons ha rfl hr⟩

/-- A text keeps to the parentheses that are open before it, or there is a first one that it closes.
-/
theorem runs_or_dips (hn : level ≤ n.parens) (cs : List Char) :
    Runs (Above level) n cs (n.run cs) ∨
      ∃ u b, u ++ [')'] <+: cs ∧ Runs (Above level) n u ⟨level, b, none⟩ := by
  have hn' : level - 1 < n.parens := by omega
  have hl : level - 1 + 1 = level := Int.sub_add_cancel level 1
  cases h : closeParen (level - 1) n cs with
  | none =>
    have hr := runs_of_closeParen_none h hn'
    rw [hl] at hr
    exact .inl hr
  | some p =>
    obtain ⟨b, hr⟩ := runs_of_closeParen h hn'
    rw [hl] at hr
    have he := append_of_closeParen h
    rw [List.append_cons] at he
    exact .inr ⟨p.1, b, ⟨p.2, he⟩, hr⟩

theorem inner_of_enclosed? {p b : Int} (h : enclosed? ⟨p, b, none⟩ cs = some (inside, rest)) :
    '(' :: inside ++ ')' :: rest = cs ∧ ∃ b', Inner p b b' inside := by
  unfold enclosed? at h
  split at h
  · rw [step_leftParen] at h
    exact ⟨congrArg ('(' :: ·) (append_of_closeParen h), runs_of_closeParen h (Int.lt_succ p)⟩
  · cases h

theorem split_of_splitFrom {s : Split} (h : splitFrom n cs = some s) :
    n.run s.left = .start ∧ (s.token, s.op) ∈ BinaryOp.spellings := by
  induction cs generalizing n s with
  | nil => cases h
  | cons c cs ih =>
    rw [splitFrom] at h
    split at h
    · rename_i token op hs
      cases h
      split at hs
      · rename_i ht
        refine ⟨?_, (startsWith?_isPrefixOf hs).1⟩
        by_cases hc : c = ' '
        · subst hc
          exact start_of_isTopLevel ht
        · rw [startsWith?_of_ne_blank hc] at hs
          cases hs
      · cases hs
    · obtain ⟨s', hs, rfl⟩ := Option.map_eq_some_iff.1 h
      exact ih (n := n.step c) (s := s') hs

theorem ungrouped_of_positions (offset : Nat) (h : ∀ p ∈ positionsFrom offset .start cs,
    p.nesting.quotes p.char = false →
      p.char ≠ '(' ∧ p.char ≠ ')' ∧ p.char ≠ '[' ∧ p.char ≠ ']') : Ungrouped cs := by
  induction cs generalizing offset with
  | nil =>
    intro c hc
    cases hc
  | cons c cs ih =>
    -- outside of brackets nothing is quoted
    have hq : Nesting.start.quotes c = false := by simp [quotes, opensLiteral, start]
    have hc := h _ List.mem_cons_self hq
    have hs : Nesting.start.step c = .start := step_open 0 c hc
    have hcs := ih (offset + c.utf8Size) fun p hp => h p (List.mem_cons_of_mem _ (hs.symm ▸ hp))
    intro d hd
    rcases List.mem_cons.1 hd with rfl | hd
    · exact hc
    · exact hcs d hd

theorem ungrouped_of_hasGrouping (h : hasGrouping cs = false) : Ungrouped cs := by
  rw [hasGrouping, List.any_eq_false] at h
  refine ungrouped_of_positions 0 fun p hp hq => ?_
  simpa [hq, and_assoc] using h p hp

/-- The parentheses that count balance: none closes before it was opened and none stays open. -/
def Balanced (cs : List Char) : Prop :=
  Along (Above 0) .start cs ∧ (Nesting.start.run cs).parens = 0

instance (level : Int) (n : Nesting) (c : Char) : Decidable (Above level n c) :=
  inferInstanceAs (Decidable (_ ∧ _))

instance decidableAlong (level : Int) : ∀ (n : Nesting) (cs : List Char),
    Decidable (Along (Above level) n cs)
  | _, [] => isTrue trivial
  | n, c :: cs =>
    have := decidableAlong level (n.step c) cs
    inferInstanceAs (Decidable (Above level n c ∧ _))

instance : DecidablePred Balanced :=
  fun _ => inferInstanceAs (Decidable (_ ∧ _))

end RelAlg.Expr
