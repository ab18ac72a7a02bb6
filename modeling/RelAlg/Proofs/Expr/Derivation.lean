import RelAlg.Expr.Parser
import RelAlg.Proofs.Condition.Acceptance

set_option autoImplicit false

namespace RelAlg

open Text

theorem Condition.parse_mono {limit limit' : Nat} {cs : List Char} {c : Condition}
    (h : Condition.parse limit cs = .ok c) (hl : limit ≤ limit') :
    Condition.parse limit' cs = .ok c := by
  obtain ⟨p, hp, hc⟩ := bind_ok h
  cases hc
  obtain ⟨d, hlex, hd, he⟩ := (parsePredicate_eq_ok_iff limit _ p).1 hp
  have hp' := (parsePredicate_eq_ok_iff limit' _ p).2 ⟨d, hlex, Nat.lt_of_lt_of_le hd hl, he⟩
  rw [Condition.parse]
  simp only [hp']
  rfl

namespace Expr

/-- The text is read as the tree with at most `levels` levels. -/
inductive Derives (limit : Nat) : (levels : Nat) → List Char → Expr → Prop
  | binary {levels : Nat} {cs : List Char} {s : Split} {l r : Expr} (hne : trim cs ≠ [])
      (hs : split? (trim cs) = some s) (hn : trim s.left ≠ [] ∧ trim s.right ≠ [])
      (hl : Derives limit levels s.left l) (hr : Derives limit levels s.right r) :
      Derives limit (levels + 1) cs (.binary s.op l r)
  | unary {levels : Nat} {cs spelling : List Char} {op : UnaryOp} {a : Application}
      {input e : Expr} (hne : trim cs ≠ []) (hs : split? (trim cs) = none)
      (hu : unaryOp? (trim cs) = some (spelling, op))
      (ha : application spelling op (trim cs) = .ok a) (hi : Derives limit levels a.input input)
      (he : a.toExpr limit (trim cs) input = .ok e) : Derives limit (levels + 1) cs e
  | group {levels : Nat} {cs inside : List Char} {e : Expr} (hne : trim cs ≠ [])
      (hs : split? (trim cs) = none) (hu : unaryOp? (trim cs) = none)
      (hg : group? (trim cs) = .ok (some inside)) (hi : Derives limit levels inside e) :
      Derives limit (levels + 1) cs e
  | relation {levels : Nat} {cs : List Char} (hne : trim cs ≠ []) (hs : split? (trim cs) = none)
      (hu : unaryOp? (trim cs) = none) (hg : group? (trim cs) = .ok none)
      (hf : hasGrouping (trim cs) = false) :
      Derives limit (levels + 1) cs (.relation (String.ofList (trim cs)))

variable {limit limit' levels levels' : Nat} {cs : List Char} {e input : Expr}

theorem Derives.trim_ne_nil (h : Derives limit levels cs e) : trim cs ≠ [] := by
  cases h <;> assumption

theorem derives_of_parseLevels (h : parseLevels limit levels cs = .ok e) :
    Derives limit levels cs e := by
  induction levels generalizing cs e with
  | zero => cases h
  | succ levels ih =>
    simp only [parseLevels] at h
    by_cases hne : trim cs = []
    · rw [if_pos (List.isEmpty_iff.2 hne)] at h
      cases h
    rw [if_neg (mt List.isEmpty_iff.1 hne)] at h
    cases hs : split? (trim cs) with
    | some s =>
      simp only [hs] at h
      split at h
      · cases h
      · rename_i hn
        rw [Bool.or_eq_true, not_or, List.isEmpty_iff, List.isEmpty_iff] at hn
        obtain ⟨l, hl, h⟩ := bind_ok h
        obtain ⟨r, hr, h⟩ := bind_ok h
        cases h
        exact .binary hne hs hn (ih hl) (ih hr)
    | none =>
      simp only [hs] at h
      cases hu : unaryOp? (trim cs) with
      | some s =>
        simp only [hu] at h
        obtain ⟨a, ha, h⟩ := bind_ok h
        obtain ⟨input, hi, he⟩ := bind_ok h
        exact .unary hne hs hu ha (ih hi) he
      | none =>
        simp only [hu] at h
        obtain ⟨inside, hg, h⟩ := bind_ok h
        cases inside with
        | some inside => exact .group hne hs hu hg (ih h)
        | none =>
          simp only at h
          split at h
          · cases h
          · rename_i hf
            cases h
            exact .relation hne hs hu hg (Bool.eq_false_iff.2 hf)

theorem parseLevels_of_derives (h : Derives limit levels cs e) :
    parseLevels limit levels cs = .ok e := by
  induction h with
  | binary hne hs hn _ _ ihl ihr =>
    simp only [parseLevels, hs, ihl, ihr, List.isEmpty_iff, hne, hn.1, hn.2, Bool.or_eq_true,
      if_false, or_self]
    rfl
  | unary hne hs hu ha _ he ih =>
    simp only [parseLevels, hs, hu, ha, List.isEmpty_iff, hne, if_false, bind, Except.bind, ih, he]
  | group hne hs hu hg _ ih =>
    simp only [parseLevels, hs, hu, hg, List.isEmpty_iff, hne, if_false, bind, Except.bind, ih]
  | relation hne hs hu hg hf =>
    simp only [parseLevels, hs, hu, hg, List.isEmpty_iff, hne, if_false, bind, Except.bind, hf]
    rfl

theorem Application.toExpr_mono {a : Application} (h : a.toExpr limit cs input = .ok e)
    (hl : limit ≤ limit') : a.toExpr limit' cs input = .ok e := by
  obtain ⟨op, argument, text⟩ := a
  cases op with
  | select =>
    simp only [Application.toExpr] at h ⊢
    split at h
    · rename_i c hc
      rw [Condition.parse_mono hc hl]
      exact h
    · cases h
  | project => exact h
  | rename => exact h

theorem Derives.mono (h : Derives limit levels cs e) (hl : limit ≤ limit') (k : Nat) :
    Derives limit' (k + levels) cs e := by
  induction h with
  | binary hne hs hn _ _ ihl ihr => exact .binary hne hs hn ihl ihr
  | unary hne hs hu ha _ he ih => exact .unary hne hs hu ha ih (Application.toExpr_mono he hl)
  | group hne hs hu hg _ ih => exact .group hne hs hu hg ih
  | relation hne hs hu hg hf => exact .relation hne hs hu hg hf

theorem parseLevels_mono (h : parseLevels limit levels cs = .ok e) (hl : limit ≤ limit')
    (hn : levels ≤ levels') : parseLevels limit' levels' cs = .ok e := by
  obtain ⟨k, rfl⟩ := Nat.exists_eq_add_of_le' hn
  exact parseLevels_of_derives ((derives_of_parseLevels h).mono hl k)

end Expr

end RelAlg
