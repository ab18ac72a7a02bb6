import RelAlg.Proofs.Expr.Derivation
import RelAlg.Proofs.Expr.Scan
import RelAlg.Proofs.Text.Spans

set_option autoImplicit false

namespace RelAlg.Expr

open Nesting Text

/-- An operand as it can be written in a chain: accepted on its own, with no operator outside of
everything and nothing left open. -/
structure Operand where
  text : List Char
  expr : Expr
  levels : Nat
  trimmed : trim text = text
  accepted : parse levels text = .ok expr
  unsplit : split? (text ++ [' ']) = none
  closed : Nesting.start.run text = .start

structure Link where
  token : List Char
  op : BinaryOp
  spelled : (token, op) ∈ BinaryOp.spellings
  operand : Operand

def Link.meaning (l : Link) : BinaryOp × Operand :=
  (l.op, l.operand)

def chainText : Operand → List Link → List Char
  | o, [] => o.text
  | o, l :: ls => o.text ++ l.token ++ chainText l.operand ls

def chainExpr : Operand → List Link → Expr
  | o, [] => o.expr
  | o, l :: ls => .binary l.op o.expr (chainExpr l.operand ls)

theorem spelling_eq :
    ∀ s ∈ BinaryOp.spellings, ∃ word, s.1 = ' ' :: word ++ [' '] ∧ ' ' ∉ word := by
  have h : ∀ s ∈ BinaryOp.spellings,
      s.1 = ' ' :: s.1.tail.dropLast ++ [' '] ∧ ' ' ∉ s.1.tail.dropLast := by decide
  exact fun s hs => ⟨_, h s hs⟩

theorem startsWith?_spelling {token : List Char} {op : BinaryOp}
    (h : (token, op) ∈ BinaryOp.spellings) (cs : List Char) :
    startsWith? BinaryOp.spellings (token ++ cs) = some (token, op) := by
  simp only [BinaryOp.spellings, List.mem_cons, List.not_mem_nil, or_false, Prod.mk.injEq] at h
  rcases h with ⟨rfl, rfl⟩ | ⟨rfl, rfl⟩ | ⟨rfl, rfl⟩ | ⟨rfl, rfl⟩ | ⟨rfl, rfl⟩ | ⟨rfl, rfl⟩ |
    ⟨rfl, rfl⟩ | ⟨rfl, rfl⟩ <;> rfl

section Passes

variable {as bs word : List Char} {n : Nesting}

/-- A spelling that starts before a blank ends there at the latest. -/
theorem prefix_of_prefix_blank (hw : ' ' ∉ word) (hne : as ≠ [])
    (h : ' ' :: word ++ [' '] <+: as ++ ' ' :: bs) : ' ' :: word ++ [' '] <+: as ++ [' '] := by
  have has : as ++ [' '] <+: as ++ ' ' :: bs := ⟨bs, by simp⟩
  obtain hp | ⟨rest, hr⟩ := List.prefix_or_prefix_of_prefix h has
  · exact hp
  · obtain ⟨a, as, rfl⟩ := List.exists_cons_of_ne_nil hne
    rcases List.eq_nil_or_concat rest with rfl | ⟨rest, c, rfl⟩
    · rw [List.append_nil] at hr
      exact hr ▸ List.prefix_refl _
    · -- the blank behind `as` would stand inside the word
      have hin : as ++ [' '] ++ rest ++ [c] = word ++ [' '] := by
        simpa using (List.cons.inj hr).2
      obtain ⟨rfl, -⟩ := List.append_inj' hin rfl
      simp at hw

theorem startsWith?_blank (hne : as ≠ [])
    (h : startsWith? BinaryOp.spellings (as ++ [' ']) = none) (bs : List Char) :
    startsWith? BinaryOp.spellings (as ++ ' ' :: bs) = none := by
  rw [startsWith?, List.find?_eq_none] at h ⊢
  intro s hs hp
  obtain ⟨word, he, hw⟩ := spelling_eq s hs
  have hn := h s hs
  rw [List.isPrefixOf_iff_prefix] at hp hn
  rw [he] at hp hn
  exact hn (prefix_of_prefix_blank hw hne hp)

/-- Without an operator up to a blank, the first operator is found from there on. -/
theorem splitFrom_unsplit (h : splitFrom n (as ++ [' ']) = none) (bs : List Char) :
    splitFrom n (as ++ ' ' :: bs) =
      (splitFrom (n.run as) (' ' :: bs)).map fun s => { s with left := as ++ s.left } := by
  induction as generalizing n with
  | nil =>
    change splitFrom n (' ' :: bs) = (splitFrom n (' ' :: bs)).map id
    rw [Option.map_id]
    rfl
  | cons a as ih =>
    rw [List.cons_append, splitFrom] at h
    split at h
    · cases h
    · rename_i hs
      have hs' : (if n.isTopLevel a then startsWith? BinaryOp.spellings (a :: (as ++ ' ' :: bs))
          else none) = none := by
        split
        · rename_i ht
          rw [if_pos ht] at hs
          exact startsWith?_blank (List.cons_ne_nil a as) hs bs
        · rfl
      rw [List.cons_append, splitFrom, hs', ih (Option.map_eq_none_iff.1 h)]
      simp only [Option.map_map]
      rfl

end Passes

namespace Operand

variable (o : Operand)

theorem framed : Framed o.text := by
  have hne := (derives_of_parseLevels o.accepted).trim_ne_nil
  rw [o.trimmed] at hne
  exact ⟨hne, o.trimmed⟩

theorem split?_link {token : List Char} {op : BinaryOp} (h : (token, op) ∈ BinaryOp.spellings)
    (cs : List Char) : split? (o.text ++ token ++ cs) = some ⟨o.text, token, op, cs⟩ := by
  obtain ⟨word, he, -⟩ := spelling_eq _ h
  change token = _ at he
  have hs : splitFrom .start (token ++ cs) = some ⟨[], token, op, cs⟩ := by
    have hs := startsWith?_spelling h cs
    subst he
    rw [List.cons_append, List.cons_append] at hs ⊢
    have ht : Nesting.start.isTopLevel ' ' = true := by decide
    rw [splitFrom, if_pos ht, hs]
    simp
  subst he
  have happ : ' ' :: word ++ [' '] ++ cs = ' ' :: (word ++ [' '] ++ cs) := rfl
  rw [happ] at hs
  rw [split?, List.append_assoc, happ, splitFrom_unsplit o.unsplit, o.closed, hs]
  simp

end Operand

theorem framed_chain (first : Operand) (links : List Link) : Framed (chainText first links) := by
  induction links generalizing first with
  | nil => exact first.framed
  | cons l ls ih => exact framed_append first.framed (ih l.operand) l.token

theorem parseLevels_chain {limit levels : Nat} (hle : levels ≤ limit) (first : Operand)
    (links : List Link)
    (h : ∀ o ∈ first :: links.map Link.operand, links.length + o.levels ≤ levels) :
    parseLevels limit levels (chainText first links) = .ok (chainExpr first links) := by
  induction links generalizing first levels with
  | nil =>
    have hf := h first List.mem_cons_self
    rw [List.length_nil, Nat.zero_add] at hf
    exact parseLevels_mono first.accepted (Nat.le_trans hf hle) hf
  | cons l ls ih =>
    rw [List.length_cons] at h
    cases levels with
    | zero =>
      have hf := h first List.mem_cons_self
      omega
    | succ levels =>
      have hm : ∀ o ∈ first :: (l :: ls).map Link.operand, ls.length + o.levels ≤ levels := by
        intro o ho
        have ho := h o ho
        omega
      have hn : first.levels ≤ levels :=
        Nat.le_trans (Nat.le_add_left _ _) (hm first List.mem_cons_self)
      have hl := parseLevels_mono first.accepted (by omega : first.levels ≤ limit) hn
      have hr := ih (Nat.le_of_succ_le hle) l.operand fun o ho => hm o (List.mem_cons_of_mem _ ho)
      have hf := framed_chain first (l :: ls)
      have hf' := framed_chain l.operand ls
      have hs := first.split?_link l.spelled (chainText l.operand ls)
      refine parseLevels_of_derives (.binary (s := ⟨first.text, l.token, l.op, _⟩) ?_ ?_ ?_
        (derives_of_parseLevels hl) (derives_of_parseLevels hr))
      · exact hf.2.symm ▸ hf.1
      · rw [hf.2]
        exact hs
      · exact ⟨first.trimmed.symm ▸ first.framed.1, hf'.2.symm ▸ hf'.1⟩

theorem chainExpr_congr {links links' : List Link} (first : Operand)
    (h : links'.map Link.meaning = links.map Link.meaning) :
    chainExpr first links' = chainExpr first links := by
  induction links' generalizing first links with
  | nil =>
    cases links with
    | nil => rfl
    | cons l ls => cases h
  | cons l' ls' ih =>
    cases links with
    | nil => cases h
    | cons l ls =>
      obtain ⟨hl, hls⟩ := List.cons.inj h
      obtain ⟨hop, ho⟩ := Prod.mk.inj hl
      rw [chainExpr, chainExpr, hop, ho, ih l.operand hls]

/-- A chain is divided at its first operator and nested to the right. Only the operators between the
operands take part, and how they are spelled does not matter. -/
theorem parse_chain (first : Operand) (links : List Link) (limit : Nat)
    (h : ∀ o ∈ first :: links.map Link.operand, links.length + o.levels ≤ limit) :
    parse limit (chainText first links) = .ok (chainExpr first links) ∧
    (∀ links' : List Link, links'.map Link.meaning = links.map Link.meaning →
      parse limit (chainText first links') = .ok (chainExpr first links)) ∧
    ∀ l ls, links = l :: ls → split? (chainText first links) =
      some ⟨first.text, l.token, l.op, chainText l.operand ls⟩ := by
  refine ⟨parseLevels_chain (Nat.le_refl limit) first links h, fun links' hm => ?_, ?_⟩
  · have hlen : links'.length = links.length := by
      simpa using congrArg List.length hm
    have hop : links'.map Link.operand = links.map Link.operand := by
      have h := congrArg (List.map Prod.snd) hm
      rwa [List.map_map, List.map_map] at h
    rw [← hop, ← hlen] at h
    rw [← chainExpr_congr first hm]
    exact parseLevels_chain (Nat.le_refl limit) first links' h
  · rintro l ls rfl
    exact first.split?_link l.spelled _

theorem parse_chain_nested :
    ∃ (first : Operand) (links : List Link),
      chainText first links = "(R - S) ∪ π[a - b](R) MINUS ρ[\" - \"](S)".toList ∧
      (∀ o ∈ first :: links.map Link.operand, links.length + o.levels ≤ 5) ∧
      parse 5 "(R - S) ∪ π[a - b](R) MINUS ρ[\" - \"](S)".toList =
        .ok (binary .union (binary .difference (relation "R") (relation "S"))
          (binary .difference (project ["a - b"] (relation "R"))
            (rename "\" - \"" (relation "S")))) := by
  let first : Operand :=
    ⟨"(R - S)".toList, binary .difference (relation "R") (relation "S"), 3, by decide, by rfl,
      by decide, by decide⟩
  let second : Operand :=
    ⟨"π[a - b](R)".toList, project ["a - b"] (relation "R"), 2, by decide, by rfl, by decide,
      by decide⟩
  let third : Operand :=
    ⟨"ρ[\" - \"](S)".toList, rename "\" - \"" (relation "S"), 2, by decide, by rfl, by decide,
      by decide⟩
  let links : List Link :=
    [⟨" ∪ ".toList, .union, by decide, second⟩, ⟨" MINUS ".toList, .difference, by decide, third⟩]
  have h : ∀ o ∈ first :: links.map Link.operand, links.length + o.levels ≤ 5 := by
    simp [first, second, third, links]
  have ht : chainText first links = "(R - S) ∪ π[a - b](R) MINUS ρ[\" - \"](S)".toList := by
    decide +kernel +zetaReduce
  exact ⟨first, links, ht, h, ht ▸ (parse_chain first links 5 h).1⟩

end RelAlg.Expr
