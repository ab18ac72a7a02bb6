import RelAlg.Proofs.Condition.Lexemes
import RelAlg.Proofs.Expr.Argument
import RelAlg.Proofs.Expr.Offset

set_option autoImplicit false

namespace RelAlg

namespace Condition

def typedLexemes (cs : List Char) : List Lexeme :=
  (lexemes (cs.takeWhile Text.isBlank).length (Text.trim cs)).1

end Condition

namespace Expr

open Nesting Condition

namespace Nesting

/-- The property holds of every character with its place and the nesting before it. -/
def EachAt (P : Nat → Nesting → Char → Prop) (i : Nat) (n : Nesting) (cs : List Char) : Prop :=
  ∀ j c, cs[j]? = some c → P (i + j) (n.run (cs.take j)) c

variable {P : Nat → Nesting → Char → Prop} {Q : Nesting → Char → Prop} {n m : Nesting} {i : Nat}
  {as bs cs : List Char}

theorem EachAt.append (ha : EachAt P i n as) (hb : EachAt P (i + as.length) (n.run as) bs) :
    EachAt P i n (as ++ bs) := by
  intro j c hc
  by_cases hj : j < as.length
  · rw [List.getElem?_append_left hj] at hc
    rw [List.take_append_of_le_length (Nat.le_of_lt hj)]
    exact ha j c hc
  · rw [List.getElem?_append_right (by omega)] at hc
    have h := hb (j - as.length) c hc
    rw [List.take_append, List.take_of_length_le (by omega), run_append]
    rwa [show i + as.length + (j - as.length) = i + j by omega] at h

theorem eachAt_singleton {c : Char} (h : P i n c) : EachAt P i n [c] := by
  intro j d hd
  cases j with
  | zero =>
    cases hd
    exact h
  | succ j => cases hd

theorem EachAt.mono {P' : Nat → Nesting → Char → Prop} (h : EachAt P i n cs)
    (hp : ∀ j ≥ i, ∀ n c, P j n c → P' j n c) : EachAt P' i n cs :=
  fun j c hc => hp (i + j) (Nat.le_add_right i j) _ c (h j c hc)

theorem Along.eachAt (h : Along Q n cs)
    (hp : ∀ j < cs.length, ∀ n c, Q n c → P (i + j) n c) : EachAt P i n cs := by
  induction cs generalizing n i with
  | nil =>
    intro j c hc
    cases hc
  | cons d cs ih =>
    intro j c hc
    cases j with
    | zero =>
      cases hc
      exact hp 0 (by simp) n d h.1
    | succ j =>
      have hr := ih h.2 (i := i + 1) (fun k hk n c hq => by
        rw [Nat.add_assoc, Nat.add_comm 1 k]
        exact hp (k + 1) (by simpa using hk) n c hq) j c hc
      rw [Nat.add_assoc, Nat.add_comm 1 j] at hr
      exact hr

end Nesting

/-- The nesting and the lexemes agree about the character at a place. -/
structure Agree (ls : List Lexeme) (i : Nat) (n : Nesting) (c : Char) : Prop where
  quoted : n.quotes c = true ↔ ∃ s, ReadAs ls i (.text s)
  opens : (n.step c).parens = n.parens + 1 ↔ ReadAs ls i .leftParen
  closes : (n.step c).parens = n.parens - 1 ↔ ReadAs ls i .rightParen

variable {ls : List Lexeme} {i : Nat} {p : Int} {n : Nesting} {c : Char} {t : Token}

theorem agree_of_token (ht : ∀ t', ReadAs ls i t' ↔ t = t') (hq : n.quotes c = t.isText)
    (ho : (n.step c).parens = n.parens + 1 ↔ t = .leftParen)
    (hc : (n.step c).parens = n.parens - 1 ↔ t = .rightParen) : Agree ls i n c where
  quoted := by
    simp only [ht, hq]
    cases t <;> simp [Token.isText]
  opens := ho.trans (ht _).symm
  closes := hc.trans (ht _).symm

theorem Kept.parens_step {quoted : Bool} (h : Kept p quoted n c) :
    (n.step c).parens = n.parens := by
  obtain ⟨-, -, hq, hc⟩ := h
  rw [Nesting.parens_step, hq]
  cases quoted with
  | true => simp
  | false =>
    have hc := hc rfl
    simp only [Plain, List.mem_cons, List.not_mem_nil, or_false, not_or] at hc
    simp [hc]

theorem Kept.agree (h : Kept p t.isText n c) (hl : t ≠ .leftParen) (hr : t ≠ .rightParen)
    (ht : ∀ t', ReadAs ls i t' ↔ t = t') : Agree ls i n c := by
  refine agree_of_token ht h.2.2.1 ?_ ?_
  · rw [h.parens_step]
    simp only [hl, iff_false]
    omega
  · rw [h.parens_step]
    simp only [hr, iff_false]
    omega

theorem Kept.agree_none (h : Kept p false n c) (ht : ∀ t, ¬ReadAs ls i t) : Agree ls i n c := by
  refine ⟨?_, ?_, ?_⟩
  · simp [h.2.2.1, ht]
  · rw [h.parens_step]
    simp only [ht, iff_false]
    omega
  · rw [h.parens_step]
    simp only [ht, iff_false]
    omega

theorem kept_blanks (p : Int) {cs : List Char} (hb : ∀ c ∈ cs, Text.isBlank c = true) :
    Runs (Kept p false) ⟨p, 1, none⟩ cs ⟨p, 1, none⟩ :=
  runs_plain p fun c hc => plain_of_isBlank (hb c hc)

theorem eachAt_blanks (p : Int) {cs : List Char} (hb : ∀ c ∈ cs, Text.isBlank c = true)
    (ht : ∀ j < cs.length, ∀ t, ¬ReadAs ls (i + j) t) :
    EachAt (Agree ls) i ⟨p, 1, none⟩ cs :=
  (kept_blanks p hb).2.eachAt fun j hj _ _ h => h.agree_none (ht j hj)

theorem agree_paren (p : Int) (ht : ∀ t', ReadAs ls i t' ↔ t = t')
    (h : c = '(' ∧ t = .leftParen ∨ c = ')' ∧ t = .rightParen) :
    Agree ls i ⟨p, 1, none⟩ c := by
  have hq : Nesting.quotes ⟨p, 1, none⟩ c = false := by
    rcases h with ⟨rfl, -⟩ | ⟨rfl, -⟩ <;> simp [quotes, opensLiteral]
  refine agree_of_token ht ?_ ?_ ?_
  · rw [hq]
    rcases h with ⟨-, rfl⟩ | ⟨-, rfl⟩ <;> rfl
  all_goals
    rw [Nesting.parens_step, hq]
    rcases h with ⟨rfl, rfl⟩ | ⟨rfl, rfl⟩ <;> simp [Int.sub_eq_add_neg]

theorem Agree.cons {l : Lexeme} (h : Agree ls i n c) (hi : l.position + l.source.length ≤ i) :
    Agree (l :: ls) i n c where
  quoted := by
    simp only [readAs_tail hi]
    exact h.quoted
  opens := h.opens.trans (readAs_tail hi).symm
  closes := h.closes.trans (readAs_tail hi).symm

/-- Through all the characters of a token the nesting keeps to it. Behind it no literal is open. -/
theorem eachAt_source {cs : List Char} {count : Nat} (hread : Reads c cs t count)
    (hb : ']' ∉ c :: cs.take count)
    (ht : ∀ j < (c :: cs.take count).length, ∀ t', ReadAs ls (i + j) t' ↔ t = t') (p : Int) :
    ∃ q, Nesting.run ⟨p, 1, none⟩ (c :: cs.take count) = ⟨q, 1, none⟩ ∧
      EachAt (Agree ls) i ⟨p, 1, none⟩ (c :: cs.take count) := by
  by_cases htl : t = .leftParen
  · obtain ⟨rfl, rfl⟩ := hread.paren.1 htl
    have ha := agree_paren p (ht 0 (by simp)) (.inl ⟨rfl, htl⟩)
    exact ⟨p + 1, step_leftParen p 1, eachAt_singleton ha⟩
  by_cases htr : t = .rightParen
  · obtain ⟨rfl, rfl⟩ := hread.paren.2 htr
    have hrun : Nesting.run ⟨p, 1, none⟩ [')'] = ⟨p - 1, 1, none⟩ := by
      simp [run, step, opensLiteral]
    have ha := agree_paren p (ht 0 (by simp)) (.inr ⟨rfl, htr⟩)
    exact ⟨p - 1, hrun, eachAt_singleton ha⟩
  · obtain ⟨hrun, hk⟩ := runs_token p hread htl htr hb
    exact ⟨p, hrun, hk.eachAt fun j hj n d h => h.agree htl htr (ht j hj)⟩

theorem eachAt_lexemes {position : Nat} {cs : List Char} (h : lexemes position cs = (ls, none))
    (hb : ']' ∉ cs) (p : Int) : EachAt (Agree ls) position ⟨p, 1, none⟩ cs := by
  fun_induction lexemes position cs generalizing ls p with
  | case1 =>
    intro j c hc
    cases hc
  | case2 position c cs hc ih =>
    have hp : ∀ d ∈ [c], Text.isBlank d = true := by
      intro d hd
      rw [List.mem_singleton.1 hd]
      exact hc
    have hls : ∀ l ∈ ls, position + 1 ≤ l.position := fun l hl =>
      (bounds_of_mem_lexemes l (by rw [h]; exact hl)).1
    have hc : EachAt (Agree ls) position ⟨p, 1, none⟩ [c] := by
      refine eachAt_blanks p hp fun j hj t => not_readAs_of_lt hls ?_
      rw [List.length_singleton] at hj
      omega
    refine hc.append ?_
    rw [(kept_blanks p hp).1]
    exact ih h (fun hm => hb (List.mem_cons_of_mem _ hm)) p
  | case3 position c cs hc fault hr => cases h
  | case4 position c cs hc t count hr rest fault hl ih =>
    cases h
    have hread := reads_of_read hr
    obtain ⟨htake, hrest⟩ := not_mem_parts hb count
    have hlen := hread.length_source
    have hls : ∀ l ∈ rest, position + (c :: cs.take count).length ≤ l.position := by
      intro l hm
      have hp := (bounds_of_mem_lexemes l (by rw [hl]; exact hm)).1
      omega
    have ht : ∀ j < (c :: cs.take count).length, ∀ t',
        ReadAs (⟨t, position, c :: cs.take count⟩ :: rest) (position + j) t' ↔ t = t' :=
      fun j hj t' => readAs_head hls ⟨Nat.le_add_right position j, Nat.add_lt_add_left hj position⟩
    obtain ⟨q, hrun, hsource⟩ := eachAt_source hread htake ht p
    -- behind the token the induction holds at any number of open parentheses
    have htail : EachAt (Agree (⟨t, position, c :: cs.take count⟩ :: rest))
        (position + (c :: cs.take count).length) ⟨q, 1, none⟩ (cs.drop count) := by
      have hq := ih hl hrest q
      rw [hlen, ← Nat.add_assoc]
      refine hq.mono fun j hj n d ha => ha.cons ?_
      change position + (c :: cs.take count).length ≤ j
      omega
    rw [← hrun] at htail
    have h := hsource.append htail
    rwa [List.cons_append, List.take_append_drop] at h

section Typed

variable {limit : Nat} {cs : List Char} {condition : Condition}

theorem runs_typed (h : Condition.parse limit cs = .ok condition) (hb : ']' ∉ cs) (p : Int) :
    Runs (Bracketed p) ⟨p, 1, none⟩ cs ⟨p, 1, none⟩ := by
  obtain ⟨trailing, he, ht⟩ := Text.exists_trim cs
  have hblank : ∀ ds : List Char, (∀ c ∈ ds, Text.isBlank c = true) →
      Runs (Bracketed p) ⟨p, 1, none⟩ ds ⟨p, 1, none⟩ := fun ds hd =>
    (kept_blanks p hd).mono fun n c h => h.inside.bracketed (Int.le_refl p)
  have hlead := hblank (cs.takeWhile Text.isBlank) fun c hc => List.mem_takeWhile_imp hc
  have hmid := runs_condition (parsePredicate_of_parse h) (mt Text.mem_of_mem_trim hb) p
  have hrun := (hlead.append hmid).append (hblank trailing ht)
  rwa [he] at hrun

theorem eachAt_typed (h : Condition.parse limit cs = .ok condition) (hb : ']' ∉ cs) :
    EachAt (Agree (typedLexemes cs)) 0 ⟨0, 1, none⟩ cs := by
  obtain ⟨trailing, he, ht⟩ := Text.exists_trim cs
  have hp := parsePredicate_of_parse h
  have hb' : ']' ∉ Text.trim cs := mt Text.mem_of_mem_trim hb
  obtain ⟨d, hl, -, -⟩ := (parsePredicate_eq_ok_iff limit _ _).1 hp
  have hf : (lexemes (cs.takeWhile Text.isBlank).length (Text.trim cs)).2 = none :=
    (lexemes_tokens 0 _ _).2.1 (Prod.mk.inj hl).2
  have hls : lexemes (cs.takeWhile Text.isBlank).length (Text.trim cs) = (typedLexemes cs, none) :=
    Prod.ext rfl hf
  have hbounds := @bounds_of_mem_lexemes (cs.takeWhile Text.isBlank).length (Text.trim cs)
  have hlead : EachAt (Agree (typedLexemes cs)) 0 ⟨0, 1, none⟩ (cs.takeWhile Text.isBlank) := by
    refine eachAt_blanks 0 (fun c hc => List.mem_takeWhile_imp hc) fun j hj t => ?_
    refine not_readAs_of_lt (fun l hl => (hbounds l hl).1) ?_
    rwa [Nat.zero_add]
  have htrail : EachAt (Agree (typedLexemes cs))
      (0 + (cs.takeWhile Text.isBlank ++ Text.trim cs).length) ⟨0, 1, none⟩ trailing := by
    refine eachAt_blanks 0 ht fun j hj t => ?_
    refine not_readAs_of_le (fun l hl => (hbounds l hl).2) ?_
    rw [List.length_append]
    omega
  have hr : Nesting.run ⟨0, 1, none⟩ (cs.takeWhile Text.isBlank) = ⟨0, 1, none⟩ :=
    (kept_blanks 0 fun c hc => List.mem_takeWhile_imp hc).1
  have hr' : Nesting.run ⟨0, 1, none⟩ (cs.takeWhile Text.isBlank ++ Text.trim cs) =
      ⟨0, 1, none⟩ := by
    rw [run_append, hr]
    exact (runs_condition hp hb' 0).1
  have hmid : EachAt (Agree (typedLexemes cs)) 0 ⟨0, 1, none⟩
      (cs.takeWhile Text.isBlank ++ Text.trim cs) := by
    refine hlead.append ?_
    rw [hr, Nat.zero_add]
    exact eachAt_lexemes hls hb' 0
  rw [← hr'] at htrail
  have h := hmid.append htrail
  rwa [he] at h

end Typed

/-- A selection's condition, scanned between its brackets and read by the lexer: at each character
both agree about literals and parentheses. Behind the brackets nothing is open, so what follows has
the positions and the operators that it has alone. -/
theorem scan_selection {limit : Nat} {cs : List Char} {condition : Condition}
    (h : Condition.parse limit cs = .ok condition) (hb : ']' ∉ cs) (rest : List Char) :
    (∀ i c, cs[i]? = some c → ∃ n, (positions ('σ' :: '[' :: cs ++ ']' :: rest))[i + 2]? =
        some ⟨utf8Size ('σ' :: '[' :: cs.take i), c, n⟩ ∧ Agree (typedLexemes cs) i n c) ∧
    Nesting.start.run ('σ' :: '[' :: cs ++ [']']) = .start ∧
    positions ('σ' :: '[' :: cs ++ ']' :: rest) =
      positions ('σ' :: '[' :: cs ++ [']']) ++ (positions rest).map (fun p =>
        { p with offset := utf8Size ('σ' :: '[' :: cs ++ [']']) + p.offset }) ∧
    split? ('σ' :: '[' :: cs ++ ']' :: rest) =
      (split? rest).map fun s => { s with left := 'σ' :: '[' :: cs ++ ']' :: s.left } := by
  have hopen : Nesting.start.run ['σ', '['] = ⟨0, 1, none⟩ := by decide
  have hrun : Runs Unsplit .start ('σ' :: '[' :: cs ++ [']']) .start := by
    have ha := ((runs_typed h hb 0).append (runs_rightBracket 0)).mono (Q := Unsplit)
      fun n c hc ht => by simp [isTopLevel, hc.1] at ht
    refine .cons (fun _ => by decide) (step_open 0 'σ' (by decide)) ?_
    exact .cons (fun _ => by decide) (step_leftBracket 0) ha
  have happ : ∀ ds, 'σ' :: '[' :: cs ++ ']' :: ds = ('σ' :: '[' :: cs ++ [']']) ++ ds := by
    intro ds
    simp
  refine ⟨fun i c hc => ?_, hrun.1, ?_, ?_⟩
  · have hi : i < cs.length := (List.getElem?_eq_some_iff.1 hc).choose
    refine ⟨Nesting.run ⟨0, 1, none⟩ (cs.take i), ?_, ?_⟩
    · have htake : ('σ' :: '[' :: (cs ++ ']' :: rest)).take (i + 2) = 'σ' :: '[' :: cs.take i := by
        simp [List.take_append_of_le_length (Nat.le_of_lt hi)]
      have hchar : ('σ' :: '[' :: (cs ++ ']' :: rest))[i + 2]? = some c := by
        simpa [List.getElem?_append_left hi] using hc
      have hn : Nesting.start.run ('σ' :: '[' :: cs.take i) = .run ⟨0, 1, none⟩ (cs.take i) := by
        rw [← hopen, ← run_append]
        rfl
      rw [positions, getElem?_positionsFrom, List.cons_append, List.cons_append, hchar, htake, hn]
      simp
    · have hx := eachAt_typed h hb i c hc
      rwa [Nat.zero_add] at hx
  · rw [happ, positions, positionsFrom_append, hrun.1, Nat.add_comm, positionsFrom_add]
    rfl
  · rw [happ, split?, splitFrom_append hrun, split?]
    simp

theorem scan_selection_quoted :
    (∃ condition, Condition.parse 2 " (a='x''(' OR b=\" - \") ".toList = .ok condition) ∧
    ']' ∉ " (a='x''(' OR b=\" - \") ".toList ∧
    Agree (typedLexemes " (a='x''(' OR b=\" - \") ".toList) 8 ⟨1, 1, some '\''⟩ '(' ∧
    split? "σ[ (a='x''(' OR b=\" - \") ](R) - S".toList =
      some ⟨"σ[ (a='x''(' OR b=\" - \") ](R)".toList, " - ".toList, .difference, "S".toList⟩ := by
  have hb : ']' ∉ " (a='x''(' OR b=\" - \") ".toList := by decide
  cases hc : Condition.parse 2 " (a='x''(' OR b=\" - \") ".toList with
  | error e =>
    have hp : (Condition.parse 2 " (a='x''(' OR b=\" - \") ".toList).toOption.isSome := by
      decide +kernel
    rw [hc] at hp
    cases hp
  | ok condition =>
    obtain ⟨hat, -, -, hs⟩ := scan_selection hc hb "(R) - S".toList
    have ht : 'σ' :: '[' :: " (a='x''(' OR b=\" - \") ".toList ++ ']' :: "(R) - S".toList =
        "σ[ (a='x''(' OR b=\" - \") ](R) - S".toList := by
      decide +kernel
    refine ⟨⟨condition, rfl⟩, hb, ?_, ?_⟩
    · obtain ⟨n, hn, ha⟩ := hat 8 '(' (by decide)
      have hp : _ = some (⟨11, '(', ⟨1, 1, some '\''⟩⟩ : Position) := hn.symm.trans rfl
      cases hp
      exact ha
    · rw [← ht, hs]
      decide +kernel

end Expr

end RelAlg
