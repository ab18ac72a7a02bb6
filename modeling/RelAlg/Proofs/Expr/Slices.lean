import RelAlg.Proofs.Expr.Grouping
import RelAlg.Proofs.Expr.Offset

set_option autoImplicit false

namespace RelAlg.Expr

open Text

variable {cs : List Char}

def Split.start (s : Split) : Nat :=
  utf8Size s.left

def Split.stop (s : Split) : Nat :=
  utf8Size s.left + utf8Size s.token

/-- A spelling of the operator stands between the offsets, outside of everything. -/
structure OperatorAt (cs : List Char) (op : BinaryOp) (start stop : Nat) : Prop where
  ordered : start < stop ∧ stop ≤ utf8Size cs
  boundaries : Boundary cs start ∧ Boundary cs stop
  spelled : ∃ token, slice? cs start stop = some token ∧ (token, op) ∈ BinaryOp.spellings
  topLevel : ∃ p ∈ positions cs, p.offset = start ∧ p.nesting.isTopLevel p.char = true

theorem binary_ne_nil : ∀ s ∈ BinaryOp.spellings, s.1 ≠ [] := by
  simp [BinaryOp.spellings]

theorem operatorAt_of_split? {s : Split} (h : split? cs = some s) :
    OperatorAt cs s.op s.start s.stop := by
  have happ := append_of_splitFrom h
  obtain ⟨hrun, hm⟩ := split_of_splitFrom h
  obtain ⟨c, token, ht⟩ : ∃ c token, s.token = c :: token :=
    List.exists_cons_of_ne_nil (binary_ne_nil _ hm)
  have hpos : 0 < utf8Size s.token :=
    Nat.pos_of_ne_zero (mt utf8Size_eq_zero_iff.1 (binary_ne_nil _ hm))
  refine ⟨⟨Nat.lt_add_of_pos_right hpos, ?_⟩, ⟨⟨s.left, s.token ++ s.right, ?_, rfl⟩,
    ⟨s.left ++ s.token, s.right, happ.symm, utf8Size_append _ _⟩⟩,
    ⟨s.token, slice?_eq_some_iff.2 ⟨s.left, s.right, happ.symm, rfl, rfl⟩, hm⟩,
    ⟨⟨s.start, c, .start⟩, mem_positions_iff.2 ⟨s.left, token ++ s.right, ?_, rfl, hrun.symm⟩,
      rfl, ?_⟩⟩
  · rw [← happ, utf8Size_append, utf8Size_append]
    exact Nat.le_add_right _ _
  · rw [← List.append_assoc, happ]
  · rw [← happ, ht, List.append_assoc]
    rfl
  · simp [Nesting.isTopLevel, Nesting.quotes, Nesting.opensLiteral, Nesting.start]

theorem splitFrom_le {n : Nesting} {before behind : List Char} {c : Char}
    (ht : (n.run before).isTopLevel c = true)
    (hs : startsWith? BinaryOp.spellings (c :: behind) ≠ none) :
    ∃ s, splitFrom n (before ++ c :: behind) = some s ∧ utf8Size s.left ≤ utf8Size before := by
  induction before generalizing n with
  | nil =>
    obtain ⟨⟨token, op⟩, ho⟩ := Option.ne_none_iff_exists'.1 hs
    change n.isTopLevel c = true at ht
    refine ⟨⟨[], token, op, (c :: behind).drop token.length⟩, ?_, Nat.le_refl _⟩
    simp only [List.nil_append, splitFrom, ht, if_true, ho]
  | cons a before ih =>
    rw [List.cons_append, splitFrom]
    split
    · exact ⟨_, rfl, Nat.zero_le _⟩
    · obtain ⟨s, hs', hle⟩ := ih (n := n.step a) ht
      rw [hs']
      exact ⟨_, rfl, Nat.add_le_add_left hle _⟩

theorem start_le_of_operatorAt {s : Split} {op : BinaryOp} {start stop : Nat}
    (h : split? cs = some s) (ho : OperatorAt cs op start stop) : s.start ≤ start := by
  obtain ⟨p, hp, hoff, ht⟩ := ho.topLevel
  obtain ⟨token, hslice, hm⟩ := ho.spelled
  obtain ⟨before, behind, hcs, hsize, hn⟩ := mem_positions_iff.1 hp
  obtain ⟨before', behind', hcs', hsize', -⟩ := slice?_eq_some_iff.1 hslice
  -- the offset leaves no choice of what stands in front of it
  have hparts : (before, p.char :: behind) = (before', token ++ behind') := by
    rw [← splitOffset_append, ← splitOffset_append, ← hsize, hoff, hsize', ← hcs,
      ← List.append_assoc, ← hcs']
  obtain ⟨rfl, hrest⟩ := Prod.mk.inj hparts
  have hs : startsWith? BinaryOp.spellings (p.char :: behind) ≠ none := by
    rw [startsWith?, ne_eq, List.find?_eq_none]
    intro hno
    refine hno _ hm ?_
    rw [List.isPrefixOf_iff_prefix, hrest]
    exact List.prefix_append _ _
  obtain ⟨s', hs', hle⟩ := splitFrom_le (n := .start) (hn ▸ ht) hs
  rw [← hcs] at hs'
  obtain rfl : s = s' := Option.some.inj (h.symm.trans hs')
  rwa [← hsize']

theorem exists_of_enclosed? {n : Nesting} {inside trailing : List Char}
    (h : enclosed? n cs = some (inside, trailing)) : cs = '(' :: inside ++ ')' :: trailing := by
  unfold enclosed? at h
  split at h
  · exact congrArg ('(' :: ·) (append_of_closeParen h).symm
  · cases h

theorem charAt_of_matchingParen? {opening closing : Nat} (hb : Boundary cs opening)
    (h : matchingParen? cs opening = some closing) :
    opening < closing ∧ CharAt cs opening '(' ∧ CharAt cs closing ')' := by
  obtain ⟨before, behind, hcs, rfl⟩ := hb
  rw [matchingParen?_eq hcs] at h
  obtain ⟨⟨inside, trailing⟩, he, rfl⟩ := Option.map_eq_some_iff.1 h
  have hbehind := exists_of_enclosed? he
  refine ⟨by omega, ⟨before, inside ++ ')' :: trailing, ?_, rfl⟩,
    ⟨before ++ '(' :: inside, trailing, ?_, ?_⟩⟩
  · rw [hcs, hbehind]
    rfl
  · rw [hcs, hbehind, List.append_assoc]
  · rw [utf8Size_append, utf8Size, ← Nat.add_assoc]
    rfl

namespace Sliced

/-- Why a parse by offsets stops: it takes a part that the text does not have, or the text is
refused. -/
inductive Stop where
  | misplaced
  | refused (error : QueryError)

abbrev Part (cs : List Char) :=
  { part : List Char // part.length < cs.length }

/-- The part between two offsets, which has to be shorter than the text. -/
def cut (cs : List Char) (start stop : Nat) : Except Stop (Part cs) :=
  match slice? cs start stop with
  | none => .error .misplaced
  | some part => if h : part.length < cs.length then .ok ⟨part, h⟩ else .error .misplaced

def refuse {α : Type} (fault : ExprFault) (fragment : List Char) : Except Stop α :=
  .error (.refused (.parse fault (String.ofList fragment)))

def operands? (cs : List Char) : Except Stop (Option (BinaryOp × Part cs × Part cs)) :=
  match split? cs with
  | none => .ok none
  | some s => do
    let left ← cut cs 0 s.start
    let right ← cut cs s.stop (utf8Size cs)
    if (trim left.1).isEmpty || (trim right.1).isEmpty then refuse (.missingOperand s.op) cs
    else .ok (some (s.op, left, right))

def input (spelling cs : List Char) (start : Nat) : Except Stop (Part cs) := do
  let name := String.ofList spelling
  let behind ← cut cs start (utf8Size cs)
  if behind.1.head? != some '(' then refuse (.missingInput name) cs
  else
    match matchingParen? cs start with
    | none => refuse .openParentheses cs
    | some stop =>
      let trailing ← cut cs (stop + 1) (utf8Size cs)
      if !(trim trailing.1).isEmpty then refuse (.textAfterInput name) (trim trailing.1)
      else cut cs (start + 1) stop

def application (spelling cs : List Char) : Except Stop (List Char × Part cs) :=
  let name := String.ofList spelling
  match offsetOf? '[' cs with
  | none => refuse (.missingArgument name) cs
  | some start => do
    let between ← cut cs (utf8Size spelling) start
    if !(trim between.1).isEmpty then refuse (.textBeforeArgument name) cs
    else
      let bracketed ← cut cs start (utf8Size cs)
      match offsetOf? ']' bracketed.1 with
      | none => refuse (.openArgument name) cs
      | some size =>
        let argument ← cut cs (start + 1) (start + size)
        let input ← input spelling cs (start + size + 1)
        .ok (trim argument.1, input)

def lastOffset (cs : List Char) : Except Stop Nat :=
  if utf8Size cs = 0 then .error .misplaced else .ok (utf8Size cs - 1)

def group? (cs : List Char) : Except Stop (Option (Part cs)) :=
  if cs.head? = some '(' then
    match matchingParen? cs 0 with
    | none => refuse .openParentheses cs
    | some close => do
      let last ← lastOffset cs
      if close = last then
        let inside ← cut cs 1 close
        .ok (some inside)
      else .ok none
  else .ok none

/-- An expression at a depth. The limit bounds the depth; the recursion goes down on the text. -/
def expression (limit depth : Nat) (text : List Char) : Except Stop Expr :=
  if limit < depth then .error (.refused (.nestingTooDeep limit))
  else if (trim text).isEmpty then refuse .emptyExpression (trim text)
  else do
    match ← operands? (trim text) with
    | some (op, left, right) =>
      let l ← expression limit (depth + 1) left.1
      let r ← expression limit (depth + 1) right.1
      return .binary op l r
    | none =>
      match unaryOp? (trim text) with
      | some (spelling, op) =>
        let a ← application spelling (trim text)
        let input ← expression limit (depth + 1) a.2.1
        (Application.toExpr ⟨op, a.1, a.2.1⟩ limit (trim text) input).mapError .refused
      | none =>
        match ← group? (trim text) with
        | some inside => expression limit (depth + 1) inside.1
        | none =>
          if hasGrouping (trim text) then refuse .unrecognized (trim text)
          else return .relation (String.ofList (trim text))
termination_by text.length
decreasing_by
  all_goals have hle := length_trim_le text
  · exact Nat.lt_of_lt_of_le left.2 hle
  · exact Nat.lt_of_lt_of_le right.2 hle
  · exact Nat.lt_of_lt_of_le a.2.2 hle
  · exact Nat.lt_of_lt_of_le inside.2 hle

def parse (limit : Nat) (cs : List Char) : Except Stop Expr :=
  expression limit 1 cs

section Agreement

variable {start stop : Nat}

theorem cut_eq {part : List Char} (before behind : List Char) (h : cs = before ++ part ++ behind)
    (hs : utf8Size before = start) (he : start + utf8Size part = stop)
    (hne : before ≠ [] ∨ behind ≠ []) : ∃ hl, cut cs start stop = .ok ⟨part, hl⟩ := by
  have hp := slice?_eq_some_iff.2 ⟨before, behind, h, hs, he⟩
  have hl : part.length < cs.length := by
    rw [h, List.length_append, List.length_append]
    rcases hne with hne | hne
    · have hpos := List.length_pos_iff.2 hne
      omega
    · have hpos := List.length_pos_iff.2 hne
      omega
  exact ⟨hl, by simp only [cut, hp, dif_pos hl]⟩

theorem cut_start {part behind : List Char} (h : cs = part ++ behind) (hne : behind ≠ []) :
    ∃ hl, cut cs 0 (utf8Size part) = .ok ⟨part, hl⟩ :=
  cut_eq [] behind h rfl (Nat.zero_add _) (.inr hne)

theorem cut_rest {before part : List Char} (h : cs = before ++ part)
    (hs : utf8Size before = start) (hne : before ≠ []) :
    ∃ hl, cut cs start (utf8Size cs) = .ok ⟨part, hl⟩ := by
  refine cut_eq before [] ?_ hs ?_ (.inl hne)
  · rw [h, List.append_nil]
  · rw [h, utf8Size_append, hs]

theorem unary_ne_nil : ∀ s ∈ UnaryOp.spellings, s.1 ≠ [] := by
  simp [UnaryOp.spellings]

theorem operands?_eq (cs : List Char) :
    (operands? cs = .ok none ∧ split? cs = none) ∨
    ∃ s, split? cs = some s ∧ ∃ hl hr, operands? cs =
      if (trim s.left).isEmpty || (trim s.right).isEmpty then refuse (.missingOperand s.op) cs
      else .ok (some (s.op, ⟨s.left, hl⟩, ⟨s.right, hr⟩)) := by
  cases hs : split? cs with
  | none => exact .inl ⟨by simp only [operands?, hs], rfl⟩
  | some s =>
    have happ := (append_of_splitFrom hs).symm
    have htoken : s.token ≠ [] := binary_ne_nil _ (split_of_splitFrom hs).2
    obtain ⟨hl, (hleft : cut cs 0 s.start = _)⟩ := cut_start (happ.trans (List.append_assoc _ _ _))
      (mt List.append_eq_nil_iff.1 fun h => htoken h.1)
    obtain ⟨hr, (hright : cut cs s.stop _ = _)⟩ := cut_rest happ (utf8Size_append s.left s.token)
      (mt List.append_eq_nil_iff.1 fun h => htoken h.2)
    refine .inr ⟨s, rfl, hl, hr, ?_⟩
    simp only [operands?, hs, hleft, hright]
    rfl

def inputText (spelling before behind cs : List Char) : Except QueryError (List Char) :=
  if behind.head? != some '(' then fail (.missingInput (String.ofList spelling)) cs
  else
    match enclosed? (Nesting.start.run before) behind with
    | none => fail .openParentheses cs
    | some (input, trailing) =>
      if (trim trailing).isEmpty then .ok input
      else fail (.textAfterInput (String.ofList spelling)) (trim trailing)

theorem map_input (spelling : List Char) {before behind : List Char} (h : cs = before ++ behind)
    (hne : before ≠ []) (hs : utf8Size before = start) :
    (input spelling cs start).map Subtype.val =
      (inputText spelling before behind cs).mapError .refused := by
  obtain ⟨hl, hcut⟩ := cut_rest h hs hne
  simp only [input, inputText, hcut, bind, Except.bind]
  split
  · rfl
  rw [← hs, matchingParen?_eq h]
  cases he : enclosed? (Nesting.start.run before) behind with
  | none => rfl
  | some parts =>
    obtain ⟨inside, trailing⟩ := parts
    have hbehind := exists_of_enclosed? he
    have htrailing : cs = (before ++ '(' :: inside ++ [')']) ++ trailing := by
      rw [h, hbehind]
      simp
    have hinside : cs = (before ++ ['(']) ++ inside ++ ')' :: trailing := by
      rw [h, hbehind]
      simp
    have hopen : '('.utf8Size = 1 := rfl
    have hclose : ')'.utf8Size = 1 := rfl
    have hstop : utf8Size (before ++ '(' :: inside ++ [')']) =
        utf8Size before + 1 + utf8Size inside + 1 := by
      simp only [utf8Size_append, utf8Size]
      omega
    have hstart : utf8Size (before ++ ['(']) = utf8Size before + 1 := by
      simp only [utf8Size_append, utf8Size]
      omega
    obtain ⟨hl₁, hcut₁⟩ := cut_rest htrailing hstop (by simp)
    obtain ⟨hl₂, hcut₂⟩ := cut_eq _ _ hinside hstart rfl (.inl (by simp))
    simp only [Option.map_some, hcut₁, hcut₂]
    cases (trim trailing).isEmpty with
    | false => rfl
    | true => rfl

section Application

variable {spelling between argument rest : List Char} (op : UnaryOp)

theorem application_unopened (hcs : cs = spelling ++ rest) (h : '[' ∉ rest) :
    Expr.application spelling op cs = fail (.missingArgument (String.ofList spelling)) cs := by
  have hd : (cs.drop spelling.length).dropWhile (· != '[') = [] := by
    rw [hcs, List.drop_left, List.dropWhile_eq_nil_iff]
    exact forall_bne h
  simp only [Expr.application, hd]

theorem application_unclosed (hcs : cs = spelling ++ between ++ '[' :: rest) (hb : '[' ∉ between)
    (h : ']' ∉ rest) :
    Expr.application spelling op cs =
      if !(trim between).isEmpty then fail (.textBeforeArgument (String.ofList spelling)) cs
      else fail (.openArgument (String.ofList spelling)) cs := by
  have hdrop : cs.drop spelling.length = between ++ '[' :: rest := by
    rw [hcs, List.append_assoc, List.drop_left]
  have hd : rest.dropWhile (· != ']') = [] := List.dropWhile_eq_nil_iff.2 (forall_bne h)
  simp only [Expr.application, hdrop]
  rw [dropWhile_span (forall_bne hb) (by simp), takeWhile_span (forall_bne hb) (by simp)]
  simp only [hd]

theorem application_closed {behind : List Char}
    (hcs : cs = (spelling ++ between ++ '[' :: argument ++ [']']) ++ behind) (hb : '[' ∉ between)
    (ha : ']' ∉ argument) :
    Expr.application spelling op cs =
      if !(trim between).isEmpty then fail (.textBeforeArgument (String.ofList spelling)) cs
      else (inputText spelling (spelling ++ between ++ '[' :: argument ++ [']']) behind cs).map
        fun input => ⟨op, trim argument, input⟩ := by
  have hdrop : cs.drop spelling.length = between ++ '[' :: (argument ++ ']' :: behind) := by
    rw [hcs]
    simp
  simp only [Expr.application, hdrop]
  rw [dropWhile_span (forall_bne hb) (by simp), takeWhile_span (forall_bne hb) (by simp)]
  dsimp only
  rw [dropWhile_span (forall_bne ha) (by simp), takeWhile_span (forall_bne ha) (by simp)]
  dsimp only [inputText]
  split
  · rfl
  split
  · rfl
  cases enclosed? _ behind with
  | none => rfl
  | some parts =>
    dsimp only
    split
    · rfl
    · rfl

theorem map_application (hp : spelling <+: cs) (hne : spelling ≠ []) (hb : '[' ∉ spelling) :
    (application spelling cs).map (fun a => (⟨op, a.1, a.2.1⟩ : Application)) =
      (Expr.application spelling op cs).mapError .refused := by
  obtain ⟨tail, ht⟩ := hp
  by_cases hopen : '[' ∉ tail
  · have hno : '[' ∉ cs := by
      rw [← ht, List.mem_append, not_or]
      exact ⟨hb, hopen⟩
    rw [application_unopened op ht.symm hopen]
    simp only [application, offsetOf?_eq_none hno]
    rfl
  obtain ⟨between, rest, rfl, hbetween⟩ := List.eq_append_cons_of_mem (not_not.1 hopen)
  have hcs : cs = (spelling ++ between) ++ '[' :: rest := by
    rw [List.append_assoc, ht]
  have hlead : spelling ++ between ≠ [] := mt List.append_eq_nil_iff.1 fun h => hne h.1
  have hstart : offsetOf? '[' cs = some (utf8Size (spelling ++ between)) := by
    rw [hcs]
    exact offsetOf?_append (by simp [hb, hbetween]) rest
  obtain ⟨hl₁, hcut₁⟩ := cut_eq _ _ hcs rfl (utf8Size_append spelling between).symm (.inl hne)
  obtain ⟨hl₂, hcut₂⟩ := cut_rest hcs rfl hlead
  simp only [application, hstart, hcut₁, bind, Except.bind]
  by_cases hclose : ']' ∉ rest
  · have hno : ']' ∉ '[' :: rest := by simpa using hclose
    rw [application_unclosed op hcs hbetween hclose]
    split
    · rfl
    · simp only [hcut₂, offsetOf?_eq_none hno]
      rfl
  obtain ⟨argument, behind, rfl, hargument⟩ := List.eq_append_cons_of_mem (not_not.1 hclose)
  have hsize : offsetOf? ']' ('[' :: (argument ++ ']' :: behind)) =
      some (utf8Size ('[' :: argument)) :=
    @offsetOf?_append ']' ('[' :: argument) (by simpa using hargument) behind
  have hleft : cs = (spelling ++ between ++ ['[']) ++ argument ++ ']' :: behind := by
    rw [hcs]
    simp
  have hright : cs = (spelling ++ between ++ '[' :: argument ++ [']']) ++ behind := by
    rw [hcs]
    simp
  have hbracket : '['.utf8Size = 1 := rfl
  have hfrom : utf8Size (spelling ++ between ++ ['[']) = utf8Size (spelling ++ between) + 1 := by
    rw [utf8Size_append _ ['[']]
    rfl
  have hto : utf8Size (spelling ++ between) + 1 + utf8Size argument =
      utf8Size (spelling ++ between) + utf8Size ('[' :: argument) := by
    rw [utf8Size_cons, hbracket, Nat.add_assoc]
  have hend : utf8Size (spelling ++ between ++ '[' :: argument ++ [']']) =
      utf8Size (spelling ++ between) + utf8Size ('[' :: argument) + 1 := by
    rw [utf8Size_append _ [']'], utf8Size_append]
    rfl
  obtain ⟨hl₃, hcut₃⟩ := cut_eq _ _ hleft hfrom hto (.inl (by simp))
  have hin := map_input spelling hright (by simp) hend
  rw [application_closed op hright hbetween hargument]
  split
  · rfl
  simp only [hcut₂, hsize, hcut₃]
  rw [mapError_map, ← hin]
  cases input spelling cs _ with
  | error stop => rfl
  | ok part => rfl

end Application

theorem map_group? (cs : List Char) :
    (group? cs).map (Option.map Subtype.val) = (Expr.group? cs).mapError .refused := by
  by_cases hhead : cs.head? ≠ some '('
  · simp only [group?, Expr.group?, if_neg hhead]
    rfl
  rw [not_not] at hhead
  have hm : matchingParen? cs 0 = (enclosed? .start cs).map fun p => 1 + utf8Size p.1 := by
    have hm := @matchingParen?_eq cs [] cs rfl
    simp only [utf8Size, Nat.zero_add] at hm
    exact hm
  simp only [group?, Expr.group?, if_pos hhead, hm]
  cases he : enclosed? .start cs with
  | none => rfl
  | some parts =>
    obtain ⟨inside, behind⟩ := parts
    have hparts : cs = ['('] ++ inside ++ ')' :: behind := exists_of_enclosed? he
    have hopen : '('.utf8Size = 1 := rfl
    have hclose : ')'.utf8Size = 1 := rfl
    have hsize : utf8Size cs = 1 + utf8Size inside + 1 + utf8Size behind := by
      simp only [hparts, utf8Size_append, utf8Size]
      omega
    have hlast : lastOffset cs = .ok (1 + utf8Size inside + utf8Size behind) := by
      rw [lastOffset, if_neg (by omega), hsize]
      congr 1
      omega
    simp only [Option.map_some, hlast, bind, Except.bind]
    cases behind with
    | nil =>
      have hstart : utf8Size ['('] = 1 := rfl
      obtain ⟨hl, hcut⟩ := cut_eq _ _ hparts hstart rfl (.inl (List.cons_ne_nil _ _))
      simp only [utf8Size, Nat.add_zero, if_true, hcut]
      rfl
    | cons c behind =>
      have hne := mt utf8Size_eq_zero_iff.1 (List.cons_ne_nil c behind)
      rw [if_neg (by omega)]
      rfl

/-- At each depth the outcome is that of the parser on texts with as many levels left. -/
theorem expression_eq (limit levels depth : Nat) (h : levels + depth = limit + 1)
    (text : List Char) :
    expression limit depth text = (parseLevels limit levels text).mapError .refused := by
  induction levels generalizing depth text with
  | zero =>
    rw [expression, if_pos (by omega)]
    rfl
  | succ levels ih =>
    rw [expression, if_neg (by omega)]
    have hnext := ih (depth + 1) (by omega)
    simp only [parseLevels]
    split
    · rfl
    rcases operands?_eq (trim text) with ⟨ho, hs⟩ | ⟨s, hs, hl, hr, ho⟩
    · simp only [hs]
      rw [bind_of_ok ho]
      dsimp only
      cases hu : unaryOp? (trim text) with
      | some found =>
        obtain ⟨spelling, op⟩ := found
        have hm := List.mem_of_find?_eq_some hu
        have hp := List.find?_some hu
        rw [Bool.and_eq_true, List.isPrefixOf_iff_prefix] at hp
        have hopen : '[' ∉ spelling := fun hc => (ungrouped_spellings _ hm _ hc).2.2.1 rfl
        dsimp only
        rw [mapError_bind, ← map_application op hp.1 (unary_ne_nil _ hm) hopen, bind_map]
        simp only [hnext, mapError_bind]
      | none =>
        dsimp only
        rw [mapError_bind, ← map_group?, bind_map]
        congr 1
        funext inside
        cases inside with
        | some part => exact hnext part.1
        | none =>
          dsimp only [Option.map_none]
          split
          · rfl
          · rfl
    · simp only [hs, ho]
      split
      · rfl
      · simp only [mapError_bind, ← hnext]
        rfl

end Agreement

theorem inPlace_of_cut {start stop : Nat} {part : Part cs} (h : cut cs start stop = .ok part) :
    slice? cs start stop = some part.1 ∧ (start ≤ stop ∧ stop ≤ utf8Size cs) ∧
      (Boundary cs start ∧ Boundary cs stop) ∧ utf8Size part.1 < utf8Size cs := by
  obtain ⟨part, hl⟩ := part
  have hs : slice? cs start stop = some part := by
    rw [cut] at h
    split at h
    · cases h
    · rename_i part' hs
      split at h
      · cases h
        exact hs
      · cases h
  obtain ⟨before, behind, hcs, rfl, rfl⟩ := slice?_eq_some_iff.1 hs
  have hsize : utf8Size cs = utf8Size before + utf8Size part + utf8Size behind := by
    rw [hcs, utf8Size_append, utf8Size_append]
  refine ⟨hs, ⟨Nat.le_add_right _ _, by omega⟩, ⟨⟨before, part ++ behind, ?_, rfl⟩,
    ⟨before ++ part, behind, hcs, utf8Size_append before part⟩⟩, ?_⟩
  · rw [hcs, List.append_assoc]
  · have hne : ¬(utf8Size before = 0 ∧ utf8Size behind = 0) := by
      rw [utf8Size_eq_zero_iff, utf8Size_eq_zero_iff]
      rintro ⟨rfl, rfl⟩
      rw [hcs, List.nil_append, List.append_nil] at hl
      exact Nat.lt_irrefl _ hl
    dsimp only
    omega

end Sliced

section Levels

variable {limit levels : Nat}

/-- Every text that the parser goes on with is shorter, so it needs no more levels than the text has
characters, and one. -/
theorem parseLevels_succ (h : cs.length < levels) :
    parseLevels limit (levels + 1) cs = parseLevels limit levels cs := by
  induction levels generalizing cs with
  | zero => exact absurd h (Nat.not_lt_zero _)
  | succ levels ih =>
    have hle := length_trim_le cs
    conv => lhs; rw [parseLevels]
    conv => rhs; rw [parseLevels]
    split
    · rfl
    cases hs : split? (trim cs) with
    | some s =>
      have hlen := congrArg List.length (append_of_splitFrom hs)
      have htoken := List.length_pos_iff.2 (binary_ne_nil _ (split_of_splitFrom hs).2)
      simp only [List.length_append] at hlen htoken
      dsimp only
      rw [@ih s.left (by omega), @ih s.right (by omega)]
    | none =>
      cases hu : unaryOp? (trim cs) with
      | some found =>
        refine bind_congr_ok fun a ha => ?_
        obtain ⟨lead, argument, trailing, happ⟩ := exists_applies hu ha
        have hlen := congrArg List.length happ.text
        simp only [List.length_append, List.length_cons] at hlen
        rw [@ih a.input (by omega)]
      | none =>
        refine bind_congr_ok fun inside hg => ?_
        cases inside with
        | none => rfl
        | some inside =>
          have hlen := congrArg List.length (exists_of_enclosed? (enclosed?_of_group? hg))
          simp only [List.length_append, List.length_cons] at hlen
          exact ih (by omega)

theorem parseLevels_of_lt (h : cs.length < levels) :
    parseLevels limit levels cs = parseLevels limit (cs.length + 1) cs := by
  obtain ⟨k, rfl⟩ := Nat.exists_eq_add_of_le h
  induction k with
  | zero => rfl
  | succ k ih => rw [← Nat.add_assoc, parseLevels_succ (by omega), ih (by omega)]

end Levels

/-- No part that the parser takes of a text is out of place. A binary operator is found at the least
offset at which one stands outside of everything, spelled up to the second one; the search for a
closing parenthesis goes from a `(` to a `)` behind it. With every part cut out by offsets, where
one fails that is not between two boundaries in order or not smaller than its text, the parser has
the outcome that it has on texts. And its recursion ends under every limit, since it never needs
more levels than the text has characters, and one. -/
theorem slices_in_place (limit : Nat) (cs : List Char) :
    (∀ s, split? cs = some s → OperatorAt cs s.op s.start s.stop ∧
      ∀ op start stop, OperatorAt cs op start stop → s.start ≤ start) ∧
    (∀ opening closing, Boundary cs opening → matchingParen? cs opening = some closing →
      opening < closing ∧ CharAt cs opening '(' ∧ CharAt cs closing ')') ∧
    (∀ text start stop part, Sliced.cut text start stop = .ok part →
      slice? text start stop = some part.1 ∧ (start ≤ stop ∧ stop ≤ utf8Size text) ∧
        (Boundary text start ∧ Boundary text stop) ∧ utf8Size part.1 < utf8Size text) ∧
    Sliced.parse limit cs = (parse limit cs).mapError .refused ∧
    ∀ levels, cs.length < levels →
      parseLevels limit levels cs = parseLevels limit (cs.length + 1) cs :=
  ⟨fun _ h => ⟨operatorAt_of_split? h, fun _ _ _ => start_le_of_operatorAt h⟩,
    fun _ _ => charAt_of_matchingParen?, fun _ _ _ _ => Sliced.inPlace_of_cut,
    Sliced.expression_eq limit limit 1 rfl cs, fun _ => parseLevels_of_lt⟩

-- Characters of two and three bytes in front of the operator and in it.
example : (split? "σ[a = 'é'](R) ∪ S".toList).map (fun s => (s.start, s.stop)) = some (15, 20) := by
  decide +kernel

end RelAlg.Expr
