import RelAlg.Proofs.Expr.Argument
import RelAlg.Proofs.Text.Words

set_option autoImplicit false

namespace RelAlg

def UnaryOp.sign : UnaryOp → Char
  | select => 'σ'
  | project => 'π'
  | rename => 'ρ'

namespace Expr

open Nesting Text

def need : Expr → Nat
  | relation _ => 1
  | select _ e => e.need + 1
  | project _ e => e.need + 1
  | rename _ e => e.need + 1
  | binary _ l r =>
    max (l.need + if l.isBinary then 1 else 0) (r.need + if r.isBinary then 1 else 0) + 1

/-- Names and conditions that can be told from what stands around them. -/
def Printable : Expr → Prop
  | relation name =>
    name.toList ≠ [] ∧ Ungrouped name.toList ∧ ∀ c ∈ name.toList, isBlank c = false
  | select c e => trim c.text.toList = c.text.toList ∧ ']' ∉ c.text.toList ∧ e.Printable
  | project names e =>
    names ≠ [] ∧ (∀ n ∈ names, Framed n.toList ∧ Ungrouped n.toList ∧ ',' ∉ n.toList) ∧ e.Printable
  | rename name e => Framed name.toList ∧ Ungrouped name.toList ∧ e.Printable
  | binary _ l r => l.Printable ∧ r.Printable

def conditions : Expr → List Condition
  | relation _ => []
  | select c e => c :: e.conditions
  | project _ e => e.conditions
  | rename _ e => e.conditions
  | binary _ l r => l.conditions ++ r.conditions

section Parse

variable {limit levels : Nat} {cs argument input : List Char}

theorem ungrouped_sign (op : UnaryOp) : Ungrouped [op.sign] := by
  cases op <;> simp [Ungrouped, UnaryOp.sign]

theorem framed_sign (op : UnaryOp) : Framed [op.sign] := by
  cases op <;> exact framed_singleton (by decide)

theorem framed_applied (op : UnaryOp) (argument input : List Char) :
    Framed (applied op.sign argument input) := by
  have hc : Framed [')'] := framed_singleton (by decide)
  exact framed_append (framed_sign op) hc ('[' :: argument ++ ']' :: '(' :: input)

theorem framed_paren (cs : List Char) : Framed ('(' :: cs ++ [')']) := by
  have ho : Framed ['('] := framed_singleton (by decide)
  have hc : Framed [')'] := framed_singleton (by decide)
  exact framed_append ho hc cs

theorem unaryOp?_applied (op : UnaryOp) (argument input : List Char) :
    unaryOp? (applied op.sign argument input) = some ([op.sign], op) := by
  cases op <;> rfl

theorem application_applied (op : UnaryOp) (ha : Argument argument) (hb : ']' ∉ argument)
    (hi : Closed input) :
    application [op.sign] op (applied op.sign argument input) =
      .ok ⟨op, trim argument, input⟩ := by
  have hne : ∀ c ∈ argument, (c != ']') = true := forall_bne hb
  have hhead : ∀ c ∈ (']' :: '(' :: input ++ [')']).head?, (c != ']') = false := by
    intro c hc
    cases hc
    decide
  have hbefore : Nesting.start.run ([op.sign] ++ [] ++ '[' :: argument ++ [']']) = .start := by
    have ht : [op.sign] ++ [] ++ '[' :: argument ++ [']'] =
        op.sign :: '[' :: (argument ++ [']']) := by simp
    rw [ht]
    change Nesting.run ((Nesting.step ⟨0, 0, none⟩ op.sign).step '[') (argument ++ [']']) = _
    rw [step_open 0 op.sign (ungrouped_sign op op.sign List.mem_cons_self), step_leftBracket]
    exact (ha 0).1
  have hdrop : (applied op.sign argument input).drop 1 =
      '[' :: (argument ++ ']' :: '(' :: (input ++ [')'])) := by
    simp [applied]
  have htake : (argument ++ ']' :: '(' :: (input ++ [')'])).takeWhile (· != ']') = argument :=
    takeWhile_span hne hhead
  have hrest : (argument ++ ']' :: '(' :: (input ++ [')'])).dropWhile (· != ']') =
      ']' :: '(' :: (input ++ [')']) :=
    dropWhile_span hne hhead
  have henclosed : enclosed? .start ('(' :: (input ++ [')'])) = some (input, []) :=
    enclosed?_paren (hi.inner 0) []
  rw [application]
  simp only [List.length_singleton, hdrop]
  rw [List.takeWhile_cons_of_neg (by decide), List.dropWhile_cons_of_neg (by decide)]
  simp only [htake, hrest]
  rw [if_neg (by decide), if_neg (by simp), hbefore, henclosed]
  rfl

theorem split?_of_unsplit {n : Nesting} (h : Runs Unsplit .start cs n) : split? cs = none := by
  have hs : splitFrom .start (cs ++ []) = _ := splitFrom_append h
  rw [List.append_nil] at hs
  exact hs

theorem parseLevels_applied (op : UnaryOp) (ha : Argument argument) (hb : ']' ∉ argument)
    (hi : Closed input) :
    parseLevels limit (levels + 1) (applied op.sign argument input) =
      (parseLevels limit levels input).bind fun e =>
        Application.toExpr ⟨op, trim argument, input⟩ limit (applied op.sign argument input) e := by
  have hblank : op.sign ≠ ' ' := by cases op <;> decide
  have hf := framed_applied op argument input
  have hs := split?_of_unsplit (unsplit_applied (ungrouped_sign op) hblank ha hi)
  simp only [parseLevels, hf.2, if_neg hf.not_isEmpty, hs, unaryOp?_applied,
    application_applied op ha hb hi]
  rfl

theorem parseLevels_paren {b : Int} (h : Inner 0 0 b cs) :
    parseLevels limit (levels + 1) ('(' :: cs ++ [')']) = parseLevels limit levels cs := by
  have hu : unaryOp? ('(' :: cs ++ [')']) = none := rfl
  have hg : group? ('(' :: cs ++ [')']) = .ok (some cs) := by
    have he : enclosed? .start ('(' :: cs ++ [')']) = some (cs, []) := enclosed?_paren h []
    rw [group?, he]
    rfl
  have hf := framed_paren cs
  have hs := split?_of_unsplit (unsplit_paren h)
  simp only [parseLevels, hf.2, if_neg hf.not_isEmpty, hs, hu, hg]
  rfl

theorem char_mem_of_positions {offset : Nat} {n : Nesting} {q : Position}
    (h : q ∈ positionsFrom offset n cs) : q.char ∈ cs := by
  induction cs generalizing offset n with
  | nil => cases h
  | cons c cs ih =>
    rcases List.mem_cons.1 h with rfl | h
    · exact List.mem_cons_self
    · exact List.mem_cons_of_mem c (ih h)

theorem hasGrouping_of_ungrouped (h : Ungrouped cs) : hasGrouping cs = false := by
  rw [hasGrouping, List.any_eq_false]
  intro q hq
  obtain ⟨h₁, h₂, h₃, h₄⟩ := h q.char (char_mem_of_positions hq)
  simp [h₁, h₂, h₃, h₄]

theorem unaryOp?_of_name (hu : Ungrouped cs) (hb : ∀ c ∈ cs, isBlank c = false) :
    unaryOp? cs = none := by
  rw [unaryOp?, List.find?_eq_none]
  intro s _ hs
  rw [Bool.and_eq_true, Option.any_eq_true] at hs
  obtain ⟨-, c, hc, hn⟩ := hs
  have hm : c ∈ cs := List.mem_of_getElem? hc
  have hne : c ≠ ' ' := by
    rintro rfl
    exact absurd (hb ' ' hm) (by decide)
  simp [(hu c hm).2.2.1, hne] at hn

theorem framed_name (hne : cs ≠ []) (hb : ∀ c ∈ cs, isBlank c = false) : Framed cs :=
  ⟨hne, trim_eq_self_iff.2
    ⟨fun c hc => hb c (List.mem_of_head? hc), fun c hc => hb c (List.mem_of_getLast? hc)⟩⟩

theorem unsplit_name (hu : Ungrouped cs) (hb : ∀ c ∈ cs, isBlank c = false) :
    Runs Unsplit .start cs .start := by
  refine ⟨(closed_of_ungrouped hu 0).1, along_of_mem fun n c hc _ => ?_⟩
  rintro rfl
  exact absurd (hb ' ' hc) (by decide)

theorem parseLevels_ungrouped (hf : Framed cs) (hu : Ungrouped cs) (hs : split? cs = none)
    (ho : unaryOp? cs = none) :
    parseLevels limit (levels + 1) cs = .ok (.relation (String.ofList cs)) := by
  have hg : group? cs = .ok none := by
    have hh : cs.head? ≠ some '(' := fun h => (hu '(' (List.mem_of_head? h)).1 rfl
    rw [group?, if_neg hh]
  simp only [parseLevels, hf.2, if_neg hf.not_isEmpty, hs, ho, hg, bind, Except.bind,
    hasGrouping_of_ungrouped hu]
  rfl

theorem parseLevels_name (hne : cs ≠ []) (hu : Ungrouped cs) (hb : ∀ c ∈ cs, isBlank c = false) :
    parseLevels limit (levels + 1) cs = .ok (.relation (String.ofList cs)) :=
  parseLevels_ungrouped (framed_name hne hb) hu (split?_of_unsplit (unsplit_name hu hb))
    (unaryOp?_of_name hu hb)

theorem parseLevels_binary {op : BinaryOp} {left right : List Char} (hl : Framed left)
    (hr : Framed right) (hu : Runs Unsplit .start left .start) :
    parseLevels limit (levels + 1) (left ++ ' ' :: op.symbol :: ' ' :: right) =
      (parseLevels limit levels left).bind fun l =>
        (parseLevels limit levels right).bind fun r => .ok (.binary op l r) := by
  have hf : Framed (left ++ ' ' :: op.symbol :: ' ' :: right) := by
    have h := framed_append hl hr [' ', op.symbol, ' ']
    rw [List.append_assoc] at h
    exact h
  have hs : split? (left ++ ' ' :: op.symbol :: ' ' :: right) =
      some ⟨left, [' ', op.symbol, ' '], op, right⟩ := by
    have hop : splitFrom .start (' ' :: op.symbol :: ' ' :: right) =
        some ⟨[], [' ', op.symbol, ' '], op, right⟩ := by
      cases op <;> rfl
    rw [split?, splitFrom_append hu, hop]
    simp
  have hne : ¬(left.isEmpty || right.isEmpty) = true := by simp [hl.1, hr.1]
  simp only [parseLevels, hf.2, if_neg hf.not_isEmpty, hs, hl.2, hr.2, if_neg hne]
  rfl

end Parse

section Text

theorem mem_intercalate {c : Char} {sep : List Char} {parts : List (List Char)}
    (h : c ∈ List.intercalate sep parts) : c ∈ sep ∨ ∃ p ∈ parts, c ∈ p := by
  induction parts with
  | nil => cases h
  | cons part parts ih =>
    cases parts with
    | nil =>
      rw [List.intercalate_singleton] at h
      exact .inr ⟨part, List.mem_cons_self, h⟩
    | cons next parts =>
      rw [List.intercalate_cons_cons] at h
      rcases List.mem_append.1 h with h | h
      · rcases List.mem_append.1 h with h | h
        · exact .inr ⟨part, List.mem_cons_self, h⟩
        · exact .inl h
      · obtain h | ⟨p, hp, hc⟩ := ih h
        · exact .inl h
        · exact .inr ⟨p, List.mem_cons_of_mem _ hp, hc⟩

theorem framed_intercalate {sep : List Char} {parts : List (List Char)} (hne : parts ≠ [])
    (h : ∀ p ∈ parts, Framed p) : Framed (List.intercalate sep parts) := by
  induction parts with
  | nil => exact absurd rfl hne
  | cons part parts ih =>
    have hp := h part List.mem_cons_self
    cases parts with
    | nil =>
      rw [List.intercalate_singleton]
      exact hp
    | cons next parts =>
      rw [List.intercalate_cons_cons]
      exact framed_append hp (ih (List.cons_ne_nil _ _) fun p h' => h p (List.mem_cons_of_mem _ h'))
        sep

def labels (names : List String) : List Char :=
  List.intercalate [',', ' '] (names.map String.toList)

variable {names : List String}

theorem ungrouped_labels (h : ∀ n ∈ names, Ungrouped n.toList) : Ungrouped (labels names) := by
  have hsep : Ungrouped [',', ' '] := by simp [Ungrouped]
  intro c hc
  obtain hc | ⟨p, hp, hc⟩ := mem_intercalate hc
  · exact hsep c hc
  · obtain ⟨n, hn, rfl⟩ := List.mem_map.1 hp
    exact h n hn c hc

theorem framed_labels (hne : names ≠ []) (h : ∀ n ∈ names, Framed n.toList) :
    Framed (labels names) := by
  refine framed_intercalate (by simpa using hne) fun p hp => ?_
  obtain ⟨n, hn, rfl⟩ := List.mem_map.1 hp
  exact h n hn

theorem mapM_nonempty {cs : List Char} {parts : List (List Char)} (h : ∀ n ∈ names, n.toList ≠ [])
    (hp : parts.map trim = names.map String.toList) :
    (parts.mapM fun part =>
      let part := trim part
      if part.isEmpty then fail .emptyAttribute cs else .ok (String.ofList part)) =
      (.ok names : Except QueryError (List String)) := by
  induction parts generalizing names with
  | nil =>
    cases names with
    | nil => rfl
    | cons n names => cases hp
  | cons part parts ih =>
    cases names with
    | nil => cases hp
    | cons n names =>
      obtain ⟨hn, hp⟩ := List.cons.inj hp
      have hr := ih (fun m hm => h m (List.mem_cons_of_mem _ hm)) hp
      have hne : n.toList.isEmpty = false := by
        rw [List.isEmpty_eq_false_iff]
        exact h n List.mem_cons_self
      rw [List.mapM_cons, hr]
      simp only [hn, hne, String.ofList_toList]
      rfl

theorem attributeNames_labels (hne : names ≠ [])
    (h : ∀ n ∈ names, Framed n.toList ∧ ',' ∉ n.toList) (cs : List Char) :
    attributeNames (labels names) cs = .ok names := by
  have hl : (labels names).isEmpty = false := by
    rw [List.isEmpty_eq_false_iff]
    exact (framed_labels hne fun n hn => (h n hn).1).1
  rw [attributeNames, hl, if_neg Bool.false_ne_true]
  refine mapM_nonempty (fun n hn => (h n hn).1.1) ?_
  refine (listed_intercalate (names.map String.toList)).splitOn (by simpa using hne) ?_
  exact List.forall_mem_map.2 fun n hn => ⟨(h n hn).1.2, (h n hn).2⟩

end Text

variable {limit levels : Nat} {e : Expr}

theorem argument_of_label {cs : List Char} (h : Ungrouped cs) : Argument cs ∧ ']' ∉ cs :=
  ⟨argument_of_ungrouped h, fun hm => (h ']' hm).2.2.2 rfl⟩

theorem closed_group (b : Bool) {cs : List Char} (h : Closed cs) : Closed (group b cs) := by
  cases b
  · exact h
  · exact h.paren

theorem framed_group (b : Bool) {cs : List Char} (h : Framed cs) : Framed (group b cs) := by
  cases b
  · exact h
  · exact framed_paren cs

theorem ungrouped_symbol (op : BinaryOp) : Ungrouped [' ', op.symbol, ' '] := by
  cases op <;> simp [Ungrouped, BinaryOp.symbol]

/-- What is written for a tree may stand between parentheses. -/
theorem closed_toChars (hp : e.Printable)
    (hc : ∀ c ∈ e.conditions, Condition.parsePredicate limit c.text.toList = .ok c.predicate) :
    Closed e.toChars := by
  induction e with
  | relation name => exact closed_of_ungrouped hp.2.1
  | select c e ih =>
    have ha := argument_of_condition (hc c List.mem_cons_self) hp.2.1
    exact closed_applied (ungrouped_sign .select) ha
      (ih hp.2.2 fun d hd => hc d (List.mem_cons_of_mem _ hd))
  | project names e ih =>
    have ha := argument_of_label (ungrouped_labels fun n hn => (hp.2.1 n hn).2.1)
    exact closed_applied (ungrouped_sign .project) ha.1 (ih hp.2.2 hc)
  | rename name e ih =>
    have ha := argument_of_label hp.2.1
    exact closed_applied (ungrouped_sign .rename) ha.1 (ih hp.2.2 hc)
  | binary op l r ihl ihr =>
    have hl := ihl hp.1 fun c h => hc c (List.mem_append_left _ h)
    have hr := ihr hp.2 fun c h => hc c (List.mem_append_right _ h)
    have hop := closed_of_ungrouped (ungrouped_symbol op)
    have h := ((closed_group l.isBinary hl).append hop).append (closed_group r.isBinary hr)
    rw [List.append_assoc] at h
    exact h

theorem framed_toChars (hp : e.Printable) : Framed e.toChars := by
  induction e with
  | relation name => exact framed_name hp.1 hp.2.2
  | select c e ih => exact framed_applied .select _ _
  | project names e ih => exact framed_applied .project _ _
  | rename name e ih => exact framed_applied .rename _ _
  | binary op l r ihl ihr =>
    have hl := framed_group l.isBinary (ihl hp.1)
    have hr := framed_group r.isBinary (ihr hp.2)
    have h := framed_append hl hr [' ', op.symbol, ' ']
    rw [List.append_assoc] at h
    exact h

/-- An operand has no operator outside of everything. -/
theorem unsplit_operand (hp : e.Printable)
    (hc : ∀ c ∈ e.conditions, Condition.parsePredicate limit c.text.toList = .ok c.predicate) :
    Runs Unsplit .start (group e.isBinary e.toChars) .start := by
  cases e with
  | relation name => exact unsplit_name hp.2.1 hp.2.2
  | select c e =>
    have ha := argument_of_condition (hc c List.mem_cons_self) hp.2.1
    exact unsplit_applied (ungrouped_sign .select) (by decide) ha
      (closed_toChars hp.2.2 fun d hd => hc d (List.mem_cons_of_mem _ hd))
  | project names e =>
    have ha := argument_of_label (ungrouped_labels fun n hn => (hp.2.1 n hn).2.1)
    exact unsplit_applied (ungrouped_sign .project) (by decide) ha.1 (closed_toChars hp.2.2 hc)
  | rename name e =>
    have ha := argument_of_label hp.2.1
    exact unsplit_applied (ungrouped_sign .rename) (by decide) ha.1 (closed_toChars hp.2.2 hc)
  | binary op l r => exact unsplit_paren ((closed_toChars hp hc).inner 0)

/-- The outcome of reading under a limit what needs some levels. -/
def within (limit levels need : Nat) (e : Expr) : Except QueryError Expr :=
  if need ≤ levels then .ok e else .error (.nestingTooDeep limit)

theorem parseLevels_operand (hp : e.Printable)
    (hc : ∀ c ∈ e.conditions, Condition.parsePredicate limit c.text.toList = .ok c.predicate)
    (ih : ∀ levels, parseLevels limit levels e.toChars = within limit levels e.need e) :
    parseLevels limit levels (group e.isBinary e.toChars) =
      within limit levels (e.need + if e.isBinary then 1 else 0) e := by
  cases hb : e.isBinary with
  | false => exact ih levels
  | true =>
    cases levels with
    | zero => rfl
    | succ levels =>
      rw [group, if_pos rfl, parseLevels_paren ((closed_toChars hp hc).inner 0), ih, within, within]
      simp

theorem within_bind {need : Nat} {f : Expr → Except QueryError Expr} {e' : Expr}
    (h : f e = .ok e') :
    (within limit levels need e).bind f = within limit (levels + 1) (need + 1) e' := by
  rw [within, within]
  by_cases hn : need ≤ levels
  · rw [if_pos hn, if_pos (Nat.succ_le_succ hn)]
    exact h
  · rw [if_neg hn, if_neg fun h => hn (Nat.le_of_succ_le_succ h)]
    rfl

theorem within_bind_bind {m n : Nat} {l r : Expr} (f : Expr → Expr → Expr) :
    ((within limit levels m l).bind fun x => (within limit levels n r).bind fun y => .ok (f x y)) =
      within limit (levels + 1) (max m n + 1) (f l r) := by
  simp only [within, Nat.succ_le_succ_iff, Nat.max_le]
  by_cases hm : m ≤ levels <;> by_cases hn : n ≤ levels <;> simp [hm, hn, Except.bind]

theorem parseLevels_unary (op : UnaryOp) {argument : List Char} {e' : Expr}
    (ha : Argument argument) (hb : ']' ∉ argument) (ht : trim argument = argument)
    (hi : Closed e.toChars)
    (ih : ∀ levels, parseLevels limit levels e.toChars = within limit levels e.need e)
    (hx : ∀ cs, Application.toExpr ⟨op, argument, e.toChars⟩ limit cs e = .ok e') (levels : Nat) :
    parseLevels limit levels (applied op.sign argument e.toChars) =
      within limit levels (e.need + 1) e' := by
  cases levels with
  | zero => rfl
  | succ levels =>
    -- the input is read before the argument, so a limit that is too low for it shows first
    rw [parseLevels_applied op ha hb hi, ih, ht]
    exact within_bind (hx _)

theorem parseLevels_toChars (hp : e.Printable)
    (hc : ∀ c ∈ e.conditions, Condition.parsePredicate limit c.text.toList = .ok c.predicate)
    (levels : Nat) : parseLevels limit levels e.toChars = within limit levels e.need e := by
  induction e generalizing levels with
  | relation name =>
    cases levels with
    | zero => rfl
    | succ levels =>
      change parseLevels limit (levels + 1) name.toList = _
      rw [parseLevels_name hp.1 hp.2.1 hp.2.2, String.ofList_toList, within, need,
        if_pos (Nat.succ_le_succ (Nat.zero_le levels))]
  | select c e ih =>
    have hce : ∀ d ∈ e.conditions,
        Condition.parsePredicate limit d.text.toList = .ok d.predicate :=
      fun d hd => hc d (List.mem_cons_of_mem _ hd)
    have hcc := hc c List.mem_cons_self
    have hcond : Condition.parse limit c.text.toList = .ok c := by
      rw [Condition.parse]
      simp only [hp.1, hcc, String.ofList_toList]
      rfl
    refine parseLevels_unary .select (argument_of_condition hcc hp.2.1) hp.2.1 hp.1
      (closed_toChars hp.2.2 hce) (ih hp.2.2 hce) (fun cs => ?_) levels
    simp only [Application.toExpr, hcond]
  | project names e ih =>
    have ha := argument_of_label (ungrouped_labels fun n hn => (hp.2.1 n hn).2.1)
    have hf := framed_labels hp.1 fun n hn => (hp.2.1 n hn).1
    have hn := attributeNames_labels hp.1 fun n hn => ⟨(hp.2.1 n hn).1, (hp.2.1 n hn).2.2⟩
    refine parseLevels_unary .project ha.1 ha.2 hf.2 (closed_toChars hp.2.2 hc) (ih hp.2.2 hc)
      (fun cs => ?_) levels
    simp only [Application.toExpr, hn]
    rfl
  | rename name e ih =>
    have ha := argument_of_label hp.2.1
    have hne : name.toList.isEmpty = false := by
      rw [List.isEmpty_eq_false_iff]
      exact hp.1.1
    refine parseLevels_unary .rename ha.1 ha.2 hp.1.2 (closed_toChars hp.2.2 hc) (ih hp.2.2 hc)
      (fun cs => ?_) levels
    simp only [Application.toExpr, hne, String.ofList_toList]
    rfl
  | binary op l r ihl ihr =>
    cases levels with
    | zero => rfl
    | succ levels =>
      have hcl : ∀ c ∈ l.conditions,
          Condition.parsePredicate limit c.text.toList = .ok c.predicate :=
        fun c h => hc c (List.mem_append_left _ h)
      have hcr : ∀ c ∈ r.conditions,
          Condition.parsePredicate limit c.text.toList = .ok c.predicate :=
        fun c h => hc c (List.mem_append_right _ h)
      change parseLevels limit (levels + 1)
        (group l.isBinary l.toChars ++ ' ' :: op.symbol :: ' ' :: group r.isBinary r.toChars) = _
      rw [parseLevels_binary (framed_group l.isBinary (framed_toChars hp.1))
        (framed_group r.isBinary (framed_toChars hp.2)) (unsplit_operand hp.1 hcl),
        parseLevels_operand hp.1 hcl (ihl hp.1 hcl), parseLevels_operand hp.2 hcr (ihr hp.2 hcr)]
      exact within_bind_bind (.binary op)

/-- A tree is read back from what is written for it, or the limit is too low for it. -/
theorem parse_toChars (limit : Nat) (e : Expr) (hp : e.Printable)
    (hc : ∀ c ∈ e.conditions, Condition.parsePredicate limit c.text.toList = .ok c.predicate) :
    parse limit e.toChars =
      if e.need ≤ limit then .ok e else .error (.nestingTooDeep limit) :=
  parseLevels_toChars hp hc limit

/-- `(R - S) ∪ σ[a=' - ('](T)` takes four levels: the operator, the parentheses, the operator in
them and a name. -/
theorem parse_toChars_grouped :
    (binary .union (binary .difference (relation "R") (relation "S"))
      (select ⟨"a=' - ('", .compare .eq (.attr "a") (.literal (.text " - ("))⟩
        (relation "T"))).Printable ∧
    (∀ limit, Condition.parsePredicate (limit + 1) "a=' - ('".toList =
      .ok (.compare .eq (.attr "a") (.literal (.text " - (")))) ∧
    parse 4 "(R - S) ∪ σ[a=' - ('](T)".toList =
      .ok (binary .union (binary .difference (relation "R") (relation "S"))
        (select ⟨"a=' - ('", .compare .eq (.attr "a") (.literal (.text " - ("))⟩
          (relation "T"))) ∧
    parse 3 "(R - S) ∪ σ[a=' - ('](T)".toList = .error (.nestingTooDeep 3) := by
  let d : Condition.Disjunction := .single (.single (.compare (.identifier "a") .eq (.text " - (")))
  let e : Expr := binary .union (binary .difference (relation "R") (relation "S"))
    (select ⟨"a=' - ('", d.predicate⟩ (relation "T"))
  have hp : e.Printable := by
    simp [e, Printable, Ungrouped]
    decide
  have hlex : Condition.lex "a=' - ('".toList = (d.tokens, none) := by
    change Condition.lex ['a', '=', '\'', ' ', '-', ' ', '(', '\''] = _
    have h₁ : Condition.Token.read 'a' ['=', '\'', ' ', '-', ' ', '(', '\''] =
        .ok (.identifier "a", 0) := by
      decide
    have h₂ : Condition.Token.read '=' ['\'', ' ', '-', ' ', '(', '\''] = .ok (.equal, 0) := by
      decide
    have h₃ : Condition.Token.read '\'' [' ', '-', ' ', '(', '\''] = .ok (.text " - (", 5) := by
      decide
    rw [Condition.lex, Condition.lexemes_token (by decide) h₁]
    simp only [List.drop_zero]
    rw [Condition.lexemes_token (by decide) h₂]
    simp only [List.drop_zero]
    rw [Condition.lexemes_token (by decide) h₃]
    simp only [List.drop_succ_cons, List.drop_zero, Condition.lexemes_nil]
    rfl
  have hc : ∀ limit, Condition.parsePredicate (limit + 1) "a=' - ('".toList = .ok d.predicate := by
    intro limit
    exact (Condition.parsePredicate_eq_ok_iff _ _ _).2 ⟨d, hlex, Nat.succ_pos limit, rfl⟩
  have hall : ∀ limit, ∀ c ∈ e.conditions,
      Condition.parsePredicate (limit + 1) c.text.toList = .ok c.predicate := by
    intro limit c h
    rw [List.mem_singleton.1 h]
    exact hc limit
  have ht : e.toChars = "(R - S) ∪ σ[a=' - ('](T)".toList := by decide
  have h₄ := parse_toChars 4 e hp (hall 3)
  have h₃ := parse_toChars 3 e hp (hall 2)
  rw [ht] at h₃ h₄
  exact ⟨hp, hc, h₄, h₃⟩

end Expr

end RelAlg
