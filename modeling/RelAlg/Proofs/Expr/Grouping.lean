import RelAlg.Proofs.Expr.Balance
import RelAlg.Proofs.Expr.Derivation
import RelAlg.Proofs.Expr.Literals
import RelAlg.Proofs.Expr.RoundTrip

set_option autoImplicit false

namespace RelAlg.Expr

open Nesting Text

section Brackets

variable {as bs : List Char}

/-- The last bracket of a text, whether it counts or not. -/
def lastBracket? (cs : List Char) : Option Char :=
  (cs.filter fun c => c = '[' ∨ c = ']').getLast?

theorem lastBracket?_append (as bs : List Char) :
    lastBracket? (as ++ bs) = (lastBracket? bs).or (lastBracket? as) := by
  rw [lastBracket?, List.filter_append, List.getLast?_append]
  rfl

theorem lastBracket?_eq_none (h : ∀ c ∈ as, c ≠ '[' ∧ c ≠ ']') : lastBracket? as = none := by
  rw [lastBracket?, List.getLast?_eq_none_iff, List.filter_eq_nil_iff]
  intro c hc
  simp [h c hc]

theorem lastBracket?_append_ne (ha : lastBracket? as ≠ some '[') (hb : lastBracket? bs ≠ some '[') :
    lastBracket? (as ++ bs) ≠ some '[' := by
  rw [lastBracket?_append]
  cases hl : lastBracket? bs with
  | none => exact ha
  | some c =>
    rw [Option.some_or, ← hl]
    exact hb

theorem lastBracket?_open (as : List Char) (h : ']' ∉ bs) :
    lastBracket? (as ++ '[' :: bs) = some '[' := by
  have hb : ∀ c, lastBracket? bs = some c → c = '[' := by
    intro c hc
    have hm := List.mem_filter.1 (List.mem_of_getLast? hc)
    rcases of_decide_eq_true hm.2 with rfl | rfl
    · rfl
    · exact absurd hm.1 h
  have hcons : lastBracket? ('[' :: bs) = some ((lastBracket? bs).getD '[') := by
    rw [lastBracket?, List.filter_cons_of_pos (by decide), List.getLast?_cons]
    rfl
  rw [lastBracket?_append, hcons, Option.some_or]
  cases hl : lastBracket? bs with
  | none => rfl
  | some c => rw [hb c hl, Option.getD_some]

end Brackets

structure Applies (cs lead argument trailing : List Char) (a : Application) : Prop where
  text : lead ++ '[' :: argument ++ ']' :: '(' :: a.input ++ ')' :: trailing = cs
  lead_ungrouped : Ungrouped lead
  argument_closed : ']' ∉ argument
  argument_trimmed : a.argument = trim argument
  enclosed : enclosed? (Nesting.start.run (lead ++ '[' :: argument ++ [']']))
    ('(' :: a.input ++ ')' :: trailing) = some (a.input, trailing)
  trailing_blank : ∀ c ∈ trailing, isBlank c = true

theorem ungrouped_of_isBlank {c : Char} (h : isBlank c = true) :
    c ≠ '(' ∧ c ≠ ')' ∧ c ≠ '[' ∧ c ≠ ']' := by
  refine ⟨?_, ?_, ?_, ?_⟩ <;> rintro rfl <;> revert h <;> decide

theorem ungrouped_spellings : ∀ s ∈ UnaryOp.spellings, Ungrouped s.1 := by
  simp [UnaryOp.spellings, Ungrouped]

theorem exists_applies {cs spelling : List Char} {op : UnaryOp} {a : Application}
    (hu : unaryOp? cs = some (spelling, op)) (h : application spelling op cs = .ok a) :
    ∃ lead argument trailing, Applies cs lead argument trailing a := by
  have hm := List.mem_of_find?_eq_some hu
  have hp := List.find?_some hu
  rw [Bool.and_eq_true, List.isPrefixOf_iff_prefix] at hp
  obtain ⟨tail, rfl⟩ := hp.1
  simp only [application, List.drop_left] at h
  cases hd : tail.dropWhile (· != '[') with
  | nil =>
    rw [hd] at h
    cases h
  | cons bracket rest =>
    obtain ⟨rfl, -, htail⟩ := cut_at hd
    simp only [hd] at h
    split at h
    · cases h
    rename_i hbetween
    cases hd' : rest.dropWhile (· != ']') with
    | nil =>
      rw [hd'] at h
      cases h
    | cons close behind =>
      obtain ⟨rfl, hclosed, hrest⟩ := cut_at hd'
      simp only [hd'] at h
      split at h
      · cases h
      rename_i hopen
      split at h
      · cases h
      rename_i input trailing henc
      split at h
      · rename_i ht
        cases h
        have hlead : ∀ c ∈ tail.takeWhile (· != '['), isBlank c = true :=
          isBlank_of_trim_eq_nil (by simpa using hbetween)
        obtain ⟨more, rfl⟩ : ∃ more, behind = '(' :: more := by
          rw [bne_iff_ne, not_not] at hopen
          exact List.head?_eq_some_iff.1 hopen
        have hmore : input ++ ')' :: trailing = more := append_of_closeParen henc
        subst hmore
        refine ⟨_, _, trailing, ⟨?_, fun c hc => ?_, hclosed, rfl, henc,
          isBlank_of_trim_eq_nil (List.isEmpty_iff.1 ht)⟩⟩
        · simp [hrest, htail]
        · rcases List.mem_append.1 hc with hc | hc
          · exact ungrouped_spellings _ hm c hc
          · exact ungrouped_of_isBlank (hlead c hc)
      · cases h

theorem runs_blank {cs : List Char} (h : ∀ c ∈ cs, isBlank c = true) (p b : Int) :
    Runs (Above p) ⟨p, b, none⟩ cs ⟨p, b, none⟩ := by
  induction cs with
  | nil => exact .nil
  | cons c cs ih =>
    have hc := h c List.mem_cons_self
    have hr := ih fun d hd => h d (List.mem_cons_of_mem _ hd)
    exact .cons (above_of_ne p b none (ungrouped_of_isBlank hc).2.1)
      (step_plain (plain_of_isBlank hc) p b) hr

theorem Applies.runs_lead {cs lead argument trailing : List Char} {a : Application}
    (h : Applies cs lead argument trailing a) :
    Runs (Above 0) .start (lead ++ ['[']) ⟨0, 1, none⟩ :=
  (closed_of_ungrouped h.lead_ungrouped 0).append
    (.cons (above_of_ne 0 0 none (by decide)) (step_leftBracket 0) .nil)

/-- An argument that closes no parenthesis open before it leaves its own ones to the whole text. -/
theorem Applies.runs {cs lead argument trailing : List Char} {a : Application} {k : Nesting}
    (h : Applies cs lead argument trailing a) (hk : Runs (Above 0) ⟨0, 1, none⟩ argument k) :
    ∃ b, Runs (Above 0) .start cs ⟨k.parens, b, none⟩ := by
  have hp : 0 ≤ k.parens := hk.le_parens (Int.le_refl 0)
  have hb : 0 < k.brackets := by
    rw [← hk.1]
    exact brackets_run h.argument_closed Int.one_pos
  have hclose : Runs (Above 0) k [']'] ⟨k.parens, k.brackets - 1, none⟩ :=
    .cons ⟨hp, fun hc => by cases hc⟩ (step_rightBracket k.parens hb k.quote) .nil
  have hopen := (h.runs_lead.append hk).append hclose
  have henc := h.enclosed
  have happ : lead ++ '[' :: argument ++ [']'] = lead ++ ['['] ++ argument ++ [']'] := by simp
  rw [happ, hopen.1] at henc
  obtain ⟨-, b, hi⟩ := inner_of_enclosed? henc
  have hinput := hi.paren.mono fun n c hc => hc.mono hp
  have htrail := (runs_blank h.trailing_blank k.parens b).mono fun n c hc => hc.mono hp
  have hall := (hopen.append hinput).append htrail
  refine ⟨b, ?_⟩
  rw [← h.text]
  simpa using hall

/-- Where the parentheses of an accepted text go: up to its end none closes that was open before, or
the first one that does stands in the argument of an operator. -/
inductive Fits (cs : List Char) : Prop
  | stays {p b : Int} (h : Runs (Above 0) .start cs ⟨p, b, none⟩)
  | dips {u : List Char} {b : Int} (hp : u ++ [')'] <+: cs)
      (h : Runs (Above 0) .start u ⟨0, b, none⟩) (hl : lastBracket? u = some '[')

section Fits

variable {as bs : List Char}

theorem Fits.append (ha : Runs (Above 0) .start as .start) (hb : Fits bs) : Fits (as ++ bs) := by
  cases hb with
  | stays h => exact .stays (ha.append h)
  | dips hp h hl =>
    refine .dips ?_ (ha.append h) ?_
    · rw [List.append_assoc]
      exact (List.prefix_append_right_inj as).2 hp
    · rw [lastBracket?_append, hl]
      rfl

theorem Fits.append_blank (ha : Fits as) (hb : ∀ c ∈ bs, isBlank c = true) : Fits (as ++ bs) := by
  cases ha with
  | @stays p b h =>
    have hp : 0 ≤ p := h.le_parens (Int.le_refl 0)
    exact .stays (h.append ((runs_blank hb p b).mono fun n c hc => hc.mono hp))
  | dips hp h hl => exact .dips (hp.trans (List.prefix_append as bs)) h hl

theorem fits_of_trim (h : Fits (trim as)) : Fits as := by
  obtain ⟨trailing, he, ht⟩ := exists_trim as
  have hlead : Runs (Above 0) .start (as.takeWhile isBlank) .start :=
    runs_blank (fun c hc => List.mem_takeWhile_imp hc) 0 0
  rw [← he]
  exact (Fits.append hlead h).append_blank ht

end Fits

variable {limit levels : Nat} {cs : List Char} {e : Expr}

theorem ungrouped_binary : ∀ s ∈ BinaryOp.spellings, Ungrouped s.1 := by
  simp [BinaryOp.spellings, Ungrouped]

theorem enclosed?_of_group? {inside : List Char} (h : group? cs = .ok (some inside)) :
    enclosed? .start cs = some (inside, []) := by
  rw [group?] at h
  split at h
  · split at h
    · cases h
    · rename_i he
      cases h
      exact he
    · cases h
  · cases h

theorem Derives.fits (h : Derives limit levels cs e) : Fits cs := by
  induction h with
  | @binary _ cs s l r _ hs _ _ _ ihl ihr =>
    refine fits_of_trim ?_
    obtain ⟨hrun, hm⟩ := split_of_splitFrom hs
    rw [← append_of_splitFrom hs]
    cases ihl with
    | stays h =>
      have hl : Runs (Above 0) .start s.left .start := ⟨hrun, h.2⟩
      have hop := closed_of_ungrouped (ungrouped_binary _ hm) 0
      exact Fits.append (hl.append hop) ihr
    | dips hp h hl =>
      rw [List.append_assoc]
      exact .dips (hp.trans (List.prefix_append _ _)) h hl
  | unary _ _ hu ha _ _ _ =>
    refine fits_of_trim ?_
    obtain ⟨lead, argument, trailing, hx⟩ := exists_applies hu ha
    obtain hk | ⟨u, b, hp, hk⟩ := runs_or_dips (n := ⟨0, 1, none⟩) (Int.le_refl 0) argument
    · obtain ⟨b, hr⟩ := hx.runs hk
      exact .stays hr
    · -- the argument ends at its first closing bracket, so there is none before the place
      have hu : ']' ∉ u := fun hm =>
        hx.argument_closed (hp.subset (List.mem_append_left _ hm))
      refine .dips ?_ (hx.runs_lead.append hk) ?_
      · obtain ⟨v, rfl⟩ := hp
        rw [← hx.text]
        simp
      · rw [List.append_assoc]
        exact lastBracket?_open lead hu
  | group _ _ _ hg _ _ =>
    refine fits_of_trim ?_
    obtain ⟨he, b, hi⟩ := inner_of_enclosed? (enclosed?_of_group? hg)
    rw [← he]
    exact .stays hi.paren
  | relation _ _ _ _ hf =>
    refine fits_of_trim ?_
    exact .stays (closed_of_ungrouped (ungrouped_of_hasGrouping hf) 0)

theorem lastBracket?_trim (cs : List Char) : lastBracket? (trim cs) = lastBracket? cs := by
  have hb : ∀ ds : List Char, (∀ c ∈ ds, isBlank c = true) → lastBracket? ds = none :=
    fun ds hd => lastBracket?_eq_none fun c hc => (ungrouped_of_isBlank (hd c hc)).2.2
  obtain ⟨trailing, he, ht⟩ := exists_trim cs
  have hl := hb (cs.takeWhile isBlank) fun c hc => List.mem_takeWhile_imp hc
  rw [← congrArg lastBracket? he, lastBracket?_append, lastBracket?_append, hb trailing ht, hl,
    Option.none_or, Option.or_none]

theorem Derives.lastBracket?_ne (h : Derives limit levels cs e) : lastBracket? cs ≠ some '[' := by
  induction h with
  | @binary _ cs s l r _ hs _ _ _ ihl ihr =>
    have hop := ungrouped_binary _ (split_of_splitFrom hs).2
    rw [← lastBracket?_trim, ← append_of_splitFrom hs]
    refine lastBracket?_append_ne (lastBracket?_append_ne ihl ?_) ihr
    rw [lastBracket?_eq_none fun c hc => (hop c hc).2.2]
    nofun
  | @unary _ cs _ _ a _ _ _ _ hu ha _ _ ih =>
    obtain ⟨lead, argument, trailing, hx⟩ := exists_applies hu ha
    have hopen : lastBracket? (lead ++ '[' :: argument ++ [']', '(']) ≠ some '[' := by
      rw [lastBracket?_append]
      nofun
    have hclose : lastBracket? (')' :: trailing) ≠ some '[' := by
      rw [lastBracket?_eq_none]
      · nofun
      · intro c hc
        rcases List.mem_cons.1 hc with rfl | hc
        · decide
        · exact (ungrouped_of_isBlank (hx.trailing_blank c hc)).2.2
    have hall := lastBracket?_append_ne (lastBracket?_append_ne hopen ih) hclose
    rw [← lastBracket?_trim, ← hx.text]
    simpa using hall
  | @group _ cs inside _ _ _ _ hg _ ih =>
    obtain ⟨he, -⟩ := inner_of_enclosed? (enclosed?_of_group? hg)
    rw [← lastBracket?_trim, ← he]
    have hopen : lastBracket? ['('] ≠ some '[' := by decide
    exact lastBracket?_append_ne (lastBracket?_append_ne hopen ih) (by decide)
  | relation _ _ _ _ hf =>
    have hu := ungrouped_of_hasGrouping hf
    rw [← lastBracket?_trim, lastBracket?_eq_none fun c hc => (hu c hc).2.2]
    nofun

theorem not_derives_of_inner {u : List Char} {b : Int} (hi : Inner 0 0 b u)
    (hl : lastBracket? u = some '[') (h : Derives limit levels cs e) :
    ¬ '(' :: u ++ [')'] <+: cs := by
  intro hp
  induction h with
  | @binary _ cs s l r _ hs _ _ _ ihl _ =>
    refine ihl ?_
    obtain ⟨w, hw⟩ := prefix_trim (framed_paren u) hp
    rw [← hw, split?, splitFrom_append (unsplit_paren hi)] at hs
    obtain ⟨s', -, rfl⟩ := Option.map_eq_some_iff.1 hs
    exact List.prefix_append _ _
  | unary _ _ hu _ _ _ _ =>
    obtain ⟨w, hw⟩ := prefix_trim (framed_paren u) hp
    rw [← hw] at hu
    cases hu
  | group _ _ _ hg hd _ =>
    obtain ⟨w, hw⟩ := prefix_trim (framed_paren u) hp
    have he := enclosed?_of_group? hg
    have hx : '(' :: u ++ [')'] ++ w = '(' :: u ++ ')' :: w := by simp
    rw [← hw, hx] at he
    have hu := enclosed?_paren hi w
    -- what is enclosed is `u`, and it has a bracket open
    cases hu.symm.trans he
    exact hd.lastBracket?_ne hl
  | @relation _ cs _ _ _ _ hf =>
    obtain ⟨w, hw⟩ := prefix_trim (framed_paren u) hp
    have hm : '(' ∈ trim cs := by
      rw [← hw]
      exact List.mem_cons_self
    exact (ungrouped_of_hasGrouping hf '(' hm).1 rfl

theorem not_derives_of_open {p b : Int} (h : Runs (Above 0) .start cs ⟨p, b, none⟩) (hp : 0 < p) :
    ¬Derives limit levels ('(' :: cs ++ [')']) e := by
  have hf := framed_paren cs
  have hr : Runs (Above 1) ⟨1, 0, none⟩ cs ⟨p + 1, b, none⟩ := h.raise 1
  have hs : split? ('(' :: cs ++ [')']) = none := by
    have hin := hr.mono fun n c hc => unsplit_of_above Int.one_pos hc
    have hlast : Runs Unsplit ⟨p + 1, b, none⟩ [')'] ⟨p, b, none⟩ :=
      .cons (fun _ => by decide) (step_rightParen p b) .nil
    exact split?_of_unsplit
      ((Runs.cons (fun _ => by decide) (step_leftParen 0 0) hin).append hlast)
  have he : enclosed? .start ('(' :: cs ++ [')']) = none := by
    have hc : closeParen 0 ⟨1, 0, none⟩ (cs ++ [')']) = none := by
      -- at the last parenthesis more than the first one is open
      have hne : ¬p + 1 = 0 + 1 := by omega
      rw [closeParen_append hr, closeParen, if_neg fun he => hne he.2.2]
      rfl
    exact hc
  have hg : group? ('(' :: cs ++ [')']) = fail .openParentheses ('(' :: cs ++ [')']) := by
    rw [group?, he]
    rfl
  intro hd
  cases levels with
  | zero => cases hd
  | succ levels =>
    have hu : unaryOp? ('(' :: cs ++ [')']) = none := rfl
    have hx := parseLevels_of_derives hd
    simp only [parseLevels, hf.2, if_neg hf.not_isEmpty, hs, hu, hg] at hx
    cases hx

def argumentNames : Expr → List String
  | relation _ => []
  | select _ e => e.argumentNames
  | project names e => names ++ e.argumentNames
  | rename name e => name :: e.argumentNames
  | binary _ l r => l.argumentNames ++ r.argumentNames

theorem runs_unparenthesized {n : Nesting} {level : Int} (ho : '(' ∉ cs) (hc : ')' ∉ cs)
    (hn : level ≤ n.parens) :
    Runs (Above level) n cs (n.run cs) ∧ (n.run cs).parens = n.parens := by
  induction cs generalizing n with
  | nil => exact ⟨.nil, rfl⟩
  | cons c cs ih =>
    rw [List.mem_cons, not_or] at ho hc
    have hs : (n.step c).parens = n.parens := by
      rw [parens_step, if_neg (Ne.symm ho.1), if_neg (Ne.symm hc.1)]
      split <;> exact Int.add_zero _
    obtain ⟨hr, hp⟩ := ih ho.2 hc.2 (hs ▸ hn)
    exact ⟨.cons ⟨hn, fun he => absurd he.symm hc.1⟩ rfl hr, hp.trans hs⟩

theorem mem_names_of_attributeNames {argument : List Char} {names : List String} {c : Char}
    (h : attributeNames argument cs = .ok names) (hc : c ∈ argument) (hb : isBlank c = false)
    (hne : c ≠ ',') : ∃ name ∈ names, c ∈ name.toList := by
  rw [attributeNames] at h
  split at h
  · cases h
  have hparts : List.intercalate [','] (argument.splitOn ',') = argument :=
    List.intercalate_splitOn ','
  rw [← hparts] at hc
  obtain hc | ⟨part, hp, hc⟩ := mem_intercalate hc
  · exact absurd (List.mem_singleton.1 hc) hne
  · obtain ⟨name, hm, hf⟩ := mapM_ok h part hp
    dsimp only at hf
    split at hf
    · cases hf
    · cases hf
      exact ⟨_, hm, by simpa using mem_trim hc hb⟩

theorem mem_argumentNames {a : Application} {input : Expr} {c : Char}
    (hx : a.toExpr limit cs input = .ok e) (ho : a.op ≠ .select) (hc : c ∈ a.argument)
    (hb : isBlank c = false) (hne : c ≠ ',') : ∃ name ∈ e.argumentNames, c ∈ name.toList := by
  obtain ⟨op, argument, text⟩ := a
  cases op with
  | select => exact absurd rfl ho
  | project =>
    obtain ⟨names, hn, hx⟩ := bind_ok hx
    cases hx
    obtain ⟨name, hm, hc⟩ := mem_names_of_attributeNames hn hc hb hne
    exact ⟨name, List.mem_append_left _ hm, hc⟩
  | rename =>
    simp only [Application.toExpr] at hx
    split at hx
    · cases hx
    · cases hx
      exact ⟨_, List.mem_cons_self, by simpa using hc⟩

/-- Only a name can leave a parenthesis open or close one: conditions balance. -/
theorem runs_argument {a : Application} {argument : List Char} {input : Expr}
    (hx : a.toExpr limit cs input = .ok e) (ht : a.argument = trim argument)
    (hb : ']' ∉ argument) (hn : ∀ name ∈ e.argumentNames, '(' ∉ name.toList ∧ ')' ∉ name.toList) :
    ∃ k, Runs (Above 0) ⟨0, 1, none⟩ argument k ∧ k.parens = 0 := by
  by_cases ho : a.op = .select
  · have htrim : Condition.parse limit (trim argument) = Condition.parse limit argument := by
      simp only [Condition.parse, trim_trim]
    rw [Application.toExpr, ho, ht, htrim] at hx
    dsimp only at hx
    split at hx
    · rename_i c hc
      exact ⟨_, (runs_typed hc hb 0).mono fun n c h => h.2, rfl⟩
    · cases hx
  · have hno : ∀ c, isBlank c = false → c ≠ ',' →
        (∀ name ∈ e.argumentNames, c ∉ name.toList) → c ∉ argument := by
      intro c hb hne hn hc
      have hm : c ∈ a.argument := ht ▸ mem_trim hc hb
      obtain ⟨name, hname, hc⟩ := mem_argumentNames hx ho hm hb hne
      exact hn name hname hc
    have hleft := hno '(' (by decide) (by decide) fun name hm => (hn name hm).1
    have hright := hno ')' (by decide) (by decide) fun name hm => (hn name hm).2
    exact ⟨_, runs_unparenthesized hleft hright (Int.le_refl 0)⟩

theorem runs_of_trim {b : Int} (h : Runs (Above 0) .start (trim cs) ⟨0, b, none⟩) :
    Runs (Above 0) .start cs ⟨0, b, none⟩ := by
  obtain ⟨trailing, he, ht⟩ := exists_trim cs
  have hlead : Runs (Above 0) .start (cs.takeWhile isBlank) .start :=
    runs_blank (fun c hc => List.mem_takeWhile_imp hc) 0 0
  have hall := (hlead.append h).append (runs_blank ht 0 b)
  rwa [he] at hall

/-- An accepted text whose names hold no parenthesis is as deep at its end as at its start. -/
theorem Derives.runs (h : Derives limit levels cs e)
    (hn : ∀ name ∈ e.argumentNames, '(' ∉ name.toList ∧ ')' ∉ name.toList) :
    ∃ b, Runs (Above 0) .start cs ⟨0, b, none⟩ := by
  induction h with
  | @binary _ cs s l r _ hs _ _ _ ihl ihr =>
    obtain ⟨_, hl⟩ := ihl fun name hm => hn name (List.mem_append_left _ hm)
    obtain ⟨b, hr⟩ := ihr fun name hm => hn name (List.mem_append_right _ hm)
    obtain ⟨hrun, hm⟩ := split_of_splitFrom hs
    have hleft : Runs (Above 0) .start s.left .start := ⟨hrun, hl.2⟩
    have hop := closed_of_ungrouped (ungrouped_binary _ hm) 0
    refine ⟨b, runs_of_trim ?_⟩
    rw [← append_of_splitFrom hs]
    exact (hleft.append hop).append hr
  | unary _ _ hu ha _ he _ =>
    obtain ⟨lead, argument, trailing, hx⟩ := exists_applies hu ha
    obtain ⟨k, hk, hp⟩ := runs_argument he hx.argument_trimmed hx.argument_closed hn
    obtain ⟨b, hr⟩ := hx.runs hk
    rw [hp] at hr
    exact ⟨b, runs_of_trim hr⟩
  | group _ _ _ hg _ _ =>
    obtain ⟨he, b, hi⟩ := inner_of_enclosed? (enclosed?_of_group? hg)
    refine ⟨b, runs_of_trim ?_⟩
    rw [← he]
    exact hi.paren
  | relation _ _ _ _ hf =>
    exact ⟨0, runs_of_trim (closed_of_ungrouped (ungrouped_of_hasGrouping hf) 0)⟩

/-- A text that is accepted can be put in parentheses exactly if its own ones balance: then the tree
stays the same, and otherwise no limit makes it an expression. They balance unless a name that a
projection or a rename takes has a parenthesis in it. -/
theorem parse_paren {limit : Nat} {cs : List Char} {e : Expr} (h : parse limit cs = .ok e) :
    (Balanced cs → parse (limit + 1) ('(' :: cs ++ [')']) = .ok e) ∧
    (¬Balanced cs → ∀ limit' e', parse limit' ('(' :: cs ++ [')']) ≠ .ok e') ∧
    ((∀ name ∈ e.argumentNames, '(' ∉ name.toList ∧ ')' ∉ name.toList) → Balanced cs) := by
  have hd := derives_of_parseLevels h
  refine ⟨fun hb => ?_, fun hb limit' e' h' => ?_, fun hn => ?_⟩
  · cases hd.fits with
    | @stays p b hr =>
      obtain rfl : p = 0 := by rw [← hb.2, hr.1]
      have hi : Inner 0 0 b cs := hr.raise 1
      exact (parseLevels_paren hi).trans
        (parseLevels_mono h (Nat.le_succ limit) (Nat.le_refl limit))
    | dips hp hr _ =>
      obtain ⟨w, rfl⟩ := hp
      have ha := hb.1
      rw [List.append_assoc] at ha
      have hc := ha.behind
      -- nothing is open where the parenthesis closes
      rw [hr.1] at hc
      exact absurd (hc.1.2 rfl rfl) (Int.lt_irrefl 0)
  · have hd' := derives_of_parseLevels h'
    cases hd.fits with
    | @stays p b hr =>
      have hp : 0 ≤ p := hr.le_parens (Int.le_refl 0)
      have hne : p ≠ 0 := fun he => hb ⟨hr.2, by rw [hr.1, he]⟩
      exact not_derives_of_open hr (by omega) hd'
    | @dips u b hp hr hl =>
      have hi : Inner 0 0 b u := hr.raise 1
      obtain ⟨w, rfl⟩ := hp
      exact not_derives_of_inner hi hl hd' ⟨w ++ [')'], by simp⟩
  · obtain ⟨b, hr⟩ := hd.runs hn
    exact ⟨hr.2, by rw [hr.1]⟩

theorem parse_paren_quoted :
    parse 3 "R - π[\"a)\"](S)".toList =
      .ok (binary .difference (relation "R") (project ["\"a)\""] (relation "S"))) ∧
    Balanced "R - π[\"a)\"](S)".toList ∧
    parse 4 "(R - π[\"a)\"](S))".toList =
      .ok (binary .difference (relation "R") (project ["\"a)\""] (relation "S"))) := by
  have h : parse 3 "R - π[\"a)\"](S)".toList =
      .ok (binary .difference (relation "R") (project ["\"a)\""] (relation "S"))) := rfl
  have hb : Balanced "R - π[\"a)\"](S)".toList := by decide +kernel
  have ht : '(' :: "R - π[\"a)\"](S)".toList ++ [')'] = "(R - π[\"a)\"](S))".toList := by
    decide +kernel
  exact ⟨h, hb, ht ▸ (parse_paren h).1 hb⟩

theorem parse_paren_open_name :
    parse 2 "π[a(](R)".toList = .ok (project ["a("] (relation "R")) ∧
    parse 3 "(π[a(](R))".toList ≠ .ok (project ["a("] (relation "R")) := by
  have h : parse 3 "(π[a(](R))".toList = .error (.parse .openParentheses "(π[a(](R))") := rfl
  refine ⟨rfl, ?_⟩
  rw [h]
  nofun

end RelAlg.Expr
