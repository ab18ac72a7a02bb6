import RelAlg.Command
import RelAlg.Proofs.Number.Text
import RelAlg.Proofs.Outcome
import RelAlg.Proofs.Text.Words

set_option autoImplicit false

namespace RelAlg

open Text

namespace Text

def Item (s : String) : Prop :=
  trimmed s = s ∧ ',' ∉ s.toList

instance (s : String) : Decidable (Item s) :=
  inferInstanceAs (Decidable (trimmed s = s ∧ ',' ∉ s.toList))

theorem Item.toList {s : String} (h : Item s) : trim s.toList = s.toList ∧ ',' ∉ s.toList :=
  ⟨String.ofList_injective (h.1.trans String.ofList_toList.symm), h.2⟩

end Text

theorem Number.Literal.isWord_toChars (l : Literal) : IsWord l.toChars ∧ ',' ∉ l.toChars := by
  have hb : ∀ c ∈ l.behind, c = '.' ∨ c.isDigit = true := by
    intro c hc
    rw [behind] at hc
    split at hc
    · cases hc
    · exact (List.mem_cons.1 hc).imp_right (l.isDigit_fraction c)
  have hchars : ∀ c ∈ l.toChars, isBlank c = false ∧ c ≠ ',' := by
    have hdigit : ∀ c : Char, c.isDigit = true → isBlank c = false ∧ c ≠ ',' := fun c hc =>
      ⟨isBlank_of_isDigit hc, by rintro rfl; cases hc⟩
    intro c hc
    rw [toChars, List.mem_append, List.mem_append] at hc
    rcases hc with hc | hc | hc
    · split at hc
      · rw [List.mem_singleton.1 hc]
        decide
      · cases hc
    · exact hdigit c (l.isDigit_whole c hc)
    · rcases hb c hc with rfl | hc
      · decide
      · exact hdigit c hc
  have hne : l.toChars ≠ [] :=
    List.append_ne_nil_of_right_ne_nil _ (List.append_ne_nil_of_left_ne_nil l.whole_ne _)
  exact ⟨⟨hne, fun c hc => (hchars c hc).1⟩, fun hc => (hchars _ hc).2 rfl⟩

namespace Value

/-- The value is written in a list by its text: a finite number, or a text that is no number. -/
def Writable : Value → Prop
  | number n => n.isFinite = true
  | text s => Item s ∧ readNumber? s = none

instance : (v : Value) → Decidable v.Writable
  | number n => inferInstanceAs (Decidable (n.isFinite = true))
  | text s => inferInstanceAs (Decidable (Item s ∧ readNumber? s = none))

variable {v : Value}

theorem Writable.item (h : v.Writable) : Item v.toText := by
  cases v with
  | text s => exact h.1
  | number n =>
    obtain ⟨l, ht, -⟩ := n.exists_literal h
    obtain ⟨hw, hc⟩ := l.isWord_toChars
    rw [toText, ht]
    exact ⟨by rw [trimmed, String.toList_ofList, hw.framed.2], by rwa [String.toList_ofList]⟩

theorem Writable.ofInput (h : v.Writable) : Value.ofInput v.toText = v := by
  cases v with
  | text s =>
    rw [Value.ofInput, toText, h.2]
  | number n =>
    have hf : n.isFinite = true := h
    obtain ⟨l, ht, hv⟩ := n.exists_literal hf
    have hr : readNumber? n.toText = some n := by
      rw [readNumber?, ht, String.toList_ofList, l.isWord_toChars.1.framed.2,
        Number.Literal.read?_toChars, hv, Option.filter_some, if_pos hf]
    rw [Value.ofInput, toText, hr]

theorem Writable.eq_text_of_toText (h : v.Writable) (he : v.toText = "") : v = text "" := by
  rw [← h.ofInput, he]
  decide

end Value

theorem isWord_repr (n : Nat) : IsWord n.repr.toList := by
  rw [Nat.toList_repr]
  exact isWord_of_isDigit Nat.toDigits_ne_nil (Decimal.isDigit_toDigits n)

theorem readWord?_repr {n : Nat} (h : n ≤ maxWord) : readWord? n.repr.toList = some n := by
  have hd := Decimal.isDigit_toDigits n
  have hplus : (Decimal.toDigits n).head? ≠ some '+' := fun he => by
    have hp := hd '+' (List.mem_of_mem_head? he)
    cases hp
  have hne : (Decimal.toDigits n).isEmpty = false :=
    List.isEmpty_eq_false_iff.2 Nat.toDigits_ne_nil
  have hall : (Decimal.toDigits n).all Char.isDigit = true := List.all_eq_true.2 hd
  rw [Nat.toList_repr]
  change readWord? (Decimal.toDigits n) = some n
  simp only [readWord?, if_neg hplus, hne, hall, Decimal.ofDigits_toDigits, if_pos h]
  rfl

namespace Command

variable {c : Command} {line : List Char}

theorem parseForm_ok {form : Form} {name : String} {cs : List Char}
    (h : parseForm form name cs = .ok c) :
    (∃ columns, columns ≠ [] ∧ c = .create name columns) ∨
    (∃ cs, c = .insert name (parseValues cs)) ∨
    (∃ index cs, c = .update name index (parseValues cs)) ∨
    (∃ index, c = .delete name index) ∨ c = .drop name := by
  cases form with
  | create =>
    simp only [parseForm] at h
    split at h <;> cases h
    rename_i hne
    exact .inl ⟨_, fun he => hne (List.isEmpty_iff.2 he), rfl⟩
  | insert =>
    cases h
    exact .inr (.inl ⟨cs, rfl⟩)
  | update =>
    obtain ⟨index, -, h⟩ := bind_ok h
    cases h
    exact .inr (.inr (.inl ⟨index, _, rfl⟩))
  | delete =>
    simp only [parseForm] at h
    split at h
    · cases h
    · obtain ⟨index, -, h⟩ := bind_ok h
      cases h
      exact .inr (.inr (.inr (.inl ⟨index, rfl⟩)))
  | drop =>
    simp only [parseForm] at h
    split at h <;> cases h
    exact .inr (.inr (.inr (.inr rfl)))

/-- A line that is read has a word as the name; it names columns for a new relation, and its values
are read from its text. -/
theorem parse_ok (h : parse line = .ok (some c)) : ∃ name : String, IsWord name.toList ∧
    ((∃ columns, columns ≠ [] ∧ c = .create name columns) ∨
    (∃ cs, c = .insert name (parseValues cs)) ∨
    (∃ index cs, c = .update name index (parseValues cs)) ∨
    (∃ index, c = .delete name index) ∨ c = .drop name) := by
  rw [parse] at h
  dsimp only at h
  split at h
  · cases h
  · split at h
    · cases h
    · rename_i hne
      obtain ⟨c', hc, h⟩ := bind_ok h
      cases h
      refine ⟨_, ?_, parseForm_ok hc⟩
      rw [String.toList_ofList]
      exact ⟨fun he => hne (List.isEmpty_iff.2 he), splitWord_solid _⟩

def Form.keyword : Form → String
  | create => ":create"
  | insert => ":insert"
  | update => ":update"
  | delete => ":delete"
  | drop => ":drop"

theorem Form.ofKeyword?_keyword (form : Form) :
    Form.ofKeyword? form.keyword.toList = some form := by
  cases form <;> decide

theorem Form.isWord_keyword (form : Form) : IsWord form.keyword.toList := by
  cases form <;> decide

theorem parseForm_of_spaced (form : Form) {name : List Char} {items words : List (List Char)}
    (hn : IsWord name) (h : Spaced items (form.keyword.toList :: name :: words) line)
    (hc : ∀ rest, Spaced items words rest →
      parseForm form (String.ofList name) (trim rest) = .ok c) :
    parse line = .ok (some c) := by
  obtain ⟨behind, hs, h⟩ := h.splitWord form.isWord_keyword
  obtain ⟨rest, hs', h⟩ := h.splitWord hn
  rw [← splitWord_trim] at hs'
  rw [parse, hs]
  dsimp only
  rw [form.ofKeyword?_keyword, hs']
  dsimp only
  rw [if_neg fun he => hn.ne (List.isEmpty_iff.1 he), hc rest h]
  rfl

theorem splitList_of_listed {items : List String} {text : List Char}
    (h : Listed (items.map String.toList) text) (hi : ∀ s ∈ items, Item s) (hne : items ≠ [""]) :
    splitList (trim text) = items := by
  rw [splitList, trim_trim]
  by_cases hnil : items = []
  · subst hnil
    have hb : AllBlank text := h
    rw [trim_allBlank hb]
    rfl
  · have hitems : ∀ item ∈ items.map String.toList, trim item = item ∧ ',' ∉ item :=
      List.forall_mem_map.2 fun s hs => (hi s hs).toList
    have hsplit := (map_trim_splitOn_trim (by decide) text).trans
      (h.splitOn (by simpa using hnil) hitems)
    have hof : ((trim text).splitOn ',').map (fun part => String.ofList (trim part)) = items := by
      have hm := congrArg (List.map String.ofList) hsplit
      simpa [Function.comp_def] using hm
    rw [if_neg, hof]
    intro he
    rw [List.isEmpty_iff.1 he] at hof
    exact hne hof.symm

theorem parseValues_of_listed {values : List Value} {text : List Char}
    (h : Listed ((values.map Value.toText).map String.toList) text)
    (hv : ∀ v ∈ values, v.Writable) (hne : values ≠ [.text ""]) :
    parseValues (trim text) = values := by
  have hitems : ∀ s ∈ values.map Value.toText, Item s :=
    List.forall_mem_map.2 fun v h => (hv v h).item
  have hempty : values.map Value.toText ≠ [""] := by
    intro he
    obtain ⟨v, rfl⟩ := List.length_eq_one_iff.1 (by simpa using congrArg List.length he)
    refine hne (congrArg (fun v => [v]) ?_)
    exact (hv v (List.mem_singleton_self v)).eq_text_of_toText (List.cons.inj he).1
  have hof : ∀ v ∈ values, (Value.ofInput ∘ Value.toText) v = v := fun v h => by
    rw [Function.comp_apply, (hv v h).ofInput]
  rw [parseValues, splitList_of_listed h hitems hempty, List.map_map, List.map_congr_left hof,
    List.map_id']

def words : Command → List String
  | create name _ => [Form.keyword .create, name]
  | insert name _ => [Form.keyword .insert, name]
  | update name index _ => [Form.keyword .update, name, index.repr]
  | delete name index => [Form.keyword .delete, name, index.repr]
  | drop name => [Form.keyword .drop, name]

def items : Command → List String
  | create _ columns => columns
  | insert _ values => values.map Value.toText
  | update _ _ values => values.map Value.toText
  | delete _ _ => []
  | drop _ => []

/-- The line spells the command, with any blanks around its words and its items. -/
def Writes (c : Command) (line : List Char) : Prop :=
  Spaced (c.items.map String.toList) (c.words.map String.toList) line

def toText (c : Command) : String :=
  " ".intercalate (c.words ++ if c.items = [] then [] else [", ".intercalate c.items])

/-- The parts of the command can be told apart on a line. An empty item alone cannot: the list would
be empty. -/
def Writable : Command → Prop
  | create name columns =>
    IsWord name.toList ∧ (∀ s ∈ columns, Item s) ∧ columns ≠ [] ∧ columns ≠ [""]
  | insert name values =>
    IsWord name.toList ∧ (∀ v ∈ values, v.Writable) ∧ values ≠ [.text ""]
  | update name index values =>
    IsWord name.toList ∧ index ≤ maxWord ∧ (∀ v ∈ values, v.Writable) ∧ values ≠ [.text ""]
  | delete name index => IsWord name.toList ∧ index ≤ maxWord
  | drop name => IsWord name.toList

theorem writes_toText (c : Command) : c.Writes c.toText.toList := by
  have hne : c.words.map String.toList ≠ [] := by cases c <;> exact List.cons_ne_nil _ _
  have htail : (if c.items = [] then [] else [", ".intercalate c.items]).map String.toList =
      if c.items.map String.toList = [] then []
      else [List.intercalate [',', ' '] (c.items.map String.toList)] := by
    by_cases hi : c.items = []
    · rw [if_pos hi, if_pos (by rw [hi]; rfl)]
      rfl
    · rw [if_neg hi, if_neg (by simpa using hi), List.map_singleton, String.toList_intercalate]
      rfl
  rw [Writes, toText, String.toList_intercalate, List.map_append, htail]
  exact spaced_intercalate hne

theorem parseIndex_repr {form : Form} {n : Nat} (h : n ≤ maxWord) :
    parseIndex form n.repr.toList = .ok n := by
  rw [parseIndex, if_neg fun he => (isWord_repr n).ne (List.isEmpty_iff.1 he), readWord?_repr h]

/-- A line that spells a command is read as that command, and the usual line spells it. -/
theorem parse_of_writes (hc : c.Writable) : c.Writes c.toText.toList ∧
    ∀ line, c.Writes line → parse line = .ok (some c) := by
  refine ⟨c.writes_toText, fun line h => ?_⟩
  have hname : ∀ name : String, String.ofList name.toList = name := fun _ => String.ofList_toList
  cases c with
  | create name columns =>
    obtain ⟨hn, hi, hne, he⟩ := hc
    refine parseForm_of_spaced .create hn h fun rest hr => ?_
    rw [parseForm, splitList_of_listed hr hi he, hname]
    exact if_neg fun hempty => hne (List.isEmpty_iff.1 hempty)
  | insert name values =>
    obtain ⟨hn, hv, he⟩ := hc
    refine parseForm_of_spaced .insert hn h fun rest hr => ?_
    rw [parseForm, parseValues_of_listed hr hv he, hname]
  | update name index values =>
    obtain ⟨hn, hw, hv, he⟩ := hc
    refine parseForm_of_spaced .update hn h fun rest hr => ?_
    obtain ⟨list, hs, hr⟩ := hr.splitWord (isWord_repr index)
    rw [parseForm, splitWord_trim, hs]
    dsimp only
    rw [parseIndex_repr hw, parseValues_of_listed hr hv he, hname]
    rfl
  | delete name index =>
    obtain ⟨hn, hw⟩ := hc
    refine parseForm_of_spaced .delete hn h fun rest hr => ?_
    obtain ⟨list, hs, hr⟩ := hr.splitWord (isWord_repr index)
    have hb : AllBlank list := hr
    rw [parseForm, splitWord_trim, hs, trim_allBlank hb]
    dsimp only
    rw [parseIndex_repr hw, hname]
    rfl
  | drop name =>
    refine parseForm_of_spaced .drop hc h fun rest hr => ?_
    have hb : AllBlank rest := hr
    rw [parseForm, trim_allBlank hb, hname]
    rfl

def spacedUpdate : Command :=
  .update "R" 2 [.number (.real true .zero), .text "a b", .text ""]

def spacedLine : String :=
  "\t:update\u3000 R  2\u00a0 -0 ,a b\t, \n"

theorem spacedLine_writes : spacedUpdate.Writes spacedLine.toList := by
  refine ⟨['\t'], "\u3000 R  2\u00a0 -0 ,a b\t, \n".toList, by decide, by decide, by decide, ?_⟩
  refine ⟨"\u3000 ".toList, "  2\u00a0 -0 ,a b\t, \n".toList, by decide, by decide, by decide, ?_⟩
  refine ⟨"  ".toList, "\u00a0 -0 ,a b\t, \n".toList, by decide, by decide, by decide, ?_⟩
  have hn : Padded "-0".toList "\u00a0 -0 ".toList :=
    ⟨"\u00a0 ".toList, [' '], by decide, by decide, by decide⟩
  have hs : Padded "a b".toList "a b\t".toList := ⟨[], ['\t'], by decide, by decide, by decide⟩
  have he : Padded [] " \n".toList := ⟨" \n".toList, [], by decide, by decide, by decide⟩
  exact ⟨_, .cons hn (.cons hs (.cons he .nil)), by decide⟩

theorem parse_of_writes_spaced : spacedUpdate.Writable ∧
    parse spacedLine.toList = .ok (some spacedUpdate) := by
  have hc : spacedUpdate.Writable := ⟨by decide, by decide, by decide, by decide⟩
  exact ⟨hc, (parse_of_writes hc).2 _ spacedLine_writes⟩

end Command

end RelAlg
