import Mathlib.Data.List.Forall2
import RelAlg.Proofs.Text.Spans

set_option autoImplicit false

namespace RelAlg.Text

namespace CodePoints

def apart (r s : CodePoints) : Bool :=
  r.all fun a => s.all fun b => a.2 < b.1 || b.2 < a.1

theorem contains_of_apart {r s : CodePoints} {c : Char} (h : apart r s = true)
    (hc : r.contains c = true) : s.contains c = false := by
  obtain ⟨a, ha, hal, hau⟩ := contains_iff.1 hc
  by_contra hs
  obtain ⟨b, hb, hbl, hbu⟩ := contains_iff.1 (Bool.of_not_eq_false hs)
  have hab := List.all_eq_true.1 (List.all_eq_true.1 h a ha) b hb
  rw [Bool.or_eq_true, decide_eq_true_eq, decide_eq_true_eq] at hab
  omega

theorem contains_singleton {a b : Nat} {c : Char} (h : a ≤ c.toNat ∧ c.toNat ≤ b) :
    CodePoints.contains [(a, b)] c = true :=
  contains_iff.2 ⟨(a, b), List.mem_singleton_self _, h⟩

end CodePoints

theorem isBlank_of_isDigit {c : Char} (h : c.isDigit = true) : isBlank c = false := by
  have hd : 48 ≤ c.toNat ∧ c.toNat ≤ 57 := Char.isDigit_iff_toNat.1 h
  exact CodePoints.contains_of_apart (by decide) (CodePoints.contains_singleton hd)

def AllBlank (cs : List Char) : Prop :=
  ∀ c ∈ cs, isBlank c = true

instance (cs : List Char) : Decidable (AllBlank cs) :=
  decidable_of_iff (cs.all isBlank = true) List.all_eq_true

theorem AllBlank.not_mem {c : Char} {cs : List Char} (h : AllBlank cs) (hc : isBlank c = false) :
    c ∉ cs := by
  intro hm
  rw [h c hm] at hc
  cases hc

variable {lead behind cs word rest : List Char}

theorem trim_padded (hl : AllBlank lead) (hb : AllBlank behind) :
    trim (lead ++ cs ++ behind) = trim cs := by
  have hend : ∀ xs, trimEnd (xs ++ behind) = trimEnd xs := fun xs => by
    rw [trimEnd, List.reverse_append, List.dropWhile_append_of_pos fun c hc =>
      hb c (List.mem_reverse.1 hc)]
    rfl
  rw [List.append_assoc, trim, trimStart, List.dropWhile_append_of_pos hl, List.dropWhile_append]
  split
  · rename_i he
    have hs : trimStart cs = [] := List.isEmpty_iff.1 he
    rw [List.dropWhile_eq_nil_iff.2 hb, trim, hs]
  · exact hend (trimStart cs)

theorem trim_allBlank (h : AllBlank cs) : trim cs = [] := by
  have hp : trim (cs ++ [] ++ []) = trim [] := trim_padded h (List.forall_mem_nil _)
  rwa [List.append_nil, List.append_nil] at hp

structure IsWord (cs : List Char) : Prop where
  ne : cs ≠ []
  solid : ∀ c ∈ cs, isBlank c = false

instance (cs : List Char) : Decidable (IsWord cs) :=
  decidable_of_iff (cs.isEmpty = false ∧ cs.all (!isBlank ·) = true) <| by
    rw [List.isEmpty_eq_false_iff, List.all_eq_true]
    simp only [Bool.not_eq_true']
    exact ⟨fun h => ⟨h.1, h.2⟩, fun h => ⟨h.ne, h.solid⟩⟩

theorem IsWord.framed (h : IsWord word) : Framed word :=
  ⟨h.ne, trim_eq_self_iff.2 ⟨fun c hc => h.solid c (List.mem_of_mem_head? hc),
    fun c hc => h.solid c (List.mem_of_mem_getLast? hc)⟩⟩

theorem isWord_of_isDigit (hne : cs ≠ []) (h : ∀ c ∈ cs, c.isDigit = true) : IsWord cs :=
  ⟨hne, fun c hc => isBlank_of_isDigit (h c hc)⟩

/-- Nothing, or a blank first. -/
def Apart (cs : List Char) : Prop :=
  ∀ c ∈ cs.head?, isBlank c = true

instance (cs : List Char) : Decidable (Apart cs) :=
  decidable_of_iff (cs.head?.all isBlank = true) <| by
    cases cs <;> simp [Apart]

theorem splitWord_solid (cs : List Char) : ∀ c ∈ (splitWord cs).1, isBlank c = false :=
  fun c hc => by simpa using List.mem_takeWhile_imp (p := (!isBlank ·)) hc

theorem splitWord_trim (cs : List Char) : splitWord (trim cs) = splitWord cs := by
  rw [splitWord, trim_trim]
  rfl

theorem splitWord_of_trim {gap : List Char} (h : trim cs = word ++ (gap ++ rest))
    (hw : IsWord word) (hg : AllBlank gap) (ha : Apart (gap ++ rest))
    (hr : ∀ c ∈ rest.head?, isBlank c = false) : splitWord cs = (word, rest) := by
  have hsolid : ∀ c ∈ word, (!isBlank c) = true := fun c hc => by rw [hw.solid c hc]; rfl
  have hfirst : ∀ c ∈ (gap ++ rest).head?, (!isBlank c) = false := fun c hc => by
    rw [ha c hc]
    rfl
  rw [splitWord, h, takeWhile_span hsolid hfirst, dropWhile_span hsolid hfirst, trimStart,
    dropWhile_span hg hr]

theorem splitWord_word (hl : AllBlank lead) (hw : IsWord word) (hr : Apart rest) :
    splitWord (lead ++ word ++ rest) = (word, trim rest) := by
  obtain ⟨trailing, he, ht⟩ := exists_trim rest
  by_cases hn : trim rest = []
  · have htrim : trim (lead ++ word ++ rest) = word ++ ([] ++ trim rest) := by
      rw [trim_padded hl (isBlank_of_trim_eq_nil hn), hw.framed.2, hn, List.append_nil,
        List.append_nil]
    rw [hn] at htrim ⊢
    exact splitWord_of_trim htrim hw (List.forall_mem_nil _) (fun c hc => by cases hc)
      fun c hc => by cases hc
  · have hframed : Framed (trim rest) := ⟨hn, trim_trim rest⟩
    have htrim : trim (lead ++ word ++ rest) =
        word ++ (rest.takeWhile isBlank ++ trim rest) := by
      have hmid : lead ++ (word ++ rest.takeWhile isBlank ++ trim rest) ++ trailing =
          lead ++ word ++ rest := by
        simp only [List.append_assoc] at he ⊢
        rw [he]
      rw [← hmid, trim_padded hl ht, (framed_append hw.framed hframed _).2, List.append_assoc]
    refine splitWord_of_trim htrim hw (fun c hc => List.mem_takeWhile_imp hc) (fun c hc => ?_)
      (trim_eq_self_iff.1 hframed.2).1
    refine hr c ?_
    rw [← he, List.head?_append, Option.mem_def.1 hc]
    rfl

section Lists

variable {sep : Char} {item text : List Char} {items texts : List (List Char)}

theorem exists_splitOn_append (h : sep ∉ behind) (cs : List Char) : ∃ parts last,
    cs.splitOn sep = parts ++ [last] ∧ (cs ++ behind).splitOn sep = parts ++ [last ++ behind] := by
  induction cs with
  | nil => exact ⟨[], [], rfl, List.splitOn_eq_singleton h⟩
  | cons c cs ih =>
    obtain ⟨parts, last, hs, hb⟩ := ih
    rw [List.cons_append, List.splitOn_cons_eq_if_modifyHead, List.splitOn_cons_eq_if_modifyHead,
      hs, hb]
    by_cases hc : c = sep
    · exact ⟨[] :: parts, last, by cases parts <;> simp [hc], by cases parts <;> simp [hc]⟩
    · cases parts with
      | nil => exact ⟨[], c :: last, by simp [hc], by simp [hc]⟩
      | cons part parts => exact ⟨(c :: part) :: parts, last, by simp [hc], by simp [hc]⟩

theorem trim_blank {c : Char} (h : isBlank c = true) (cs : List Char) :
    trim (c :: cs) = trim cs := by
  rw [trim, trimStart, List.dropWhile_cons_of_pos h]
  rfl

theorem map_trim_splitOn_blank {c : Char} (h : isBlank c = true) (hc : c ≠ sep)
    (cs : List Char) : ((c :: cs).splitOn sep).map trim = (cs.splitOn sep).map trim := by
  rw [List.splitOn_cons_eq_if_modifyHead, if_neg (by simpa using hc)]
  cases hs : cs.splitOn sep with
  | nil => exact absurd hs (List.splitOn_ne_nil sep cs)
  | cons part parts => rw [List.modifyHead_cons, List.map_cons, List.map_cons, trim_blank h]

theorem map_trim_splitOn_lead (hs : isBlank sep = false) (hl : AllBlank lead) (cs : List Char) :
    ((lead ++ cs).splitOn sep).map trim = (cs.splitOn sep).map trim := by
  induction lead with
  | nil => rfl
  | cons b lead ih =>
    obtain ⟨hb, hl⟩ := List.forall_mem_cons.1 hl
    have hne : b ≠ sep := by
      rintro rfl
      rw [hb] at hs
      cases hs
    rw [List.cons_append, map_trim_splitOn_blank hb hne, ih hl]

theorem map_trim_splitOn_behind (hs : isBlank sep = false) (hb : AllBlank behind)
    (cs : List Char) : ((cs ++ behind).splitOn sep).map trim = (cs.splitOn sep).map trim := by
  obtain ⟨parts, last, hp, hpb⟩ := exists_splitOn_append (hb.not_mem hs) cs
  have hl : trim (last ++ behind) = trim last := trim_padded (List.forall_mem_nil _) hb
  rw [hp, hpb, List.map_append, List.map_append, List.map_singleton, List.map_singleton, hl]

/-- The outer blanks of a list are outer blanks of its first and its last part. -/
theorem map_trim_splitOn_trim (hs : isBlank sep = false) (cs : List Char) :
    ((trim cs).splitOn sep).map trim = (cs.splitOn sep).map trim := by
  obtain ⟨trailing, he, ht⟩ := exists_trim cs
  have hlead : AllBlank (cs.takeWhile isBlank) := fun c hc => List.mem_takeWhile_imp hc
  have hcs := map_trim_splitOn_lead hs hlead (trim cs ++ trailing)
  rw [← List.append_assoc, he, map_trim_splitOn_behind hs ht] at hcs
  exact hcs.symm

/-- The item with blanks around it. -/
def Padded (item text : List Char) : Prop :=
  ∃ lead behind, AllBlank lead ∧ AllBlank behind ∧ text = lead ++ item ++ behind

theorem padded_self (item : List Char) : Padded item item :=
  ⟨[], [], List.forall_mem_nil _, List.forall_mem_nil _, (List.append_nil item).symm⟩

theorem padded_blank (item : List Char) : Padded item (' ' :: item) :=
  ⟨[' '], [], List.forall_mem_singleton.2 (by decide), List.forall_mem_nil _,
    (List.append_nil _).symm⟩

theorem Padded.trim (h : Padded item text) : Text.trim text = Text.trim item := by
  obtain ⟨lead, behind, hl, hb, rfl⟩ := h
  exact trim_padded hl hb

theorem Padded.not_mem (h : Padded item text) (hs : isBlank sep = false) (hm : sep ∉ item) :
    sep ∉ text := by
  obtain ⟨lead, behind, hl, hb, rfl⟩ := h
  simp only [List.mem_append, not_or]
  exact ⟨⟨hl.not_mem hs, hm⟩, hb.not_mem hs⟩

/-- The items with commas between them and any blanks around each; of none, nothing but blanks. -/
def Listed (items : List (List Char)) (text : List Char) : Prop :=
  if items = [] then AllBlank text
  else ∃ texts, List.Forall₂ Padded items texts ∧ text = List.intercalate [','] texts

/-- A list of trimmed items without commas is divided into them again. -/
theorem Listed.splitOn (h : Listed items text) (hne : items ≠ [])
    (hi : ∀ item ∈ items, Text.trim item = item ∧ ',' ∉ item) :
    (text.splitOn ',').map Text.trim = items := by
  have hcomma : isBlank ',' = false := by decide
  rw [Listed, if_neg hne] at h
  obtain ⟨texts, hp, rfl⟩ := h
  have htexts : texts.map Text.trim = items ∧ ∀ text ∈ texts, ',' ∉ text := by
    clear hne
    induction hp with
    | nil => exact ⟨rfl, List.forall_mem_nil _⟩
    | cons hp _ ih =>
      obtain ⟨hi, his⟩ := List.forall_mem_cons.1 hi
      obtain ⟨ht, hc⟩ := ih his
      exact ⟨by rw [List.map_cons, hp.trim, hi.1, ht],
        List.forall_mem_cons.2 ⟨hp.not_mem hcomma hi.2, hc⟩⟩
  have hne' : texts ≠ [] := by
    rintro rfl
    exact hne htexts.1.symm
  rw [List.splitOn_intercalate ',' htexts.2 hne', htexts.1]

theorem intercalate_comma_blank (item : List Char) (items : List (List Char)) :
    List.intercalate [',', ' '] (item :: items) =
      List.intercalate [','] (item :: items.map (' ' :: ·)) := by
  have hfront : ∀ (next : List Char) (items : List (List Char)),
      List.intercalate [','] ((' ' :: next) :: items) =
        ' ' :: List.intercalate [','] (next :: items) := by
    intro next items
    cases items <;> rfl
  induction items generalizing item with
  | nil => rfl
  | cons next items ih =>
    rw [List.intercalate_cons_cons, ih, List.map_cons, List.intercalate_cons_cons, hfront,
      List.append_assoc, List.append_assoc]
    rfl

theorem listed_intercalate (items : List (List Char)) :
    Listed items (List.intercalate [',', ' '] items) := by
  cases items with
  | nil => exact (if_pos rfl).mpr (List.forall_mem_nil _)
  | cons item items =>
    rw [Listed, if_neg (List.cons_ne_nil _ _)]
    refine ⟨_, .cons (padded_self item) ?_, intercalate_comma_blank item items⟩
    rw [List.forall₂_map_right_iff]
    exact List.forall₂_same.2 fun item _ => padded_blank item

end Lists

/-- The words one after another, a blank or more behind each, and then the list. -/
def Spaced (items : List (List Char)) : List (List Char) → List Char → Prop
  | [], text => Listed items text
  | word :: words, text => ∃ lead rest, AllBlank lead ∧ Apart rest ∧ text = lead ++ word ++ rest ∧
      Spaced items words rest

section Spaced

variable {word text : List Char} {items words : List (List Char)}

theorem Spaced.splitWord (h : Spaced items (word :: words) text) (hw : IsWord word) :
    ∃ rest, Text.splitWord text = (word, trim rest) ∧ Spaced items words rest := by
  obtain ⟨lead, rest, hl, hr, rfl, hs⟩ := h
  exact ⟨rest, splitWord_word hl hw hr, hs⟩

theorem Spaced.blank (h : Spaced items words text) : Spaced items words (' ' :: text) := by
  have hb : isBlank ' ' = true := by decide
  cases words with
  | cons word words =>
    obtain ⟨lead, rest, hl, hr, rfl, hs⟩ := h
    exact ⟨' ' :: lead, rest, List.forall_mem_cons.2 ⟨hb, hl⟩, hr, rfl, hs⟩
  | nil =>
    rw [Spaced, Listed] at h ⊢
    split at h <;> rename_i hi
    · rw [if_pos hi]
      exact List.forall_mem_cons.2 ⟨hb, h⟩
    · obtain ⟨texts, hp, rfl⟩ := h
      rw [if_neg hi]
      cases hp with
      | nil => exact absurd rfl hi
      | @cons item text items texts hp hps =>
        obtain ⟨lead, behind, hl, hbehind, rfl⟩ := hp
        refine ⟨(' ' :: lead ++ item ++ behind) :: texts,
          .cons ⟨' ' :: lead, behind, List.forall_mem_cons.2 ⟨hb, hl⟩, hbehind, rfl⟩ hps, ?_⟩
        cases texts <;> rfl

theorem spaced_intercalate (hne : words ≠ []) :
    Spaced items words (List.intercalate [' '] (words ++
      if items = [] then [] else [List.intercalate [',', ' '] items])) := by
  have hapart : ∀ cs, Apart (' ' :: cs) := fun cs c hc => by
    cases hc
    decide
  have hend : Apart [] := fun c hc => by cases hc
  induction words with
  | nil => exact absurd rfl hne
  | cons word words ih =>
    cases words with
    | cons next words =>
      refine ⟨[], _, List.forall_mem_nil _, hapart _, ?_, (ih (List.cons_ne_nil _ _)).blank⟩
      rw [List.cons_append, List.cons_append, List.intercalate_cons_cons, List.append_assoc]
      rfl
    | nil =>
      have hl : Spaced items [] (List.intercalate [',', ' '] items) := listed_intercalate items
      split <;> rename_i hi
      · refine ⟨[], [], List.forall_mem_nil _, hend, ?_, ?_⟩
        · simp
        · subst hi
          exact hl
      · refine ⟨[], _, List.forall_mem_nil _, hapart _, ?_, hl.blank⟩
        rw [List.singleton_append, List.intercalate_cons_cons, List.intercalate_singleton,
          List.append_assoc]
        rfl

end Spaced

end RelAlg.Text
