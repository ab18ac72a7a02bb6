import RelAlg.Json.Token
import RelAlg.Json.Writer
import RelAlg.Proofs.Json.Number
import RelAlg.Proofs.Json.Text

/-!
The tokens of a written document: its brackets, names and values, however it is indented. A text or
a bracket ends by itself; a number ends where something follows that cannot go on with it, and in a
document a mark or a new line does.
-/

set_option autoImplicit false

namespace RelAlg

namespace Value

def ReadsBack (v : Value) : Prop :=
  ∀ n, v = .number n → Json.ReadsBack n

end Value

namespace Json

section Tokens

variable {c : Char} {cs as bs rest : List Char} {ts us : List Token}

theorem eq_of_isMark (h : isMark c = true) :
    c = '[' ∨ c = ']' ∨ c = '\x7b' ∨ c = '\x7d' ∨ c = ':' ∨ c = ',' := by
  simpa [isMark] using h

theorem isGap_of_isMark (h : isMark c = true) : isGap c = false := by
  rcases eq_of_isMark h with rfl | rfl | rfl | rfl | rfl | rfl <;> rfl

theorem endsNumber_gap (h : isGap c = true) (cs : List Char) : EndsNumber (c :: cs) := by
  intro d hd
  cases hd
  simp only [isGap, Bool.or_eq_true, decide_eq_true_eq] at h
  rcases h with ((rfl | rfl) | rfl) | rfl <;> decide

theorem endsNumber_mark (h : isMark c = true) (cs : List Char) : EndsNumber (c :: cs) := by
  intro d hd
  cases hd
  rcases eq_of_isMark h with rfl | rfl | rfl | rfl | rfl | rfl <;> decide

theorem tokens?_gap (h : isGap c = true) (cs : List Char) : tokens? (c :: cs) = tokens? cs := by
  rw [tokens?, if_pos h]

def readToken? (c : Char) (cs : List Char) : Option (Token × List Char) :=
  (Token.read? c cs).map fun p => (p.1, p.2.1)

theorem readToken?_mark (h : isMark c = true) (cs : List Char) :
    readToken? c cs = some (.mark c, cs) := by
  rw [readToken?, Token.read?, if_pos h]
  rfl

theorem readToken?_text (cs : List Char) : readToken? '"' cs =
    (readText? none cs).map fun p => (.text (String.ofList p.1), p.2) := by
  rw [readToken?, Token.read?, if_neg (by decide), if_pos rfl]
  split
  · rename_i h
    rw [h]
    rfl
  · rename_i h
    simp only [h, Option.map_some]

theorem readToken?_number (hm : isMark c = false) (hq : c ≠ '"') (cs : List Char) :
    readToken? c cs = (readNumber? (c :: cs)).map fun p => (.number p.1, p.2) := by
  rw [readToken?, Token.read?, hm, if_neg Bool.false_ne_true, if_neg hq]
  split
  · rename_i h
    rw [h]
    rfl
  · rename_i h
    simp only [h, Option.map_some]

theorem tokens?_cons {t : Token} (hg : isGap c = false) (h : readToken? c cs = some (t, rest)) :
    tokens? (c :: cs) = (tokens? rest).map (t :: ·) := by
  obtain ⟨⟨u, r⟩, hr, hp⟩ := Option.map_eq_some_iff.1 h
  cases hp
  rw [tokens?, hg, if_neg Bool.false_ne_true, hr]

theorem tokens?_mark (h : isMark c = true) (cs : List Char) :
    tokens? (c :: cs) = (tokens? cs).map (.mark c :: ·) :=
  tokens?_cons (isGap_of_isMark h) (readToken?_mark h cs)

theorem tokens?_text (s : String) (rest : List Char) :
    tokens? (writeText s ++ rest) = (tokens? rest).map (.text s :: ·) := by
  have hw : writeText s ++ rest = '"' :: (s.toList.flatMap escapeChar ++ '"' :: rest) := by
    simp [writeText]
  rw [hw]
  refine tokens?_cons rfl ?_
  rw [readToken?_text, readText?_written, Option.map_some, String.ofList_toList]

theorem start_of_readNumber? {n : Number} (h : readNumber? (c :: cs) = some (n, rest)) :
    isGap c = false ∧ isMark c = false ∧ c ≠ '"' := by
  rcases head_of_readNumber? h with rfl | hd
  · decide
  · refine ⟨?_, ?_, ?_⟩
    · rw [← Bool.not_eq_true]
      intro hg
      exact Bool.false_ne_true (((endsNumber_gap hg []) c rfl).1.symm.trans hd)
    · rw [← Bool.not_eq_true]
      intro hm
      exact Bool.false_ne_true (((endsNumber_mark hm []) c rfl).1.symm.trans hd)
    · rintro rfl
      cases hd

theorem tokens?_number {n : Number} (h : readNumber? cs = some (n, []))
    (hr : EndsNumber rest) : tokens? (cs ++ rest) = (tokens? rest).map (.number n :: ·) := by
  cases cs with
  | nil => cases h
  | cons c cs =>
    obtain ⟨hg, hm, hq⟩ := start_of_readNumber? h
    refine tokens?_cons hg ?_
    have hn := hr.readNumber? h
    rw [List.cons_append] at hn
    rw [List.append_eq, readToken?_number hm hq, hn]
    rfl

/-- These are the tokens of a text, whatever follows it. -/
def Spells (cs : List Char) (ts : List Token) : Prop :=
  ∀ rest, tokens? (cs ++ rest) = (tokens? rest).map (ts ++ ·)

/-- These are the tokens of a text that may end in a number. -/
def SpellsBefore (cs : List Char) (ts : List Token) : Prop :=
  ∀ rest, EndsNumber rest → tokens? (cs ++ rest) = (tokens? rest).map (ts ++ ·)

theorem Spells.before (h : Spells cs ts) : SpellsBefore cs ts :=
  fun rest _ => h rest

theorem tokens?_of_spells {cs : List Char} {ts : List Token} (h : Spells cs ts) :
    tokens? cs = some ts := by
  have hr := h []
  rwa [List.append_nil, tokens?, Option.map_some, List.append_nil] at hr

theorem map_append (o : Option (List Token)) :
    (o.map (us ++ ·)).map (ts ++ ·) = o.map (ts ++ us ++ ·) := by
  rw [Option.map_map]
  exact congrArg o.map (funext fun vs => (List.append_assoc ts us vs).symm)

theorem Spells.append_before (ha : Spells as ts) (hb : SpellsBefore bs us) :
    SpellsBefore (as ++ bs) (ts ++ us) := by
  intro rest hr
  rw [List.append_assoc, ha, hb rest hr, map_append]

theorem Spells.append (ha : Spells as ts) (hb : Spells bs us) : Spells (as ++ bs) (ts ++ us) := by
  intro rest
  rw [List.append_assoc, ha, hb, map_append]

theorem SpellsBefore.append (ha : SpellsBefore as ts) (hc : ∀ rest, EndsNumber (bs ++ rest))
    (hb : Spells bs us) : Spells (as ++ bs) (ts ++ us) := by
  intro rest
  rw [List.append_assoc, ha _ (hc rest), hb, map_append]

theorem spells_mark (h : isMark c = true) : Spells [c] [.mark c] :=
  fun rest => tokens?_mark h rest

theorem spells_gap (h : isGap c = true) (hb : Spells bs us) : Spells (c :: bs) us := by
  intro rest
  rw [List.cons_append, tokens?_gap h, hb]

theorem spells_nil : Spells [] [] := by
  intro rest
  exact Option.map_id'.symm

theorem spells_newLine (level : Nat) : Spells (newLine level) [] := by
  refine spells_gap rfl ?_
  induction 2 * level with
  | zero => exact spells_nil
  | succ k ih => exact spells_gap rfl ih

theorem endsNumber_newLine (level : Nat) (rest : List Char) : EndsNumber (newLine level ++ rest) :=
  endsNumber_gap rfl _

end Tokens

/-- The tokens of a bracketed list. -/
def listTokens (start close : Char) (items : List (List Token)) : List Token :=
  .mark start :: (List.intercalate [.mark ','] items ++ [.mark close])

section Lists

variable {α : Type} {f : α → List Char} {g : α → List Token} {xs : List α} {start close : Char}

theorem spells_items (level : Nat) (hx : xs ≠ []) (h : ∀ x ∈ xs, SpellsBefore (f x) (g x)) :
    SpellsBefore (List.intercalate (',' :: newLine level) (xs.map f))
      (List.intercalate [.mark ','] (xs.map g)) := by
  induction xs with
  | nil => exact absurd rfl hx
  | cons x xs ih =>
    cases xs with
    | nil =>
      rw [List.map_singleton, List.map_singleton, List.intercalate_singleton,
        List.intercalate_singleton]
      exact h x List.mem_cons_self
    | cons y xs =>
      have hc : isMark ',' = true := by decide
      have hs : Spells (',' :: newLine level) [.mark ','] :=
        (spells_mark hc).append (spells_newLine level)
      -- a number at the end of the item ends at the comma
      have hxy := (h x List.mem_cons_self).append (fun _ => endsNumber_mark hc _) hs
      rw [List.map_cons, List.map_cons, List.map_cons, List.map_cons,
        List.intercalate_cons_cons, List.intercalate_cons_cons]
      exact hxy.append_before
        (ih (List.cons_ne_nil y xs) fun z hz => h z (List.mem_cons_of_mem x hz))

theorem spells_inLines (level : Nat) (hs : isMark start = true) (hc : isMark close = true)
    (h : ∀ x ∈ xs, SpellsBefore (f x) (g x)) :
    Spells (inLines level start close (xs.map f)) (listTokens start close (xs.map g)) := by
  cases xs with
  | nil => exact (spells_mark hs).append (spells_mark hc)
  | cons x xs =>
    have hn : ¬((x :: xs).map f).isEmpty = true := Bool.false_ne_true
    have hi := spells_items (level + 1) (List.cons_ne_nil x xs) h
    have hopen := (spells_mark hs).append (spells_newLine (level + 1))
    have hbody := (hopen.append_before hi).append (endsNumber_newLine level)
      (spells_newLine level)
    rw [inLines, if_neg hn, listTokens]
    have ha := hbody.append (spells_mark hc)
    rw [List.append_nil, List.append_nil] at ha
    exact ha

end Lists

def valueToken : Value → Token
  | .number n => .number n.canonical
  | .text s => .text s

def memberTokens (name : String) (ts : List Token) : List Token :=
  .text name :: .mark ':' :: ts

def tupleTokens (t : Tuple) : List Token :=
  listTokens '\x7b' '\x7d' (t.attributes.map fun a => memberTokens a.1 [valueToken a.2])

def relationTokens (r : Relation) : List Token :=
  listTokens '[' ']' (r.map tupleTokens)

def namedTokens (rs : List (String × Relation)) : List Token :=
  listTokens '\x7b' '\x7d' (rs.map fun r => memberTokens r.1 (relationTokens r.2))

theorem spells_text (s : String) : Spells (writeText s) [.text s] :=
  fun rest => tokens?_text s rest

theorem spells_value {v : Value} (h : v.ReadsBack) :
    SpellsBefore (writeValue v) [valueToken v] := by
  cases v with
  | number n => exact fun rest hr => tokens?_number (h n rfl) hr
  | text s => exact (spells_text s).before

theorem spells_member (name : String) {cs : List Char} {ts : List Token}
    (h : SpellsBefore cs ts) :
    SpellsBefore (writeText name ++ ':' :: ' ' :: cs) (memberTokens name ts) := by
  have hc : Spells [':', ' '] [.mark ':'] :=
    (spells_mark (by decide)).append (spells_gap rfl spells_nil)
  exact (spells_text name).append_before (hc.append_before h)

theorem spells_tuple (level : Nat) {t : Tuple} (h : ∀ a ∈ t.attributes, a.2.ReadsBack) :
    Spells (indentedTuple level t) (tupleTokens t) :=
  spells_inLines level (by decide) (by decide) fun a ha => spells_member a.1 (spells_value (h a ha))

theorem spells_relation (level : Nat) {r : Relation}
    (h : ∀ t ∈ r, ∀ a ∈ t.attributes, a.2.ReadsBack) :
    Spells (indentedRelation level r) (relationTokens r) :=
  spells_inLines level (by decide) (by decide) fun t ht =>
    (spells_tuple (level + 1) (h t ht)).before

theorem spells_named {rs : List (String × Relation)}
    (h : ∀ r ∈ rs, ∀ t ∈ r.2, ∀ a ∈ t.attributes, a.2.ReadsBack) :
    Spells (writeNamedRelations rs).toList (namedTokens rs) := by
  rw [writeNamedRelations, String.toList_ofList]
  exact spells_inLines 0 (by decide) (by decide) fun r hr =>
    spells_member r.1 (spells_relation 1 (h r hr)).before

end Json

end RelAlg
