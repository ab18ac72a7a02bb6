import RelAlg.Json.Reader
import RelAlg.Proofs.Json.Layout
import RelAlg.Proofs.Tuple.Content
import RelAlg.Proofs.Tuple.Lookup

set_option autoImplicit false

namespace RelAlg

namespace Tuple

def canonical (t : Tuple) : Tuple :=
  ⟨t.attributes.map fun a => (a.1, a.2.canonical), by
    rw [List.map_map]
    exact t.nodup⟩

theorem names_canonical (t : Tuple) : t.canonical.names = t.names :=
  List.map_map

theorem same_canonical (t : Tuple) : t.same t.canonical = true := by
  refine same_iff_key.2 ?_
  simp only [key, canonical, List.map_map, Function.comp_def, Value.canonical_canonical]

end Tuple

namespace Json

section Readers

variable {α β : Type} {item : Reader α} {ts mid rest : List Token} {a : α} {as : List α}
  {start close : Char}

/-- What a reader takes and what it leaves, without the proof that this is shorter. -/
def taken (item : Reader α) (ts : List Token) : Option (α × List Token) :=
  (item ts).map fun p => (p.1, p.2.1)

theorem taken_iff : taken item ts = some (a, rest) ↔ ∃ h, item ts = some (a, ⟨rest, h⟩) := by
  constructor
  · intro h
    obtain ⟨⟨b, r, hl⟩, hi, hp⟩ := Option.map_eq_some_iff.1 h
    cases hp
    exact ⟨hl, hi⟩
  · rintro ⟨hl, hi⟩
    rw [taken, hi]
    rfl

theorem taken_separated_last (h : taken item ts = some (a, .mark close :: rest)) :
    taken (separated close item) ts = some ([a], rest) := by
  obtain ⟨hl, hi⟩ := taken_iff.1 h
  rw [taken, separated, hi]
  dsimp only
  rw [if_pos rfl]
  rfl

theorem taken_separated_more (hc : close ≠ ',') (h : taken item ts = some (a, .mark ',' :: mid))
    (hm : taken (separated close item) mid = some (as, rest)) :
    taken (separated close item) ts = some (a :: as, rest) := by
  obtain ⟨hl, hi⟩ := taken_iff.1 h
  obtain ⟨hl', hs⟩ := taken_iff.1 hm
  rw [taken, separated, hi]
  dsimp only
  rw [if_neg hc.symm, if_pos rfl, hs]
  rfl

theorem taken_bracketed_nil :
    taken (bracketed start close item) (.mark start :: .mark close :: rest) = some ([], rest) := by
  rw [taken, bracketed, if_pos rfl, if_pos rfl]
  rfl

theorem taken_bracketed (hc : ts.head? ≠ some (.mark close))
    (h : taken (separated close item) ts = some (as, rest)) :
    taken (bracketed start close item) (.mark start :: ts) = some (as, rest) := by
  obtain ⟨hl, hi⟩ := taken_iff.1 h
  rw [taken, bracketed.eq_def]
  dsimp only
  rw [if_pos rfl]
  split
  · rename_i d ts
    have hd : ¬d = close := by
      rintro rfl
      exact hc rfl
    rw [if_neg hd, hi]
    rfl
  · rw [hi]
    rfl

/-- Just these tokens are taken, for this. -/
def Takes (item : Reader α) (ts : List Token) (a : α) : Prop :=
  ∀ rest, taken item (ts ++ rest) = some (a, rest)

theorem takes_value (v : Value) : Takes value [valueToken v] v.canonical := by
  intro rest
  cases v <;> rfl

theorem takes_member (name : String) (h : Takes item ts a) :
    Takes (member item) (memberTokens name ts) (name, a) := by
  intro rest
  obtain ⟨hl, hi⟩ := taken_iff.1 (h rest)
  have hm : memberTokens name ts ++ rest = .text name :: .mark ':' :: (ts ++ rest) := rfl
  rw [taken, hm, member, hi]
  rfl

variable {xs : List β} {g : β → List Token} {v : β → α}

theorem takes_separated (hc : close ≠ ',') (hx : xs ≠ [])
    (h : ∀ x ∈ xs, Takes item (g x) (v x)) :
    Takes (separated close item)
      (List.intercalate [.mark ','] (xs.map g) ++ [.mark close]) (xs.map v) := by
  induction xs with
  | nil => exact absurd rfl hx
  | cons x xs ih =>
    intro rest
    have hi := h x List.mem_cons_self
    cases xs with
    | nil =>
      rw [List.map_singleton, List.intercalate_singleton, List.append_assoc]
      exact taken_separated_last (hi _)
    | cons y xs =>
      have hr := ih (List.cons_ne_nil y xs) (fun z hz => h z (List.mem_cons_of_mem x hz)) rest
      rw [List.map_cons, List.map_cons, List.intercalate_cons_cons, List.append_assoc,
        List.append_assoc, List.append_assoc]
      rw [List.append_assoc] at hr
      exact taken_separated_more hc (hi _) hr

theorem head_items {sep t : Token} {ts : List Token} {tss : List (List Token)} :
    (List.intercalate [sep] ((t :: ts) :: tss)).head? = some t := by
  cases tss with
  | nil => rfl
  | cons us tss =>
    rw [List.intercalate_cons_cons]
    rfl

theorem takes_bracketed (hc : close ≠ ',') (h : ∀ x ∈ xs, Takes item (g x) (v x))
    (hg : ∀ x ∈ xs, ∃ t ts, g x = t :: ts ∧ t ≠ .mark close) :
    Takes (bracketed start close item) (listTokens start close (xs.map g)) (xs.map v) := by
  intro rest
  cases xs with
  | nil => exact taken_bracketed_nil
  | cons x xs =>
    obtain ⟨t, ts, ht, hne⟩ := hg x List.mem_cons_self
    refine taken_bracketed ?_ (takes_separated hc (List.cons_ne_nil x xs) h rest)
    rw [List.map_cons, ht, List.append_eq, List.append_assoc, List.head?_append, head_items,
      Option.some_or]
    exact fun he => hne (Option.some.inj he)

theorem takes_tuple (t : Tuple) : Takes tuple (tupleTokens t) t.canonical := by
  intro rest
  have hp : Takes (bracketed '\x7b' '\x7d' (member value)) (tupleTokens t)
      (t.attributes.map fun a => (a.1, a.2.canonical)) :=
    takes_bracketed (by decide) (fun a _ => takes_member a.1 (takes_value a.2))
      fun a _ => ⟨.text a.1, [.mark ':', valueToken a.2], rfl, Token.noConfusion⟩
  obtain ⟨hl, hi⟩ := taken_iff.1 (hp rest)
  rw [taken, tuple, hi]
  exact congrArg (fun u => some (u, rest)) (Tuple.ofPairs_attributes t.canonical)

theorem takes_relation (r : Relation) :
    Takes relation (relationTokens r) (r.map Tuple.canonical) :=
  takes_bracketed (by decide) (fun t _ => takes_tuple t)
    fun t _ => ⟨.mark '\x7b', _, rfl, by decide⟩

theorem takes_named (rs : List (String × Relation)) :
    Takes namedRelations (namedTokens rs) (rs.map fun r => (r.1, r.2.map Tuple.canonical)) :=
  takes_bracketed (by decide) (fun r _ => takes_member r.1 (takes_relation r.2))
    fun r _ => ⟨.text r.1, _, rfl, Token.noConfusion⟩

theorem read?_of_takes {text : String} (ht : tokens? text.toList = some ts)
    (h : Takes item ts a) : read? item text = some a := by
  have hr := h []
  rw [List.append_nil] at hr
  obtain ⟨hl, hi⟩ := taken_iff.1 hr
  rw [read?, ht]
  dsimp only
  rw [hi]

end Readers

/-- A relation whose numbers come back is read as it was written, up to the sign of zero. -/
theorem read?_writeRelation {r : Relation} (h : ∀ t ∈ r, ∀ a ∈ t.attributes, a.2.ReadsBack) :
    read? relation (writeRelation r) = some (r.map Tuple.canonical) := by
  refine read?_of_takes (tokens?_of_spells ?_) (takes_relation r)
  rw [writeRelation, String.toList_ofList]
  exact spells_relation 0 h

theorem read?_writeNamedRelations {rs : List (String × Relation)}
    (h : ∀ r ∈ rs, ∀ t ∈ r.2, ∀ a ∈ t.attributes, a.2.ReadsBack) :
    read? namedRelations (writeNamedRelations rs) =
      some (rs.map fun r => (r.1, r.2.map Tuple.canonical)) :=
  read?_of_takes (tokens?_of_spells (spells_named h)) (takes_named rs)

theorem writeValue_canonical (v : Value) : writeValue v.canonical = writeValue v := by
  cases v with
  | number n => exact writeNumber_canonical n
  | text s => rfl

theorem indentedTuple_canonical (level : Nat) (t : Tuple) :
    indentedTuple level t.canonical = indentedTuple level t := by
  simp only [indentedTuple, Tuple.canonical, List.map_map, Function.comp_def, writeValue_canonical]

theorem indentedRelation_canonical (level : Nat) (r : Relation) :
    indentedRelation level (r.map Tuple.canonical) = indentedRelation level r := by
  simp only [indentedRelation, List.map_map, Function.comp_def, indentedTuple_canonical]

theorem writeRelation_canonical (r : Relation) :
    writeRelation (r.map Tuple.canonical) = writeRelation r := by
  rw [writeRelation, indentedRelation_canonical, writeRelation]

theorem writeNamedRelations_canonical (rs : List (String × Relation)) :
    writeNamedRelations (rs.map fun r => (r.1, r.2.map Tuple.canonical)) =
      writeNamedRelations rs := by
  simp only [writeNamedRelations, List.map_map, Function.comp_def, indentedRelation_canonical]

end Json

end RelAlg
