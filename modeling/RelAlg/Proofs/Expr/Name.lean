import RelAlg.Expr.Eval
import RelAlg.Proofs.Expr.Chain
import RelAlg.Proofs.Expr.RoundTrip
import RelAlg.Proofs.Store.Names

set_option autoImplicit false

namespace RelAlg.Expr

open Nesting Text

abbrev Undivided (cs : List Char) : Prop :=
  ∀ s ∈ BinaryOp.spellings, ¬s.1 <:+: cs

/-- The text starts with a unary operator and a space. -/
def Leads (spelling cs : List Char) : Prop :=
  spelling ++ [' '] <+: cs

instance (spelling cs : List Char) : Decidable (Leads spelling cs) :=
  inferInstanceAs (Decidable (spelling ++ [' '] <+: cs))

section Scan

variable {cs : List Char}

theorem splitFrom_undivided (h : Undivided cs) (n : Nesting) : splitFrom n cs = none := by
  induction cs generalizing n with
  | nil => rfl
  | cons c cs ih =>
    have hs : startsWith? BinaryOp.spellings (c :: cs) = none := by
      rw [startsWith?, List.find?_eq_none]
      intro s hm hp
      exact h s hm (List.isPrefixOf_iff_prefix.1 hp).isInfix
    have ht : Undivided cs := fun s hm hi => h s hm (hi.trans (List.suffix_cons c cs).isInfix)
    rw [splitFrom, hs, ite_self, ih ht]
    rfl

/-- Where there is no bracket, an operator is seen just if a space follows it. -/
theorem seen_iff (hg : Ungrouped cs) (spelling : List Char) :
    (spelling.isPrefixOf cs && (cs[spelling.length]?).any fun c => c = '[' || c = ' ') = true ↔
      Leads spelling cs := by
  rw [Bool.and_eq_true, List.isPrefixOf_iff_prefix, Leads]
  constructor
  · rintro ⟨⟨rest, rfl⟩, ha⟩
    rw [List.getElem?_append_right (Nat.le_refl _), Nat.sub_self, Option.any_eq_true] at ha
    obtain ⟨c, hc, hs⟩ := ha
    obtain ⟨more, rfl⟩ := List.head?_eq_some_iff.1 (List.head?_eq_getElem?.trans hc)
    have hb : c ≠ '[' := (hg c (by simp)).2.2.1
    obtain rfl : c = ' ' := by simpa [hb] using hs
    exact ⟨more, by simp⟩
  · rintro ⟨rest, rfl⟩
    rw [List.append_assoc]
    exact ⟨List.prefix_append _ _, by simp⟩

theorem unaryOp?_eq_none (hg : Ungrouped cs) (h : ∀ u ∈ UnaryOp.spellings, ¬Leads u.1 cs) :
    unaryOp? cs = none := by
  rw [unaryOp?, List.find?_eq_none]
  exact fun u hu hs => h u hu ((seen_iff hg u.1).1 hs)

theorem leads_unique {u v : List Char × UnaryOp} (hu : u ∈ UnaryOp.spellings)
    (hv : v ∈ UnaryOp.spellings) (hl : Leads u.1 cs) (hl' : Leads v.1 cs) : u = v := by
  have hapart : ∀ u ∈ UnaryOp.spellings, ∀ v ∈ UnaryOp.spellings,
      u.1 ++ [' '] <+: v.1 ++ [' '] → u = v := by decide
  obtain h | h := List.prefix_or_prefix_of_prefix hl hl'
  · exact hapart u hu v hv h
  · exact (hapart v hv u hu h).symm

theorem unaryOp?_eq_some (hg : Ungrouped cs) {u : List Char × UnaryOp}
    (hu : u ∈ UnaryOp.spellings) (hl : Leads u.1 cs) : unaryOp? cs = some u := by
  cases h : unaryOp? cs with
  | none =>
    rw [unaryOp?, List.find?_eq_none] at h
    exact absurd ((seen_iff hg u.1).2 hl) (h u hu)
  | some v =>
    have hs := List.find?_some (p := fun s : List Char × UnaryOp =>
      s.1.isPrefixOf cs && (cs[s.1.length]?).any fun c => c = '[' || c = ' ') h
    rw [leads_unique (List.mem_of_find?_eq_some h) hu ((seen_iff hg v.1).1 hs) hl]

end Scan

section Parse

variable {limit levels : Nat} {cs : List Char}

theorem parseLevels_plain (hf : Framed cs) (hg : Ungrouped cs) (ho : Undivided cs)
    (hu : ∀ u ∈ UnaryOp.spellings, ¬Leads u.1 cs) :
    parseLevels limit (levels + 1) cs = .ok (.relation (String.ofList cs)) :=
  parseLevels_ungrouped hf hg (splitFrom_undivided ho .start) (unaryOp?_eq_none hg hu)

theorem parseLevels_leads (hf : Framed cs) (hg : Ungrouped cs) (ho : Undivided cs)
    {u : List Char × UnaryOp} (hu : u ∈ UnaryOp.spellings) (hl : Leads u.1 cs) :
    parseLevels limit (levels + 1) cs =
      .error (.parse (.missingArgument (String.ofList u.1)) (String.ofList cs)) := by
  have hs : split? cs = none := splitFrom_undivided ho .start
  have hd : (cs.drop u.1.length).dropWhile (· != '[') = [] := by
    rw [List.dropWhile_eq_nil_iff]
    intro c hc
    exact bne_iff_ne.2 (hg c (List.mem_of_mem_drop hc)).2.2.1
  have ha : application u.1 u.2 cs = fail (.missingArgument (String.ofList u.1)) cs := by
    simp only [application, hd]
  simp only [parseLevels, hf.2, if_neg hf.not_isEmpty, hs, unaryOp?_eq_some hg hu hl, ha]
  rfl

def Operand.grouped {e : Expr} (hc : Closed cs) (h : parse levels cs = .ok e) : Operand where
  text := '(' :: cs ++ [')']
  expr := e
  levels := levels + 1
  trimmed := (framed_paren cs).2
  accepted := by
    rw [parse, parseLevels_paren (hc.inner 0)]
    exact parseLevels_mono h (Nat.le_succ levels) (Nat.le_refl levels)
  unsplit := by
    rw [split?, splitFrom_append (unsplit_paren (hc.inner 0))]
    rfl
  closed := (hc.paren 0).1

end Parse

/-- The name stands for its relation wherever an expression can stand. -/
structure Refers (limit : Nat) (s : Store) (name : String) (r : Relation) : Prop where
  parsed : parse limit name.toList = .ok (.relation name)
  value : (Expr.relation name).eval s = .ok r
  grouped : parse (limit + 1) ('(' :: name.toList ++ [')']) = .ok (.relation name)
  input (op : UnaryOp) {argument : List Char} (ha : Argument argument) (hb : ']' ∉ argument) :
    parse (limit + 1) (applied op.sign argument name.toList) =
      Application.toExpr ⟨op, trim argument, name.toList⟩ (limit + 1)
        (applied op.sign argument name.toList) (.relation name)
  operand {token : List Char} {op : BinaryOp} (ht : (token, op) ∈ BinaryOp.spellings)
    (o : Operand) (hl : o.levels ≤ limit + 1) :
    parse (limit + 2) ('(' :: name.toList ++ [')'] ++ token ++ o.text) =
        .ok (.binary op (.relation name) o.expr) ∧
      parse (limit + 2) (o.text ++ token ++ ('(' :: name.toList ++ [')'])) =
        .ok (.binary op o.expr (.relation name))

theorem refers_of_plain {limit : Nat} (hl : 1 ≤ limit) {s : Store} {name : String} {r : Relation}
    (hs : s.get? name = some r) (hf : Framed name.toList) (hg : Ungrouped name.toList)
    (ho : Undivided name.toList) (hu : ∀ u ∈ UnaryOp.spellings, ¬Leads u.1 name.toList) :
    Refers limit s name r := by
  have hc : Closed name.toList := closed_of_ungrouped hg
  have hp : ∀ limit levels, parseLevels limit (levels + 1) name.toList = .ok (.relation name) := by
    intro limit levels
    rw [parseLevels_plain hf hg ho hu, String.ofList_toList]
  obtain ⟨levels, rfl⟩ := Nat.exists_eq_add_of_le' hl
  refine ⟨hp _ _, ?_, ?_, fun op argument ha hb => ?_, fun {token op} ht o hle => ?_⟩
  · rw [eval, hs]
  · rw [parse, parseLevels_paren (hc.inner 0), hp]
  · rw [parse, parseLevels_applied op ha hb hc, hp]
    rfl
  · let n : Operand := .grouped hc (hp 1 0)
    have hn : n.levels ≤ levels + 1 + 1 := by
      change 2 ≤ levels + 1 + 1
      omega
    constructor
    · refine parseLevels_chain (Nat.le_refl _) n [⟨token, op, ht, o⟩] ?_
      simp only [List.map_cons, List.map_nil, List.length_singleton, List.forall_mem_cons]
      exact ⟨by omega, by omega, List.forall_mem_nil _⟩
    · refine parseLevels_chain (Nat.le_refl _) o [⟨token, op, ht, n⟩] ?_
      simp only [List.map_cons, List.map_nil, List.length_singleton, List.forall_mem_cons]
      exact ⟨by omega, by omega, List.forall_mem_nil _⟩

/-- The name of a relation finds the relation, and if it is free of grouping and of binary operators
it stands for it in expressions too, exactly if it does not start with a unary operator and a space:
such a name is refused under every limit, in parentheses as well. -/
theorem parse_stored_name {s : Store} (hb : s.Built) {name : String} {r : Relation}
    (hs : s.get? name = some r) (hg : Ungrouped name.toList) (ho : Undivided name.toList)
    {limit : Nat} (hl : 1 ≤ limit) :
    s.query limit name = .ok r ∧
    ((∀ u ∈ UnaryOp.spellings, ¬Leads u.1 name.toList) → Refers limit s name r) ∧
    ∀ u ∈ UnaryOp.spellings, Leads u.1 name.toList →
      parse limit name.toList = .error (.parse (.missingArgument (String.ofList u.1)) name) ∧
      parse (limit + 1) ('(' :: name.toList ++ [')']) =
        .error (.parse (.missingArgument (String.ofList u.1)) name) := by
  obtain ⟨st, hst, -⟩ := Option.map_eq_some_iff.1 hs
  have hn : Store.Named name := hb.named name st hst
  have hf := hn.framed
  refine ⟨?_, refers_of_plain hl hs hf hg ho, fun u hu hlead => ?_⟩
  · rw [Store.query, hn.1, hs]
  · have he : ∀ limit levels, parseLevels limit (levels + 1) name.toList =
        .error (.parse (.missingArgument (String.ofList u.1)) name) := by
      intro limit levels
      rw [parseLevels_leads hf hg ho hu hlead, String.ofList_toList]
    obtain ⟨levels, rfl⟩ := Nat.exists_eq_add_of_le' hl
    refine ⟨he _ _, ?_⟩
    rw [parse, parseLevels_paren ((closed_of_ungrouped hg).inner 0), he]

theorem parse_stored_name_quoted :
    let s := Store.run [.create "Selected 'R -S" ["a"]]
    s.get? "Selected 'R -S" = some [] ∧
    parse 1 "Selected 'R -S".toList = .ok (relation "Selected 'R -S") ∧
    parse 2 "(Selected 'R -S)".toList = .ok (relation "Selected 'R -S") := by
  intro s
  have hb : s.Built := Store.built_run _
  have hs : s.get? "Selected 'R -S" = some [] := by decide +kernel
  have hg : Ungrouped "Selected 'R -S".toList := by simp [Ungrouped]
  have ho : Undivided "Selected 'R -S".toList := by decide +kernel
  have hu : ∀ u ∈ UnaryOp.spellings, ¬Leads u.1 "Selected 'R -S".toList := by decide +kernel
  have h := (parse_stored_name hb hs hg ho (Nat.le_refl 1)).2.1 hu
  exact ⟨hs, h.parsed, h.grouped⟩

theorem parse_stored_name_leading :
    let s := Store.run [.create "Select R" ["a"]]
    s.get? "Select R" = some [] ∧ s.query 1 "Select R" = .ok [] ∧
    Ungrouped "Select R".toList ∧ Undivided "Select R".toList ∧
    parse 1 "Select R".toList ≠ .ok (relation "Select R") ∧
    ∀ e, parse 2 "(Select R)".toList ≠ .ok e := by
  have h₁ : parse 1 "Select R".toList =
      .error (.parse (.missingArgument "Select") "Select R") := rfl
  have h₂ : parse 2 "(Select R)".toList =
      .error (.parse (.missingArgument "Select") "Select R") := rfl
  refine ⟨by decide +kernel, by decide +kernel, by simp [Ungrouped], by decide +kernel, ?_, ?_⟩
  · rw [h₁]
    nofun
  · rw [h₂]
    nofun

end RelAlg.Expr
