import RelAlg.Proofs.Json.Document

set_option autoImplicit false

namespace RelAlg

namespace Value

/-- If it is a number, then a finite one. -/
def Finite (v : Value) : Prop :=
  ∀ n, v = .number n → n.isFinite = true

theorem finite_text (s : String) : (text s).Finite :=
  fun _ h => Value.noConfusion h

theorem finite_number {n : Number} (h : n.isFinite = true) : (number n).Finite := by
  intro m hm
  cases hm
  exact h

theorem finite_ofInput (s : String) : (ofInput s).Finite := by
  rw [ofInput]
  split
  · rename_i h
    exact finite_number (Option.filter_eq_some_iff.1 h).2
  · exact finite_text s

end Value

namespace Tuple

def Finite (t : Tuple) : Prop :=
  ∀ k v, t.get? k = some v → v.Finite

theorem finite_empty : Finite empty := fun _ _ h => by cases h

variable {t : Tuple}

theorem Finite.set (h : t.Finite) (name : String) {value : Value} (hv : value.Finite) :
    (t.set name value).Finite := by
  intro k v hk
  rw [get?_set] at hk
  split at hk
  · cases hk
    exact hv
  · exact h k v hk

theorem Finite.setAll (h : t.Finite) {pairs : List Attribute} (hp : ∀ a ∈ pairs, a.2.Finite) :
    (t.setAll pairs).Finite := by
  induction pairs generalizing t with
  | nil => exact h
  | cons a pairs ih =>
    exact ih (h.set a.1 (hp a List.mem_cons_self)) fun b hb => hp b (List.mem_cons_of_mem a hb)

theorem finite_ofPairs {pairs : List Attribute} (h : ∀ a ∈ pairs, a.2.Finite) :
    (ofPairs pairs).Finite :=
  finite_empty.setAll h

theorem Finite.project (h : t.Finite) (names : List String) : (t.project names).Finite := by
  intro k v hk
  rw [get?_project] at hk
  split at hk
  · exact h k v hk
  · cases hk

end Tuple

namespace Relation

def Finite (r : Relation) : Prop :=
  ∀ t ∈ r, t.Finite

end Relation

namespace Json

def FiniteTokens (ts : List Token) : Prop :=
  ∀ n, .number n ∈ ts → n.isFinite = true

theorem isFinite_of_token {c : Char} {cs : List Char} {n : Number}
    {rest : { rest : List Char // rest.length < (c :: cs).length }}
    (h : Token.read? c cs = some (.number n, rest)) : n.isFinite = true := by
  rw [Token.read?] at h
  split at h
  · cases h
  · split at h
    · split at h <;> cases h
    · split at h
      · cases h
      · rename_i hn
        cases h
        exact isFinite_of_readNumber? hn

theorem finite_tokens? {cs : List Char} {ts : List Token} (h : tokens? cs = some ts) :
    FiniteTokens ts := by
  fun_induction tokens? cs generalizing ts with
  | case1 =>
    cases h
    exact fun n hn => by cases hn
  | case2 c cs hg ih => exact ih h
  | case3 c cs hg hr => cases h
  | case4 c cs hg t rest hr ih =>
    obtain ⟨us, hu, rfl⟩ := Option.map_eq_some_iff.1 h
    intro n hn
    rcases List.mem_cons.1 hn with rfl | hn
    · exact isFinite_of_token hr
    · exact ih hu n hn

section Readers

variable {α : Type} {item : Reader α} {P : α → Prop} {ts rest : List Token} {a : α}
  {as : List α} {start close : Char}

/-- From finite numbers the reader takes something of a kind and leaves finite numbers. -/
def Yields (item : Reader α) (P : α → Prop) : Prop :=
  ∀ ts a rest, FiniteTokens ts → taken item ts = some (a, rest) → P a ∧ FiniteTokens rest

theorem FiniteTokens.tail {t : Token} (h : FiniteTokens (t :: ts)) : FiniteTokens ts :=
  fun n hn => h n (List.mem_cons_of_mem t hn)

theorem taken_separated_cases (h : taken (separated close item) ts = some (as, rest)) :
    (∃ a, taken item ts = some (a, .mark close :: rest) ∧ as = [a]) ∨
      ∃ a bs mid, taken item ts = some (a, .mark ',' :: mid) ∧ mid.length < ts.length ∧
        taken (separated close item) mid = some (bs, rest) ∧ as = a :: bs := by
  obtain ⟨hl, hs⟩ := taken_iff.1 h
  rw [separated] at hs
  split at hs
  · rename_i a c mid hm hi
    split_ifs at hs with hc hd
    · cases hs
      rw [hc] at hi hm
      exact .inl ⟨a, taken_iff.2 ⟨_, hi⟩, rfl⟩
    · obtain ⟨⟨bs, r, hr⟩, hb, hp⟩ := Option.map_eq_some_iff.1 hs
      cases hp
      subst hd
      exact .inr ⟨a, bs, mid, taken_iff.2 ⟨_, hi⟩, Nat.lt_of_succ_lt hm, taken_iff.2 ⟨_, hb⟩, rfl⟩
  · cases hs

theorem taken_bracketed_cases (h : taken (bracketed start close item) ts = some (as, rest)) :
    (as = [] ∧ ts = .mark start :: .mark close :: rest) ∨
      ∃ us, ts = .mark start :: us ∧ taken (separated close item) us = some (as, rest) := by
  obtain ⟨hl, hs⟩ := taken_iff.1 h
  rw [bracketed.eq_def] at hs
  split at hs
  · rename_i c us
    split_ifs at hs with hc
    subst hc
    split at hs
    · rename_i d us
      split_ifs at hs with hd
      · cases hs
        rw [hd]
        exact .inl ⟨rfl, rfl⟩
      · obtain ⟨⟨bs, r, hr⟩, hb, hp⟩ := Option.map_eq_some_iff.1 hs
        cases hp
        exact .inr ⟨_, rfl, taken_iff.2 ⟨_, hb⟩⟩
    · obtain ⟨⟨bs, r, hr⟩, hb, hp⟩ := Option.map_eq_some_iff.1 hs
      cases hp
      exact .inr ⟨_, rfl, taken_iff.2 ⟨_, hb⟩⟩
  · cases hs

theorem Yields.separated (h : Yields item P) :
    Yields (separated close item) fun as => ∀ a ∈ as, P a := by
  intro ts as rest hf ht
  induction hn : ts.length using Nat.strong_induction_on generalizing ts as with
  | _ n ih =>
    obtain ⟨a, ha, rfl⟩ | ⟨a, bs, mid, ha, hl, hb, rfl⟩ := taken_separated_cases ht
    · obtain ⟨hp, hr⟩ := h _ _ _ hf ha
      exact ⟨List.forall_mem_singleton.2 hp, hr.tail⟩
    · obtain ⟨hp, hr⟩ := h _ _ _ hf ha
      obtain ⟨hps, hr⟩ := ih _ (hl.trans_eq hn) mid bs hr.tail hb rfl
      exact ⟨List.forall_mem_cons.2 ⟨hp, hps⟩, hr⟩

theorem Yields.bracketed (h : Yields item P) :
    Yields (bracketed start close item) fun as => ∀ a ∈ as, P a := by
  intro ts as rest hf ht
  obtain ⟨rfl, rfl⟩ | ⟨us, rfl, hs⟩ := taken_bracketed_cases ht
  · exact ⟨List.forall_mem_nil P, hf.tail.tail⟩
  · exact h.separated _ _ _ hf.tail hs

theorem Yields.member (h : Yields item P) : Yields (member item) fun p => P p.2 := by
  rintro ts ⟨name, a⟩ rest hf ht
  obtain ⟨hl, hm⟩ := taken_iff.1 ht
  rw [Json.member.eq_def] at hm
  split at hm
  · obtain ⟨⟨b, r, hr⟩, hb, hp⟩ := Option.map_eq_some_iff.1 hm
    cases hp
    exact h _ _ _ hf.tail.tail (taken_iff.2 ⟨_, hb⟩)
  · cases hm

theorem yields_value : Yields value Value.Finite := by
  intro ts v rest hf ht
  obtain ⟨hl, hv⟩ := taken_iff.1 ht
  rw [value.eq_def] at hv
  split at hv
  · rename_i n us
    cases hv
    exact ⟨Value.finite_number (hf n List.mem_cons_self), hf.tail⟩
  · cases hv
    exact ⟨Value.finite_text _, hf.tail⟩
  · cases hv

theorem yields_tuple : Yields tuple Tuple.Finite := by
  intro ts t rest hf ht
  obtain ⟨hl, hr⟩ := taken_iff.1 ht
  obtain ⟨⟨ps, r, hr⟩, hb, hp⟩ := Option.map_eq_some_iff.1 hr
  cases hp
  obtain ⟨hps, hrest⟩ := yields_value.member.bracketed _ _ _ hf (taken_iff.2 ⟨_, hb⟩)
  exact ⟨Tuple.finite_ofPairs hps, hrest⟩

theorem yields_relation : Yields relation Relation.Finite :=
  yields_tuple.bracketed

theorem finite_of_read? {text : String} {rs : List (String × Relation)}
    (h : read? namedRelations text = some rs) : ∀ r ∈ rs, r.2.Finite := by
  rw [read?] at h
  split at h
  · cases h
  · rename_i ts ht
    split at h
    · rename_i hr
      cases h
      exact (yields_relation.member.bracketed _ _ _ (finite_tokens? ht) (taken_iff.2 ⟨_, hr⟩)).1
    · cases h

end Readers

end Json

end RelAlg
