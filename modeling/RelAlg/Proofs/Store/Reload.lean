import RelAlg.Proofs.Store.Finite
import RelAlg.Proofs.Text.Spans

set_option autoImplicit false

namespace RelAlg

namespace Stored

def fromFirst (r : Relation) : Stored := ⟨r.columns?.getD [], r⟩

variable {name : String} {columns : List String} {ts : Relation}

theorem foldlM_conforming {us : Relation} (h : ∀ t ∈ us, t.names = columns) :
    us.foldlM (fun st t => st.append name t) ⟨columns, ts⟩ =
      (.ok ⟨columns, ts ++ us⟩ : Except StoreError Stored) := by
  induction us generalizing ts with
  | nil =>
    rw [List.append_nil]
    rfl
  | cons t us ih =>
    obtain ⟨ht, hus⟩ := List.forall_mem_cons.1 h
    rw [List.foldlM_cons, append_names ht]
    refine (ih hus).trans ?_
    rw [List.append_assoc]
    rfl

theorem ofRelation_conforming (h : ∀ t ∈ ts, t.names = columns) :
    ofRelation name ts = .ok (fromFirst ts) := by
  cases ts with
  | nil => rfl
  | cons t ts =>
    have hc : (Relation.columns? (t :: ts)).getD [] = columns := h t List.mem_cons_self
    rw [ofRelation, fromFirst, hc]
    exact foldlM_conforming h

/-- The tuples carry the columns in their order, and some. -/
def Uniform (st : Stored) : Prop :=
  ∀ t ∈ st.tuples, t.names = st.columns ∧ t.names ≠ []

theorem Uniform.ofRelation_canonical {st : Stored} (h : st.Uniform) :
    ofRelation name (st.tuples.map Tuple.canonical) =
      .ok (fromFirst (st.tuples.map Tuple.canonical)) := by
  have hn : ∀ t ∈ st.tuples.map Tuple.canonical, t.names = st.columns := by
    intro t ht
    obtain ⟨u, hu, rfl⟩ := List.mem_map.1 ht
    exact u.names_canonical.trans (h u hu).1
  exact ofRelation_conforming hn

theorem Uniform.columns_fromFirst {st : Stored} (h : st.Uniform) :
    (fromFirst (st.tuples.map Tuple.canonical)).columns =
      if st.tuples.isEmpty then [] else st.columns := by
  cases ht : st.tuples with
  | nil => rfl
  | cons t ts =>
    have hm : t ∈ st.tuples := ht ▸ List.mem_cons_self
    exact t.names_canonical.trans (h t hm).1

end Stored

namespace Store

variable {s : Store}

theorem All.of_mem {p : String → Stored → Prop} (h : s.All p) :
    ∀ e ∈ s.relations.entries, p e.1 e.2 :=
  fun e he => h e.1 e.2 (NameMap.get?_of_mem he)

theorem foldlM_insertRelation {rs : List (String × Relation)} (hn : ∀ r ∈ rs, Named r.1)
    (hr : ∀ r ∈ rs, Stored.ofRelation r.1 r.2 = .ok (.fromFirst r.2))
    (hs : (s.relations.entries.map Prod.fst ++ rs.map Prod.fst).Pairwise (· < ·)) :
    ∃ s', rs.foldlM (fun s r => s.insertRelation r.1 r.2) s = .ok s' ∧
      s'.relations.entries =
        s.relations.entries ++ rs.map fun r => (r.1, Stored.fromFirst r.2) := by
  induction rs generalizing s with
  | nil => exact ⟨s, rfl, (List.append_nil _).symm⟩
  | cons r rs ih =>
    obtain ⟨hn₁, hn⟩ := List.forall_mem_cons.1 hn
    obtain ⟨hr₁, hr⟩ := List.forall_mem_cons.1 hr
    -- the next name is behind all the stored ones, so it is free and goes to the end
    have hlast : ∀ e ∈ s.relations.entries, e.1 < r.1 := fun e he =>
      (List.pairwise_append.1 hs).2.2 e.1 (List.mem_map_of_mem he) r.1 List.mem_cons_self
    have hput : (s.put r.1 (.fromFirst r.2)).relations.entries =
        s.relations.entries ++ [(r.1, .fromFirst r.2)] := NameMap.put_last _ hlast
    have hi : s.insertRelation r.1 r.2 = .ok (s.put r.1 (.fromFirst r.2)) := by
      rw [insertRelation, newName_of_free hn₁ (NameMap.lookup_last hlast)]
      exact congrArg (fun x => do return s.put r.1 (← x)) hr₁
    obtain ⟨s', hf, he⟩ := ih hn hr (s := s.put r.1 (.fromFirst r.2)) (by
      rw [hput, List.map_append, List.append_assoc]
      exact hs)
    refine ⟨s', ?_, ?_⟩
    · rw [List.foldlM_cons, hi]
      exact hf
    · rw [he, hput, List.append_assoc]
      rfl

/-- What a dump says. -/
def dumped (s : Store) : NameMap Relation :=
  s.relations.map fun st => st.tuples.map Tuple.canonical

def reloaded (s : Store) : Store := ⟨s.dumped.map .fromFirst⟩

def values (s : Store) : List Value :=
  s.relations.entries.flatMap fun e => e.2.tuples.flatMap fun t => t.attributes.map Prod.snd

theorem mem_values {v : Value} : v ∈ s.values ↔ ∃ e ∈ s.relations.entries, ∃ t ∈ e.2.tuples,
    ∃ a ∈ t.attributes, a.2 = v := by
  simp only [values, List.mem_flatMap, List.mem_map]

theorem read?_toJson (hb : ∀ v ∈ s.values, v.ReadsBack) :
    Json.read? Json.namedRelations s.toJson = some s.dumped.entries := by
  refine (Json.read?_writeNamedRelations fun r hr t ht a ha => ?_).trans ?_
  · obtain ⟨e, he, rfl⟩ := List.mem_map.1 hr
    exact hb a.2 (mem_values.2 ⟨e, he, t, ht, a, ha, rfl⟩)
  · rw [List.map_map]
    rfl

/-- The dump of a store loads as the store again, but for what a dump leaves out. -/
theorem ofJson_toJson (hn : s.All fun name _ => Named name) (hu : s.All fun _ st => st.Uniform)
    (hb : ∀ v ∈ s.values, v.ReadsBack) : ofJson s.toJson = .ok s.reloaded := by
  have hnamed : ∀ r ∈ s.dumped.entries, Named r.1 := by
    intro r hr
    obtain ⟨e, he, rfl⟩ := List.mem_map.1 hr
    exact hn.of_mem e he
  have hstored : ∀ r ∈ s.dumped.entries,
      Stored.ofRelation r.1 r.2 = .ok (.fromFirst r.2) := by
    intro r hr
    obtain ⟨e, he, rfl⟩ := List.mem_map.1 hr
    exact (hu.of_mem e he).ofRelation_canonical
  obtain ⟨s', hf, he⟩ := foldlM_insertRelation (s := empty) hnamed hstored
    (List.pairwise_map.2 s.dumped.sorted)
  have hs : s' = s.reloaded := congrArg Store.mk (NameMap.ext he)
  rw [ofJson, read?_toJson hb, ← hs]
  dsimp only
  rw [NameMap.entries_ofList s.dumped.sorted]
  exact hf

theorem toJson_reloaded (s : Store) : s.reloaded.toJson = s.toJson := by
  rw [toJson, toJson, ← Json.writeNamedRelations_canonical (s.relations.entries.map _)]
  simp only [reloaded, dumped, NameMap.map, List.map_map]
  rfl

/-- A store that holds the same as another one: tuples with equal values under the same names, in
the same order, and the columns of all relations but those without tuples. It dumps the same. -/
structure Reloads (s s' : Store) : Prop where
  names : s'.names = s.names
  tuples : ∀ name r, s.get? name = some r → ∃ r', s'.get? name = some r' ∧
    List.Forall₂ (fun t t' => t'.names = t.names ∧ t.same t' = true) r r'
  columns : ∀ name st, s.stored? name = some st →
    s'.columns? name = some (if st.tuples.isEmpty then [] else st.columns)
  dump : s'.toJson = s.toJson

theorem stored?_reloaded (s : Store) (name : String) : s.reloaded.stored? name =
    (s.stored? name).map fun st => .fromFirst (st.tuples.map Tuple.canonical) := by
  rw [stored?, reloaded, dumped, NameMap.get?_map, NameMap.get?_map, Option.map_map]
  rfl

theorem reloads_reloaded (hu : s.All fun _ st => st.Uniform) : s.Reloads s.reloaded := by
  refine ⟨?_, fun name r hr => ?_, fun name st hs => ?_, s.toJson_reloaded⟩
  · exact (NameMap.names_map _ _).trans (NameMap.names_map _ _)
  · obtain ⟨st, hs, rfl⟩ := Option.map_eq_some_iff.1 hr
    refine ⟨st.tuples.map Tuple.canonical, ?_, ?_⟩
    · rw [get?, stored?_reloaded, hs]
      rfl
    · rw [List.forall₂_map_right_iff, List.forall₂_same]
      exact fun t _ => ⟨t.names_canonical, t.same_canonical⟩
  · rw [columns?, stored?_reloaded, hs]
    exact congrArg some (hu name st hs).columns_fromFirst

theorem Built.uniform (h : Built s) (hne : s.All fun _ st => ∀ t ∈ st.tuples, t.names ≠ []) :
    s.All fun _ st => st.Uniform := fun name st hs t ht =>
  ⟨((h.sound name st hs).carried t ht).resolve_right (hne name st hs t ht), hne name st hs t ht⟩

/-- The store after a run loads back from its dump, if its tuples carry attributes and its fractions
and large numbers are among those that come back. That all its numbers are finite is a matter only
of the tuples that are handed over as such. -/
theorem reloads_run {as : List Action} (ha : ∀ a ∈ as, a.Finite)
    (hne : (run as).All fun _ st => ∀ t ∈ st.tuples, t.names ≠ [])
    (hb : ∀ n, .number n ∈ (run as).values → n.isFinite = true → Json.isPlain n = false →
      Json.ReadsBack n) :
    ∃ s', ofJson (run as).toJson = .ok s' ∧ (run as).Reloads s' := by
  have hu := (built_run as).uniform hne
  refine ⟨_, ofJson_toJson (built_run as).named hu ?_, reloads_reloaded hu⟩
  rintro v hv n rfl
  obtain ⟨e, he, t, ht, a, hat, hn⟩ := mem_values.1 hv
  have hf : n.isFinite = true :=
    (finite_run ha).of_mem e he t ht a.1 _ (Tuple.mem_attributes_iff.1 hat) n hn
  cases hp : Json.isPlain n with
  | true => exact Json.readsBack_of_isPlain hp
  | false => exact hb n hv hf hp

def mixedRun : List Action :=
  [.seed "\x7b\"A\": [\x7b\"x\": 1, \"y\": \"é\"\x7d]\x7d", .command ":create R a, b",
    .command ":insert R 0.5, -0", .command ":create E c"]

theorem reloads_run_mixed : ∃ s', ofJson (run mixedRun).toJson = .ok s' ∧
    s'.names = ["A", "E", "R"] ∧ s'.columns? "R" = some ["a", "b"] ∧ s'.columns? "E" = some [] := by
  have hne : ∀ e ∈ (run mixedRun).relations.entries, ∀ t ∈ e.2.tuples, t.names ≠ [] := by
    decide +kernel
  have hv : (run mixedRun).values = [.number (.ofNat 1), .text "é",
      .number (.real false (.ofQuotient 1 2)), .number (.real true .zero)] := by
    decide +kernel
  obtain ⟨s', hl, hr⟩ := reloads_run (by simp [mixedRun, Action.Finite])
    (fun name st hs => hne _ (NameMap.mem_of_get? hs)) (by
      intro n hn _ _
      rw [hv] at hn
      simp only [List.mem_cons, Value.number.injEq, List.not_mem_nil, reduceCtorEq, or_false,
        false_or] at hn
      rcases hn with rfl | rfl | rfl <;> decide +kernel)
  refine ⟨s', hl, hr.names.trans (by decide +kernel), ?_, ?_⟩
  · exact hr.columns "R" ⟨["a", "b"], [.ofPairs [("a", .number (.real false (.ofQuotient 1 2))),
      ("b", .number (.real true .zero))]]⟩ (by decide +kernel)
  · exact hr.columns "E" ⟨["c"], []⟩ (by decide +kernel)

end Store

end RelAlg
