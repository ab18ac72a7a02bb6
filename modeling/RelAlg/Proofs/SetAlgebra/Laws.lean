import RelAlg.Proofs.SetAlgebra.Homogeneity

set_option autoImplicit false

namespace RelAlg

namespace Relation

variable {f : Tuple → Tuple} {ts us : List Tuple} {seen seen' : List Tuple.Key}

theorem firsts_cons_seen {t : Tuple} (h : t.key ∈ seen) :
    firsts seen (t :: ts) = firsts seen ts :=
  if_pos (List.contains_iff_mem.2 h)

theorem firsts_cons_new {t : Tuple} (h : t.key ∉ seen) :
    firsts seen (t :: ts) = t :: firsts (t.key :: seen) ts :=
  if_neg fun hc => h (List.contains_iff_mem.1 hc)

theorem firsts_seen_congr (h : ∀ k, k ∈ seen ↔ k ∈ seen') (ts : List Tuple) :
    firsts seen ts = firsts seen' ts := by
  rw [firsts_eq, firsts_eq]
  refine congrArg occurrences (List.filter_congr fun t _ => congrArg not ?_)
  rw [Bool.eq_iff_iff, List.contains_iff_mem, List.contains_iff_mem, h]

theorem firsts_append (seen : List Tuple.Key) (ts us : List Tuple) :
    firsts seen (ts ++ us) = firsts seen ts ++ firsts (ts.map Tuple.key ++ seen) us := by
  induction ts generalizing seen with
  | nil => rfl
  | cons t ts ih =>
    rw [List.cons_append, List.map_cons, List.cons_append]
    by_cases hs : t.key ∈ seen
    · rw [firsts_cons_seen hs, firsts_cons_seen hs, ih]
      refine congrArg _ (firsts_seen_congr (fun k => ?_) us)
      rw [List.mem_cons, or_iff_right_of_imp]
      rintro rfl
      exact List.mem_append_right _ hs
    · rw [firsts_cons_new hs, firsts_cons_new hs, ih, List.cons_append]
      refine congrArg _ (congrArg _ (firsts_seen_congr (fun k => ?_) us))
      exact List.perm_middle.mem_iff

theorem firsts_eq_nil (h : ∀ t ∈ ts, t.key ∈ seen) : firsts seen ts = [] := by
  rw [← List.map_eq_nil_iff (f := Tuple.key), List.eq_nil_iff_forall_not_mem]
  intro k hk
  obtain ⟨hn, hk⟩ := (key_mem_firsts seen ts k).1 hk
  obtain ⟨t, ht, rfl⟩ := List.mem_map.1 hk
  exact hn (h t ht)

/-- No two of the first occurrences are equal. -/
theorem firsts_distinct (seen : List Tuple.Key) (ts : List Tuple) :
    (firsts seen ts).Pairwise fun t u => t.same u = false := by
  induction ts generalizing seen with
  | nil => exact .nil
  | cons t ts ih =>
    by_cases hs : t.key ∈ seen
    · rw [firsts_cons_seen hs]
      exact ih seen
    · rw [firsts_cons_new hs]
      refine .cons (fun u hu => ?_) (ih _)
      have hk := ((key_mem_firsts _ ts u.key).1 (List.mem_map_of_mem hu)).1
      rw [← Bool.not_eq_true, Tuple.same_iff_key]
      exact fun he => hk (he ▸ List.mem_cons_self)

/-- Equal tuples have equal images. -/
def Respects (f : Tuple → Tuple) : Prop :=
  ∀ t u, t.key = u.key → (f t).key = (f u).key

theorem respects_id : Respects id := fun _ _ => id

theorem respects_project (names : List String) : Respects (·.project names) := by
  intro t u h
  rw [Tuple.key_eq_iff_row] at h ⊢
  rw [row_project, row_project, h]

/-- Repetitions may go before the map. What the inner pass has seen, the outer one has seen the
image of. -/
theorem firsts_map_firsts (hf : Respects f) (h : ∀ t, t.key ∈ seen → (f t).key ∈ seen') :
    firsts seen' ((firsts seen ts).map f) = firsts seen' (ts.map f) := by
  induction ts generalizing seen seen' with
  | nil => rfl
  | cons t ts ih =>
    have hcons : ∀ {k : List Tuple.Key}, (f t).key ∈ k → (∀ u, u.key ∈ seen → (f u).key ∈ k) →
        ∀ u, u.key ∈ t.key :: seen → (f u).key ∈ k := by
      intro k ht hk u hu
      rcases List.mem_cons.1 hu with hu | hu
      · rw [hf u t hu]
        exact ht
      · exact hk u hu
    by_cases hs : t.key ∈ seen
    · rw [firsts_cons_seen hs, ih h, List.map_cons, firsts_cons_seen (h t hs)]
    · rw [firsts_cons_new hs, List.map_cons, List.map_cons]
      by_cases hs' : (f t).key ∈ seen'
      · rw [firsts_cons_seen hs', firsts_cons_seen hs', ih (hcons hs' h)]
      · rw [firsts_cons_new hs', firsts_cons_new hs',
          ih (hcons List.mem_cons_self fun u hu => List.mem_cons_of_mem _ (h u hu))]

theorem firsts_firsts (seen : List Tuple.Key) (ts : List Tuple) :
    firsts seen (firsts [] ts) = firsts seen ts := by
  have h : firsts seen ((firsts [] ts).map id) = firsts seen (ts.map id) :=
    firsts_map_firsts respects_id fun _ hk => absurd hk List.not_mem_nil
  rwa [List.map_id, List.map_id] at h

theorem occurrences_append (ts us : List Tuple) :
    occurrences (ts ++ us) = occurrences ts ++ firsts (ts.map Tuple.key) us := by
  rw [← firsts_nil, ← firsts_nil, firsts_append, List.append_nil]

theorem occurrences_distinct (ts : List Tuple) :
    (occurrences ts).Pairwise fun t u => t.same u = false :=
  firsts_nil ts ▸ firsts_distinct [] ts

theorem key_mem_occurrences {k : Tuple.Key} :
    k ∈ (occurrences ts).map Tuple.key ↔ k ∈ ts.map Tuple.key := by
  rw [← firsts_nil, key_mem_firsts]
  exact and_iff_right List.not_mem_nil

theorem occurrences_map (hf : Respects f) (ts : List Tuple) :
    occurrences ((occurrences ts).map f) = occurrences (ts.map f) := by
  rw [← firsts_nil, ← firsts_nil, ← firsts_nil]
  exact firsts_map_firsts hf fun _ hk => absurd hk List.not_mem_nil

theorem occurrences_idem (ts : List Tuple) : occurrences (occurrences ts) = occurrences ts := by
  rw [← firsts_nil, ← firsts_nil, firsts_firsts]

theorem occurrences_left (ts us : List Tuple) :
    occurrences (occurrences ts ++ us) = occurrences (ts ++ us) := by
  rw [occurrences_append, occurrences_append, occurrences_idem]
  exact congrArg _ (firsts_seen_congr (fun _ => key_mem_occurrences) us)

theorem occurrences_right (ts us : List Tuple) :
    occurrences (ts ++ occurrences us) = occurrences (ts ++ us) := by
  rw [occurrences_append, occurrences_append, ← firsts_nil us, firsts_firsts]

/-- Content that is there already adds nothing. -/
theorem occurrences_old (h : ∀ u ∈ us, u.key ∈ ts.map Tuple.key) :
    occurrences (ts ++ us) = occurrences ts := by
  rw [occurrences_append, firsts_eq_nil h, List.append_nil]

theorem union_eq_occurrences (l r : Relation) : l.union r = .ok (occurrences (l ++ r)) := by
  rw [union_eq, firsts_nil]

theorem difference_eq_filter (l r : Relation) :
    l.difference r = .ok (l.filter fun t => !r.holds t) := by
  rw [difference_eq]
  refine congrArg Except.ok (List.filter_congr fun t _ => congrArg not ?_)
  rw [Bool.eq_iff_iff, List.contains_iff_mem, holds_iff_key]

variable {l r x : Relation}

theorem rows_union (h : l.union r = .ok x) : x.rows = l.rows ∪ r.rows := by
  rw [union_eq] at h
  rw [← Except.ok.inj h, rows_firsts, rows_append]

theorem rows_difference (h : l.difference r = .ok x) : x.rows = l.rows \ r.rows := by
  rw [difference_eq] at h
  rw [← Except.ok.inj h, rows_filter_key]

theorem holds_occurrences (ts : List Tuple) (t : Tuple) :
    holds (occurrences ts) t = holds ts t := by
  rw [Bool.eq_iff_iff, holds_iff_key, holds_iff_key, key_mem_occurrences]

theorem holds_append (l r : Relation) (t : Tuple) :
    holds (l ++ r) t = (l.holds t || r.holds t) :=
  List.any_append

theorem union_assoc (l m r : Relation) :
    occurrences (occurrences (l ++ m) ++ r) = occurrences (l ++ occurrences (m ++ r)) := by
  rw [occurrences_left, occurrences_right, List.append_assoc]

theorem union_self_right (l r : Relation) :
    occurrences (occurrences (l ++ r) ++ r) = occurrences (l ++ r) := by
  refine (occurrences_left _ _).trans (occurrences_old fun u hu => ?_)
  rw [List.map_append]
  exact List.mem_append_right _ (List.mem_map_of_mem hu)

theorem count_difference (l r : Relation) (t : Tuple) :
    (l.filter fun u => !r.holds u).count t = if r.holds t then 0 else l.count t := by
  split
  · rename_i h
    refine List.count_eq_zero.2 fun hm => ?_
    simp [h] at hm
  · rename_i h
    exact List.count_filter (by simpa using h)

theorem difference_difference (l m r : Relation) :
    (l.filter fun t => !m.holds t).filter (fun t => !r.holds t) =
      l.filter fun t => !holds (occurrences (m ++ r)) t := by
  rw [List.filter_filter]
  refine List.filter_congr fun t _ => ?_
  rw [holds_occurrences, holds_append, Bool.not_or, Bool.and_comm]

/-- Both have tuples, and the first ones carry as many names. -/
def Unites (l r : Relation) : Prop :=
  ∃ ls rs, l.columns? = some ls ∧ r.columns? = some rs ∧ ls.length = rs.length

theorem apply_union_eq_ok : BinaryOp.apply .union l r = .ok x ↔
    l.Unites r ∧ x = occurrences (l ++ r) := by
  constructor
  · intro h
    obtain ⟨common, hc, -⟩ := bind_ok h
    replace hc := ok_of_orSchemaError hc
    obtain ⟨t, ts, u, us, rfl, rfl, hn⟩ := Schema.cons_of_checkBinary hc
    rw [apply_union hc] at h
    exact ⟨⟨_, _, rfl, rfl, hn (by decide)⟩, (Except.ok.inj h).symm⟩
  · rintro ⟨⟨ls, rs, hl, hr, hn⟩, rfl⟩
    have hc : Schema.checkBinary .union l r = .ok [] := by
      rw [Schema.checkBinary, hl, hr]
      exact if_pos hn
    exact apply_union hc

theorem columns?_union {ls : List String} (h : l.columns? = some ls) (r : Relation) :
    columns? (occurrences (l ++ r)) = some ls := by
  match l with
  | t :: ts =>
    rw [List.cons_append, occurrences, List.eraseDupsBy_cons]
    exact h

theorem unites_assoc {l m r : Relation} : m.Unites r ∧ l.Unites (occurrences (m ++ r)) ↔
    l.Unites m ∧ Unites (occurrences (l ++ m)) r := by
  constructor
  · rintro ⟨⟨ms, rs, hm, hr, hmr⟩, ls, us, hl, hu, hlu⟩
    obtain rfl := Option.some_inj.1 ((columns?_union hm r).symm.trans hu)
    exact ⟨⟨ls, ms, hl, hm, hlu⟩, ls, rs, columns?_union hl m, hr, hlu.trans hmr⟩
  · rintro ⟨⟨ls, ms, hl, hm, hlm⟩, us, rs, hu, hr, hur⟩
    obtain rfl := Option.some_inj.1 ((columns?_union hl m).symm.trans hu)
    exact ⟨⟨ms, rs, hm, hr, hlm.symm.trans hur⟩, ls, ms, hl, columns?_union hm r, hlm⟩

end Relation

namespace Expr

open RelAlg.Relation

variable {s : Store} {x : Relation}

theorem eval_union_eq_ok {l r : Expr} : (binary .union l r).eval s = .ok x ↔
    ∃ a b, l.eval s = .ok a ∧ r.eval s = .ok b ∧ a.Unites b ∧ x = occurrences (a ++ b) := by
  constructor
  · intro h
    obtain ⟨a, ha, h⟩ := bind_ok h
    obtain ⟨b, hb, h⟩ := bind_ok h
    exact ⟨a, b, ha, hb, apply_union_eq_ok.1 h⟩
  · rintro ⟨a, b, ha, hb, h⟩
    rw [eval, ha, hb]
    exact apply_union_eq_ok.2 h

theorem eval_union_assoc (l m r : Expr) : (binary .union l (binary .union m r)).eval s = .ok x ↔
    (binary .union (binary .union l m) r).eval s = .ok x := by
  rw [eval_union_eq_ok, eval_union_eq_ok]
  constructor
  · rintro ⟨a, y, ha, hy, hay, rfl⟩
    obtain ⟨b, c, hb, hc, hbc, rfl⟩ := eval_union_eq_ok.1 hy
    obtain ⟨hab, habc⟩ := unites_assoc.1 ⟨hbc, hay⟩
    exact ⟨_, c, eval_union_eq_ok.2 ⟨a, b, ha, hb, hab, rfl⟩, hc, habc, (union_assoc a b c).symm⟩
  · rintro ⟨y, c, hy, hc, hyc, rfl⟩
    obtain ⟨a, b, ha, hb, hab, rfl⟩ := eval_union_eq_ok.1 hy
    obtain ⟨hbc, habc⟩ := unites_assoc.2 ⟨hab, hyc⟩
    exact ⟨a, _, ha, eval_union_eq_ok.2 ⟨b, c, hb, hc, hbc, rfl⟩, habc, union_assoc a b c⟩

end Expr

namespace Relation

/-- Union and difference as they compute with lists. A union holds each content of both sides once,
and regrouping or repeating operands changes nothing in the list; a difference leaves the tuples of
the left that have no equal in the right, all of them and in their order, and takes away in one or
in two steps the same. In an expression two unions fail or succeed alike, however grouped. -/
theorem union_difference_laws (a b c : Relation) : ∃ ab ba bc d e,
    a.union b = .ok ab ∧ b.union a = .ok ba ∧ b.union c = .ok bc ∧
    a.difference b = .ok d ∧ a.difference c = .ok e ∧
    ab.Pairwise (fun t u => t.same u = false) ∧
    ab.content.toFinset = a.content.toFinset ∪ b.content.toFinset ∧
    ab.content.toFinset = ba.content.toFinset ∧
    (∃ x, ab.union c = .ok x ∧ a.union bc = .ok x) ∧
    ab.union b = .ok ab ∧
    (d.Sublist a ∧ ∀ t, d.count t = if b.holds t then 0 else a.count t) ∧
    (∃ x, d.difference c = .ok x ∧ e.difference b = .ok x ∧ a.difference bc = .ok x) ∧
    (∃ x, d.union b = .ok x ∧ x.content.toFinset = ab.content.toFinset) ∧
    ∀ (s : Store) (l m r : Expr),
      (∃ x, (Expr.binary .union l (.binary .union m r)).eval s = .ok x ∧
        (Expr.binary .union (.binary .union l m) r).eval s = .ok x) ∨
      (∃ error, (Expr.binary .union l (.binary .union m r)).eval s = .error error) ∧
        ∃ error, (Expr.binary .union (.binary .union l m) r).eval s = .error error := by
  have hab := union_eq_occurrences a b
  have hba := union_eq_occurrences b a
  have hd := difference_eq_filter a b
  have hdb := union_eq_occurrences (a.filter fun t => !b.holds t) b
  refine ⟨_, _, _, _, _, hab, hba, union_eq_occurrences b c, hd, difference_eq_filter a c,
    occurrences_distinct _, ?_, ?_, ⟨_, union_eq_occurrences _ c, ?_⟩, ?_,
    ⟨List.filter_sublist, count_difference a b⟩, ⟨_, difference_eq_filter _ c, ?_, ?_⟩,
    ⟨_, hdb, ?_⟩, fun s l m r => ?_⟩
  · rw [content_toFinset, content_toFinset, content_toFinset, rows_union hab, Finset.image_union]
  · rw [content_toFinset, content_toFinset, rows_union hab, rows_union hba, Finset.union_comm]
  · rw [union_eq_occurrences, union_assoc]
  · rw [union_eq_occurrences, union_self_right]
  · rw [difference_eq_filter, List.filter_filter, List.filter_filter]
    simp only [Bool.and_comm]
  · rw [difference_eq_filter, difference_difference]
  · rw [content_toFinset, content_toFinset, rows_union hdb, rows_union hab, rows_difference hd,
      Finset.sdiff_union_self_eq_union]
  · exact same_outcome fun _ => Expr.eval_union_assoc l m r

end Relation

theorem Tuple.project_project (t : Tuple) {names kept : List String} (h : ∀ n ∈ names, n ∈ kept) :
    (t.project kept).project names = t.project names := by
  have hp : (t.project kept).picked names = t.picked names := by
    refine List.filterMap_congr fun n hn => ?_
    rw [get?_project, if_pos (h n hn)]
  rw [project_eq, hp, project_eq]

namespace Relation

theorem project_eq_occurrences (r : Relation) (names : List String) :
    r.project names = .ok (occurrences (r.map (·.project names))) := by
  rw [project_eq, firsts_nil]

theorem project_occurrences (ts : List Tuple) {names kept : List String}
    (h : ∀ n ∈ names, n ∈ kept) :
    occurrences ((occurrences (ts.map (·.project kept))).map (·.project names)) =
      occurrences (ts.map (·.project names)) := by
  rw [occurrences_map (respects_project names), List.map_map]
  exact congrArg occurrences (List.map_congr_left fun t _ => t.project_project h)

theorem project_union (ts us : List Tuple) (names : List String) :
    occurrences ((occurrences (ts ++ us)).map (·.project names)) =
      occurrences (occurrences (ts.map (·.project names)) ++
        occurrences (us.map (·.project names))) := by
  rw [occurrences_map (respects_project names), List.map_append, occurrences_left,
    occurrences_right]

/-- Projections one after the other are the last one, if the first keeps all its names; each leaves
the first tuple of each content where it came; and to project a union is to unite projections. All
this holds of the lists, whatever names the tuples carry and the projections repeat. -/
theorem projection_laws (l r : Relation) {names kept : List String} (h : ∀ n ∈ names, n ∈ kept) :
    ∃ x y u v w, r.project kept = .ok x ∧ r.project names = .ok y ∧
      x.project names = .ok y ∧ x.project kept = .ok x ∧
      x = (r.map (·.project kept)).eraseDupsBy Tuple.same ∧
      x.Pairwise (fun t u => t.same u = false) ∧
      l.union r = .ok u ∧ l.project kept = .ok v ∧ u.project kept = .ok w ∧ v.union x = .ok w := by
  refine ⟨_, _, _, _, _, project_eq_occurrences r kept, project_eq_occurrences r names, ?_, ?_, rfl,
    occurrences_distinct _, union_eq_occurrences l r, project_eq_occurrences l kept,
    project_eq_occurrences _ kept, ?_⟩
  · rw [project_eq_occurrences, project_occurrences r h]
  · rw [project_eq_occurrences, project_occurrences r fun _ => id]
  · rw [union_eq_occurrences, project_union]

theorem projection_laws_mixed :
    let l : Relation := [.ofPairs [("a", .text "x"), ("b", .number .zero)]]
    let r : Relation := [.ofPairs [("b", .number (.negate .zero)), ("c", .text "y")],
      .ofPairs [("c", .text "z"), ("a", .text "x"), ("b", .number .zero)],
      .ofPairs [("b", .number .zero)]]
    (∀ n ∈ ["b", "b"], n ∈ ["b", "d", "a", "b"]) ∧
    ∃ x u v w, r.project ["b", "d", "a", "b"] = .ok x ∧
      x = [.ofPairs [("b", .number (.negate .zero))],
        .ofPairs [("b", .number .zero), ("a", .text "x")]] ∧
      x.project ["b", "b"] = .ok [.ofPairs [("b", .number (.negate .zero))]] ∧
      l.union r = .ok u ∧ l.project ["b", "d", "a", "b"] = .ok v ∧
      u.project ["b", "d", "a", "b"] = .ok w ∧ v.union x = .ok w := by
  intro l r
  have h : ∀ n ∈ ["b", "b"], n ∈ ["b", "d", "a", "b"] := by decide
  have hb : r.project ["b", "b"] = .ok [.ofPairs [("b", .number (.negate .zero))]] :=
    (project_eq_occurrences r _).trans (congrArg Except.ok (by decide))
  obtain ⟨x, y, u, v, w, hx, hy, hxy, -, he, -, hu, hv, hw, hvx⟩ := projection_laws l r h
  obtain rfl := Except.ok.inj (hb.symm.trans hy)
  exact ⟨h, x, u, v, w, hx, he.trans (by decide), hxy, hu, hv, hw, hvx⟩

end Relation

end RelAlg
