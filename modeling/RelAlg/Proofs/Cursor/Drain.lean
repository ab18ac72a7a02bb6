import RelAlg.Plan

set_option autoImplicit false

namespace RelAlg

namespace Relation

/-- The tuples that are accepted, up to the first on which the test fails. -/
def keep (accept : Tuple → Except QueryError Bool) : List Tuple → Except QueryError (List Tuple)
  | [] => .ok []
  | t :: ts => do
    let b ← accept t
    let us ← keep accept ts
    return if b then t :: us else us

/-- The tuples whose key is not among the seen ones, each key once. -/
def firsts (seen : List Tuple.Key) : List Tuple → List Tuple
  | [] => []
  | t :: ts => if seen.contains t.key then firsts seen ts else t :: firsts (t.key :: seen) ts

end Relation

namespace Cursor

variable {c l r : Cursor}

theorem drain_congr {s s' : c.State} (h : c.next s = c.next s') : c.drain s = c.drain s' := by
  rcases hn : c.next s' with ⟨_ | _ | t, s₁⟩
  · rw [drain_error hn, drain_error (h.trans hn)]
  · rw [drain_none hn, drain_none (h.trans hn)]
  · rw [drain_some hn, drain_some (h.trans hn)]

/-- From this state on the cursor hands out these tuples and then says that there are no more. -/
def Serves (c : Cursor) (s : c.State) (ts : List Tuple) : Prop :=
  (c.drain s).1 = .ok ts

theorem serves_nil {s z : c.State} (h : c.next s = (.ok none, z)) : c.Serves s [] := by
  rw [Serves, drain_none h]

theorem serves_cons {s z : c.State} {t : Tuple} {ts : List Tuple}
    (h : c.next s = (.ok (some t), z)) (hs : c.Serves z ts) : c.Serves s (t :: ts) := by
  rw [Serves, drain_some h]
  change (c.drain z).1.map (t :: ·) = _
  rw [show (c.drain z).1 = .ok ts from hs]
  rfl

theorem serves_of_next_eq {s s' : c.State} {ts : List Tuple} (h : c.next s = c.next s')
    (hs : c.Serves s' ts) : c.Serves s ts := by
  rw [Serves, drain_congr h]
  exact hs

theorem Serves.next_nil {s : c.State} (h : c.Serves s []) : ∃ s', c.next s = (.ok none, s') := by
  rcases hn : c.next s with ⟨_ | _ | t, s'⟩
  · simp [Serves, drain_error hn] at h
  · exact ⟨s', rfl⟩
  · rw [Serves, drain_some hn] at h
    cases hd : (c.drain s').1 <;> simp [hd, Except.map] at h

theorem Serves.next_cons {s : c.State} {t : Tuple} {ts : List Tuple} (h : c.Serves s (t :: ts)) :
    ∃ s', c.next s = (.ok (some t), s') ∧ c.Serves s' ts := by
  rcases hn : c.next s with ⟨_ | _ | u, s'⟩
  · simp [Serves, drain_error hn] at h
  · simp [Serves, drain_none hn] at h
  · rw [Serves, drain_some hn] at h
    cases hd : (c.drain s').1 with
    | error e => simp [hd, Except.map] at h
    | ok us =>
      simp only [hd, Except.map, Except.ok.injEq, List.cons.injEq] at h
      exact ⟨s', by rw [h.1], by rw [Serves, hd, h.2]⟩

section Search

variable {α : Type} {f : Tuple → Except QueryError (Option α)} {s s' : c.State} {t : Tuple}

theorem search_end (h : c.next s = (.ok none, s')) : c.search f s = (.ok none, s') := by
  rw [search]
  split <;> simp_all

theorem search_fail {e : QueryError} (h : c.next s = (.ok (some t), s')) (hf : f t = .error e) :
    c.search f s = (.error e, s') := by
  rw [search]
  split <;> simp_all

theorem search_hit {a : α} (h : c.next s = (.ok (some t), s')) (hf : f t = .ok (some a)) :
    c.search f s = (.ok (some a), s') := by
  rw [search]
  split <;> simp_all

theorem search_skip (h : c.next s = (.ok (some t), s')) (hf : f t = .ok none) :
    c.search f s = c.search f s' := by
  rw [search]
  split <;> simp_all

end Search

/-- Opening the cursor succeeds, and then it serves these tuples. -/
def Opens (c : Cursor) (s : c.State) (ts : List Tuple) : Prop :=
  ∃ s', c.openUp s = (.ok (), s') ∧ c.Serves s' ts

theorem Opens.collect {s : c.State} {ts : List Tuple} (h : c.Opens s ts) :
    (c.collect s).1 = .ok ts := by
  obtain ⟨s', ho, hs⟩ := h
  rw [Cursor.collect, ho]
  exact hs

theorem drain_gate (c : Cursor) (s : c.State) :
    ((gate c).drain (true, s)).1 = (c.drain s).1 := by
  fun_induction drain c s with
  | case1 s e s' h =>
    have hn : (gate c).next (true, s) = (.error e, (true, s')) := by simp [gate, h]
    rw [drain_error hn]
  | case2 s s' h =>
    have hn : (gate c).next (true, s) = (.ok none, (true, s')) := by simp [gate, h]
    rw [drain_none hn]
  | case3 s t s' h ts s'' hd ih =>
    have hn : (gate c).next (true, s) = (.ok (some t), (true, s')) := by simp [gate, h]
    rw [drain_some hn, ih, hd]
    rfl
  | case4 s t s' h e s'' hd ih =>
    have hn : (gate c).next (true, s) = (.ok (some t), (true, s')) := by simp [gate, h]
    rw [drain_some hn, ih, hd]
    rfl

theorem collect_gate (c : Cursor) :
    ((gate c).collect (gate c).start).1 = (c.collect c.start).1 := by
  rcases ho : c.openUp c.start with ⟨e | ⟨⟩, s'⟩
  · have hg : (gate c).openUp (gate c).start = (.error e, (false, s')) := by simp [gate, ho]
    rw [collect, collect, ho, hg]
  · have hg : (gate c).openUp (gate c).start = (.ok (), (true, s')) := by simp [gate, ho]
    rw [collect, collect, ho, hg]
    exact drain_gate c s'

theorem opens_gate {ts : List Tuple} (h : c.Opens c.start ts) :
    (gate c).Opens (gate c).start ts := by
  obtain ⟨s', ho, hs⟩ := h
  exact ⟨(true, s'), by simp [gate, ho], (drain_gate c s').trans hs⟩

theorem serves_ofRelation (r : Relation) : (ofRelation r).Serves r r := by
  suffices h : ∀ ts : List Tuple, (ofRelation r).Serves ts ts from h r
  intro ts
  induction ts with
  | nil => exact serves_nil (z := ([] : List Tuple)) rfl
  | cons t ts ih => exact serves_cons (z := ts) rfl ih

theorem opens_ofRelation (r : Relation) : (ofRelation r).Opens (ofRelation r).start r :=
  ⟨r, rfl, serves_ofRelation r⟩

theorem drain_filtered (accept : Tuple → Except QueryError Bool) {s : c.State} {ts : List Tuple}
    (h : c.Serves s ts) : ((filtered accept c).drain s).1 = Relation.keep accept ts := by
  induction ts generalizing s with
  | nil =>
    obtain ⟨s', hn⟩ := h.next_nil
    have hs : (filtered accept c).next s = (.ok none, s') := search_end hn
    rw [drain_none hs, Relation.keep]
  | cons t ts ih =>
    obtain ⟨s', hn, hs⟩ := h.next_cons
    cases ha : accept t with
    | error e =>
      have hf : (filtered accept c).next s = (.error e, s') :=
        search_fail hn (by simp [ha, Except.map])
      rw [drain_error hf]
      simp [Relation.keep, ha, bind, Except.bind]
    | ok b =>
      cases b with
      | true =>
        have hf : (filtered accept c).next s = (.ok (some t), s') :=
          search_hit hn (by simp [ha, Except.map])
        rw [drain_some hf]
        change ((filtered accept c).drain s').1.map (t :: ·) = _
        rw [ih hs]
        cases hk : Relation.keep accept ts <;>
          simp [Relation.keep, ha, hk, bind, Except.bind, Except.map, pure, Except.pure]
      | false =>
        have hf : (filtered accept c).next s = (filtered accept c).next s' :=
          search_skip hn (by simp [ha, Except.map])
        rw [drain_congr hf, ih hs]
        cases hk : Relation.keep accept ts <;>
          simp [Relation.keep, ha, hk, bind, Except.bind, pure, Except.pure]

theorem collect_filtered (accept : Tuple → Except QueryError Bool) {ts : List Tuple}
    (h : c.Opens c.start ts) :
    ((gate (filtered accept c)).collect (gate (filtered accept c)).start).1 =
      Relation.keep accept ts := by
  obtain ⟨s', ho, hs⟩ := h
  have hf : (filtered accept c).openUp (filtered accept c).start = (.ok (), s') := ho
  rw [collect_gate, collect, hf]
  exact drain_filtered accept hs

theorem serves_distinct (f : Tuple → Tuple) (seen : List Tuple.Key) {s : c.State}
    {ts : List Tuple} (h : c.Serves s ts) :
    (distinct f c).Serves (seen, s) (Relation.firsts seen (ts.map f)) := by
  induction ts generalizing s seen with
  | nil =>
    obtain ⟨s', hn⟩ := h.next_nil
    refine serves_nil (z := (seen, s')) ?_
    simp only [distinct]
    rw [search_end hn]
  | cons t ts ih =>
    obtain ⟨s', hn, hs⟩ := h.next_cons
    by_cases hm : seen.contains (f t).key = true
    · have hf : (distinct f c).next (seen, s) = (distinct f c).next (seen, s') := by
        simp only [distinct]
        rw [search_skip hn (by rw [if_pos hm])]
      rw [List.map_cons, Relation.firsts, if_pos hm]
      exact serves_of_next_eq hf (ih seen hs)
    · have hf : (distinct f c).next (seen, s) =
          (.ok (some (f t)), ((f t).key :: seen, s')) := by
        simp only [distinct]
        rw [search_hit (a := f t) hn (by rw [if_neg hm])]
      rw [List.map_cons, Relation.firsts, if_neg hm]
      exact serves_cons hf (ih _ hs)

theorem opens_distinct (f : Tuple → Tuple) {ts : List Tuple} (h : c.Opens c.start ts) :
    (distinct f c).Opens (distinct f c).start (Relation.firsts [] (ts.map f)) := by
  obtain ⟨s', ho, hs⟩ := h
  exact ⟨([], s'), by simp [distinct, ho], serves_distinct f [] hs⟩

theorem openBoth_of_opens {ts us : List Tuple} (hl : l.Opens l.start ts)
    (hr : r.Opens r.start us) : ∃ a b, openBoth l r (l.start, r.start) = (.ok (), (a, b)) ∧
      l.Serves a ts ∧ r.Serves b us := by
  obtain ⟨a, hla, hsa⟩ := hl
  obtain ⟨b, hrb, hsb⟩ := hr
  exact ⟨a, b, by simp [openBoth, hla, hrb], hsa, hsb⟩

theorem serves_append_done {a : l.State} {b : r.State} {us : List Tuple} (h : r.Serves b us) :
    (append l r).Serves (true, a, b) us := by
  induction us generalizing b with
  | nil =>
    obtain ⟨b', hn⟩ := h.next_nil
    exact serves_nil (z := (true, a, b')) (by simp [append, hn])
  | cons u us ih =>
    obtain ⟨b', hn, hs⟩ := h.next_cons
    exact serves_cons (z := (true, a, b')) (by simp [append, hn]) (ih hs)

theorem serves_append {a : l.State} {b : r.State} {ts us : List Tuple} (hl : l.Serves a ts)
    (hr : r.Serves b us) : (append l r).Serves (false, a, b) (ts ++ us) := by
  induction ts generalizing a with
  | nil =>
    obtain ⟨a', hn⟩ := hl.next_nil
    -- The first tuple of the right cursor is handed out by the step that ends the left one.
    have hd : (append l r).next (false, a, b) = (append l r).next (true, a', b) := by
      simp [append, hn]
    exact serves_of_next_eq hd (serves_append_done hr)
  | cons t ts ih =>
    obtain ⟨a', hn, hs⟩ := hl.next_cons
    exact serves_cons (z := (false, a', b)) (by simp [append, hn]) (ih hs)

theorem opens_append {ts us : List Tuple} (hl : l.Opens l.start ts) (hr : r.Opens r.start us) :
    (append l r).Opens (append l r).start (ts ++ us) := by
  obtain ⟨a, b, ho, hsa, hsb⟩ := openBoth_of_opens hl hr
  exact ⟨(false, a, b), by simp [append, ho], serves_append hsa hsb⟩

theorem serves_difference (excluded : List Tuple.Key) {a : l.State} {b : r.State}
    {ts : List Tuple} (h : l.Serves a ts) :
    (difference l r).Serves (excluded, a, b) (ts.filter fun t => !excluded.contains t.key) := by
  induction ts generalizing a with
  | nil =>
    obtain ⟨a', hn⟩ := h.next_nil
    refine serves_nil (z := (excluded, a', b)) ?_
    simp only [difference]
    rw [search_end hn]
  | cons t ts ih =>
    obtain ⟨a', hn, hs⟩ := h.next_cons
    by_cases hm : excluded.contains t.key = true
    · have hf : (difference l r).next (excluded, a, b) =
          (difference l r).next (excluded, a', b) := by
        simp only [difference]
        rw [search_skip hn (by rw [if_pos hm])]
      rw [List.filter_cons_of_neg (by rw [hm]; simp)]
      exact serves_of_next_eq hf (ih hs)
    · have hf : (difference l r).next (excluded, a, b) = (.ok (some t), (excluded, a', b)) := by
        simp only [difference]
        rw [search_hit (a := t) hn (by rw [if_neg hm])]
      rw [List.filter_cons_of_pos (by simpa using hm)]
      exact serves_cons hf (ih hs)

theorem opens_difference {ts us : List Tuple} (hl : l.Opens l.start ts)
    (hr : r.Opens r.start us) : (difference l r).Opens (difference l r).start
      (ts.filter fun t => !(us.map Tuple.key).contains t.key) := by
  obtain ⟨a, b, ho, hsa, hsb⟩ := openBoth_of_opens hl hr
  rcases hd : r.drain b with ⟨_, b'⟩
  have hu : (r.drain b).1 = .ok us := hsb
  rw [hd] at hu
  cases hu
  exact ⟨(us.map Tuple.key, a, b'), by simp [difference, ho, hd], serves_difference _ hsa⟩

def merges (names : List String) (rights : List Tuple) (t : Tuple) : List Tuple :=
  (rights.filter (t.agreesOn · names)).map t.merge

theorem merges_cons (names : List String) (t u : Tuple) (us : List Tuple) :
    merges names (u :: us) t =
      if t.agreesOn u names then t.merge u :: merges names us t else merges names us t := by
  rw [merges, List.filter_cons]
  split <;> rfl

theorem nextMerge?_of_merges_nil {names : List String} {t : Tuple} {us : List Tuple} (i : Nat)
    (h : merges names us t = []) : nextMerge? names t i us = none := by
  induction us generalizing i with
  | nil => rfl
  | cons u us ih =>
    rw [merges_cons] at h
    rw [nextMerge?]
    split at h
    · cases h
    · rw [if_neg ‹_›]
      exact ih (i + 1) h

/-- The search stops behind the tuple of the first merge, with the other merges still ahead. -/
theorem nextMerge?_of_merges_cons {names : List String} {t m : Tuple} {us ms : List Tuple}
    (i : Nat) (h : merges names us t = m :: ms) :
    ∃ k, nextMerge? names t i us = some (m, t, i + k) ∧ merges names (us.drop k) t = ms := by
  induction us generalizing i with
  | nil => cases h
  | cons u us ih =>
    rw [merges_cons] at h
    rw [nextMerge?]
    split at h
    · rw [if_pos ‹_›]
      cases h
      exact ⟨1, rfl, rfl⟩
    · rw [if_neg ‹_›]
      obtain ⟨k, hk, hd⟩ := ih (i + 1) h
      exact ⟨k + 1, by rw [hk, Nat.add_assoc, Nat.add_comm 1 k], hd⟩

/-- A left tuple in the state stands for its merges with the right from its position on. -/
theorem serves_join_current {names : List String} {rights us : List Tuple} {a : l.State}
    {b : r.State} (he : ¬ rights.isEmpty = true)
    (h : (join names l r).Serves ((rights, none), a, b) us) (t : Tuple) (i : Nat) :
    (join names l r).Serves ((rights, some (t, i)), a, b)
      (merges names (rights.drop i) t ++ us) := by
  generalize hm : merges names (rights.drop i) t = ms
  induction ms generalizing i with
  | nil =>
    have hr : resume names rights (some (t, i)) = none := nextMerge?_of_merges_nil i hm
    have hn : (join names l r).next ((rights, some (t, i)), a, b) =
        (join names l r).next ((rights, none), a, b) := by
      simp only [join, resume_none]
      rw [if_neg he, if_neg he, hr]
    exact serves_of_next_eq hn h
  | cons m ms ih =>
    obtain ⟨k, hk, hd⟩ := nextMerge?_of_merges_cons i hm
    have hr : resume names rights (some (t, i)) = some (m, t, i + k) := hk
    have hn : (join names l r).next ((rights, some (t, i)), a, b) =
        (.ok (some m), ((rights, some (t, i + k)), a, b)) := by
      simp only [join]
      rw [if_neg he, hr]
    rw [List.drop_drop] at hd
    exact serves_cons hn (ih (i + k) hd)

/-- Between two left tuples the next one is taken, to be tried from the first position on. -/
theorem next_join_take {names : List String} {rights : List Tuple} {a a' : l.State}
    {t : Tuple} (b : r.State) (he : ¬ rights.isEmpty = true) (hn : l.next a = (.ok (some t), a')) :
    (join names l r).next ((rights, none), a, b) =
      (join names l r).next ((rights, some (t, 0)), a', b) := by
  simp only [join, resume_none]
  rw [if_neg he, if_neg he]
  cases hr : resume names rights (some (t, 0)) with
  | none => rw [search_skip hn (by rw [hr])]
  | some p => rw [search_hit hn (by rw [hr])]

theorem serves_join (names : List String) (rights : List Tuple) {a : l.State} {b : r.State}
    {ts : List Tuple} (h : l.Serves a ts) :
    (join names l r).Serves ((rights, none), a, b) (ts.flatMap (merges names rights)) := by
  by_cases he : rights.isEmpty = true
  · have hm : ts.flatMap (merges names rights) = [] := by
      rw [List.isEmpty_iff.1 he, List.flatMap_eq_nil_iff]
      exact fun _ _ => rfl
    rw [hm]
    exact serves_nil (z := ((rights, none), a, b)) (by simp [join, he])
  · induction ts generalizing a with
    | nil =>
      obtain ⟨a', hn⟩ := h.next_nil
      refine serves_nil (z := ((rights, none), a', b)) ?_
      simp only [join, resume_none]
      rw [if_neg he, search_end hn]
    | cons t ts ih =>
      obtain ⟨a', hn, hs⟩ := h.next_cons
      exact serves_of_next_eq (next_join_take b he hn) (serves_join_current he (ih hs) t 0)

theorem opens_join (names : List String) {ts us : List Tuple} (hl : l.Opens l.start ts)
    (hr : r.Opens r.start us) :
    (join names l r).Opens (join names l r).start (ts.flatMap (merges names us)) := by
  obtain ⟨a, b, ho, hsa, hsb⟩ := openBoth_of_opens hl hr
  rcases hd : r.drain b with ⟨_, b'⟩
  have hu : (r.drain b).1 = .ok us := hsb
  rw [hd] at hu
  cases hu
  exact ⟨((us, none), a, b'), by simp [join, ho, hd], serves_join names us hsa⟩

end Cursor

end RelAlg
