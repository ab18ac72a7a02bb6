import RelAlg.Proofs.Cursor.Reference

set_option autoImplicit false

namespace RelAlg

namespace Cursor

inductive Call where
  | init
  | next
deriving DecidableEq

inductive Reply where
  | opened
  | handed (t : Tuple)
  | nothing
deriving DecidableEq

def Reply.ofNext : Option Tuple → Reply
  | some t => handed t
  | none => nothing

def Reply.tuple? : Reply → Option Tuple
  | handed t => some t
  | _ => none

def handedOut (rs : List Reply) : List Tuple := rs.filterMap Reply.tuple?

theorem handedOut_append (rs xs : List Reply) :
    handedOut (rs ++ xs) = handedOut rs ++ handedOut xs :=
  List.filterMap_append

theorem handedOut_eq_nil {rs : List Reply} (h : ∀ x ∈ rs, x.tuple? = none) : handedOut rs = [] :=
  List.filterMap_eq_nil_iff.2 h

def reply (c : Cursor) : Call → Pull c.State Reply
  | .init, s => ((c.openUp s).1.map fun _ => .opened, (c.openUp s).2)
  | .next, s => ((c.next s).1.map Reply.ofNext, (c.next s).2)

def replies (c : Cursor) : List Call → Pull c.State (List Reply)
  | [], s => (.ok [], s)
  | k :: ks, s =>
    match c.reply k s with
    | (.error e, s') => (.error e, s')
    | (.ok r, s') => ((c.replies ks s').1.map (r :: ·), (c.replies ks s').2)

variable {c d l r : Cursor}

section Replies

variable {s u : c.State} {k : Call} {ks ms : List Call} {rs : List Reply}

theorem replies_cons (h : c.replies (k :: ks) s = (.ok rs, u)) :
    ∃ x s' xs, c.reply k s = (.ok x, s') ∧ c.replies ks s' = (.ok xs, u) ∧ rs = x :: xs := by
  rw [replies] at h
  split at h
  · cases h
  · rename_i x s' hk
    obtain ⟨hr, rfl⟩ := Prod.mk.inj h
    cases hx : (c.replies ks s').1 with
    | error e =>
      rw [hx] at hr
      cases hr
    | ok xs =>
      rw [hx] at hr
      cases hr
      exact ⟨x, s', xs, hk, Prod.ext hx rfl, rfl⟩

theorem replies_of_reply {x : Reply} {s' : c.State} (hk : c.reply k s = (.ok x, s'))
    (hx : c.replies ks s' = (.ok rs, u)) : c.replies (k :: ks) s = (.ok (x :: rs), u) := by
  rw [replies, hk]
  simp only [hx]
  rfl

theorem replies_append (h : c.replies (ks ++ ms) s = (.ok rs, u)) :
    ∃ xs s' ys, c.replies ks s = (.ok xs, s') ∧ c.replies ms s' = (.ok ys, u) ∧ rs = xs ++ ys := by
  induction ks generalizing s rs with
  | nil => exact ⟨[], s, rs, rfl, h, rfl⟩
  | cons k ks ih =>
    obtain ⟨x, s₁, zs, hk, hz, rfl⟩ := replies_cons h
    obtain ⟨xs, s', ys, hx, hy, rfl⟩ := ih hz
    exact ⟨x :: xs, s', ys, replies_of_reply hk hx, hy, rfl⟩

theorem length_replies (h : c.replies ks s = (.ok rs, u)) : rs.length = ks.length := by
  induction ks generalizing s rs with
  | nil =>
    cases h
    rfl
  | cons k ks ih =>
    obtain ⟨x, s', xs, -, hx, rfl⟩ := replies_cons h
    rw [List.length_cons, List.length_cons, ih hx]

theorem reply_of_openUp (h : c.openUp s = (.ok (), u)) : c.reply .init s = (.ok .opened, u) := by
  rw [reply, h]
  rfl

theorem reply_of_next {t : Option Tuple} (h : c.next s = (.ok t, u)) :
    c.reply .next s = (.ok (Reply.ofNext t), u) := by
  rw [reply, h]
  rfl

theorem reply_init {x : Reply} (h : c.reply .init s = (.ok x, u)) :
    c.openUp s = (.ok (), u) ∧ x = .opened := by
  rcases ho : c.openUp s with ⟨e | ⟨⟩, s'⟩
  · rw [reply, ho] at h
    cases h
  · rw [reply, ho] at h
    cases h
    exact ⟨rfl, rfl⟩

theorem reply_next {x : Reply} (h : c.reply .next s = (.ok x, u)) :
    ∃ t, c.next s = (.ok t, u) ∧ x = Reply.ofNext t := by
  rcases hn : c.next s with ⟨e | t, s'⟩
  · rw [reply, hn] at h
    cases h
  · rw [reply, hn] at h
    cases h
    exact ⟨t, rfl, rfl⟩

end Replies

/-- Where there are no more tuples, none will come later and the state stays. -/
def Fused (c : Cursor) : Prop :=
  ∀ s s', c.next s = (.ok none, s') → c.next s' = (.ok none, s')

theorem Fused.search {α : Type} {f : Tuple → Except QueryError (Option α)} (h : c.Fused)
    {s s' : c.State} (hs : c.search f s = (.ok none, s')) : c.search f s' = (.ok none, s') := by
  fun_induction Cursor.search c f s with
  | case1 => cases hs
  | case2 s s₁ hn =>
    cases hs
    exact search_end (h s _ hn)
  | case3 => cases hs
  | case4 => cases hs
  | case5 s t s₁ hn hf ih => exact ih hs

theorem fused_ofRelation (r : Relation) : (ofRelation r).Fused := by
  intro ts us h
  cases ts with
  | nil =>
    cases h
    rfl
  | cons t ts => cases h

theorem Fused.gate (h : c.Fused) : (gate c).Fused := by
  rintro ⟨_ | _, s⟩ ⟨b, s'⟩ hn
  · cases hn
    rfl
  · obtain ⟨hr, hs⟩ := Prod.mk.inj hn
    obtain ⟨rfl, rfl⟩ := Prod.mk.inj hs
    have hd : c.next (c.next s).2 = (.ok none, (c.next s).2) := h s _ (Prod.ext hr rfl)
    simp only [Cursor.gate, if_true, hd]

theorem Fused.filtered (h : c.Fused) (accept : Tuple → Except QueryError Bool) :
    (filtered accept c).Fused :=
  fun _ _ hn => h.search hn

theorem Fused.distinct (h : c.Fused) (f : Tuple → Tuple) : (distinct f c).Fused := by
  rintro ⟨seen, s⟩ ⟨seen', s'⟩ hn
  simp only [Cursor.distinct] at hn ⊢
  split at hn
  · cases hn
  · rename_i s₁ hs
    cases hn
    rw [h.search hs]
  · cases hn

theorem Fused.append (hr : r.Fused) : (append l r).Fused := by
  rintro ⟨done, a, b⟩ ⟨done', a', b'⟩ hn
  simp only [Cursor.append] at hn ⊢
  split at hn
  · cases hn
  · cases hn
  · obtain ⟨he, hs⟩ := Prod.mk.inj hn
    obtain ⟨rfl, rfl, rfl⟩ := hs
    have hd : r.next (r.next b).2 = (.ok none, (r.next b).2) := hr b _ (Prod.ext he rfl)
    rw [if_pos rfl]
    simp only [hd]

theorem Fused.difference (hl : l.Fused) : (difference l r).Fused := by
  rintro ⟨excluded, a, b⟩ ⟨excluded', a', b'⟩ hn
  simp only [Cursor.difference] at hn ⊢
  obtain ⟨he, hs⟩ := Prod.mk.inj hn
  obtain ⟨rfl, rfl, rfl⟩ := hs
  rw [hl.search (Prod.ext he rfl)]

theorem Fused.join (hl : l.Fused) (names : List String) : (join names l r).Fused := by
  rintro ⟨⟨rights, current⟩, a, b⟩ ⟨⟨rights', current'⟩, a', b'⟩ hn
  simp only [Cursor.join] at hn ⊢
  split at hn
  · rename_i he
    cases hn
    simp only [if_pos he]
  · rename_i he
    split at hn
    · cases hn
    · split at hn
      · cases hn
      · rename_i a₁ hs
        cases hn
        simp only [if_neg he, resume_none, hl.search hs]
      · cases hn

section Gate

variable {s : d.State} {u : (gate d).State} {ks : List Call} {rs : List Reply}

theorem next_closed (d : Cursor) : (gate d).next (gate d).start = (.ok none, (gate d).start) := rfl

theorem openUp_opened (s : d.State) : (gate d).openUp (true, s) = (.ok (), (true, s)) := rfl

theorem next_opened (s : d.State) :
    (gate d).next (true, s) = ((d.next s).1, (true, (d.next s).2)) := rfl

theorem next_of_inner {s s' : d.State} {t : Option Tuple} (h : d.next s = (.ok t, s')) :
    (gate d).next (true, s) = (.ok t, (true, s')) := by
  rw [next_opened, h]

theorem openUp_closed (h : (gate d).openUp (gate d).start = (.ok (), u)) :
    ∃ s, u = (true, s) ∧ d.openUp d.start = (.ok (), s) := by
  rcases ho : d.openUp d.start with ⟨e | ⟨⟩, s⟩
  · have hg : (gate d).openUp (gate d).start = (.error e, (false, s)) := by simp [gate, ho]
    rw [hg] at h
    cases h
  · have hg : (gate d).openUp (gate d).start = (.ok (), (true, s)) := by simp [gate, ho]
    rw [hg] at h
    cases h
    exact ⟨s, rfl, rfl⟩

theorem replies_closed (h : .init ∉ ks) : (gate d).replies ks (gate d).start =
    (.ok (List.replicate ks.length .nothing), (gate d).start) := by
  induction ks with
  | nil => rfl
  | cons k ks ih =>
    rw [List.mem_cons, not_or] at h
    cases k with
    | init => exact absurd rfl h.1
    | next => exact replies_of_reply (reply_of_next (next_closed d)) (ih h.2)

theorem handedOut_replicate (n : Nat) : handedOut (List.replicate n .nothing) = [] := by
  refine handedOut_eq_nil fun x hx => ?_
  rw [List.eq_of_mem_replicate hx]
  rfl

/-- The invariant of a cursor in use: the tuples handed out on the way and those that are left after
it make up the ones that were left before. -/
theorem replies_opened (hf : d.Fused) (h : (gate d).replies ks (true, s) = (.ok rs, u)) :
    ∃ s', u = (true, s') ∧ (d.drain s).1 = (d.drain s').1.map (handedOut rs ++ ·) := by
  induction ks generalizing s rs with
  | nil =>
    cases h
    refine ⟨s, rfl, ?_⟩
    cases (d.drain s).1 <;> rfl
  | cons k ks ih =>
    obtain ⟨x, s₁, xs, hk, hx, rfl⟩ := replies_cons h
    cases k with
    | init =>
      obtain ⟨ho, rfl⟩ := reply_init hk
      cases ho
      obtain ⟨s', hu, hd⟩ := ih hx
      exact ⟨s', hu, hd⟩
    | next =>
      obtain ⟨t, hn, rfl⟩ := reply_next hk
      rw [next_opened] at hn
      obtain ⟨he, rfl⟩ := Prod.mk.inj hn
      obtain ⟨s', rfl, hd⟩ := ih hx
      refine ⟨s', rfl, ?_⟩
      cases t with
      | none =>
        have hs : d.next s = (.ok none, (d.next s).2) := Prod.ext he rfl
        have hh : handedOut (Reply.ofNext none :: xs) = handedOut xs := rfl
        rw [drain_none hs, hh, ← hd, drain_none (hf s _ hs)]
      | some t =>
        rw [drain_some (Prod.ext he rfl), hd]
        cases (d.drain s').1 <;> rfl

theorem replies_ended (hs : d.next s = (.ok none, s))
    (h : (gate d).replies ks (true, s) = (.ok rs, u)) : ∀ x ∈ rs, x.tuple? = none := by
  induction ks generalizing rs with
  | nil =>
    cases h
    exact fun x hx => by cases hx
  | cons k ks ih =>
    obtain ⟨x, s₁, xs, hk, hx, rfl⟩ := replies_cons h
    cases k with
    | init =>
      obtain ⟨ho, rfl⟩ := reply_init hk
      cases ho
      exact List.forall_mem_cons.2 ⟨rfl, ih hx⟩
    | next =>
      obtain ⟨t, hn, rfl⟩ := reply_next hk
      rw [next_opened, hs] at hn
      cases hn
      exact List.forall_mem_cons.2 ⟨rfl, ih hx⟩

end Gate

/-- How a cursor answers some calls, none of which fails, compared with a run of a fresh one to its
end. -/
structure Answers (c : Cursor) (ks : List Call) (rs : List Reply) (u : c.State) : Prop where
  closed : ∀ before, before <+: ks → .init ∉ before →
    c.replies before c.start = (.ok (List.replicate before.length .nothing), c.start)
  reopened : ∀ before, before ++ [.init] <+: ks → .init ∈ before →
    ∃ xs s, c.replies before c.start = (.ok xs, s) ∧ c.reply .init s = (.ok .opened, s)
  /-- The run hands out the same tuples first and then those that are left, or fails on them. -/
  started : .init ∈ ks → (c.collect c.start).1 = (c.drain u).1.map (handedOut rs ++ ·)
  handed_first : ∀ r, (c.collect c.start).1 = .ok r → handedOut rs <+: r
  /-- Where nothing is left, all tuples of the run have been handed out, and none comes later. -/
  ended : ∀ before, before ++ [.next] <+: ks → .init ∈ before →
    rs[before.length]? = some .nothing →
    (c.collect c.start).1 = .ok (handedOut rs) ∧ ∀ x ∈ rs.drop before.length, x.tuple? = none

section Gate

variable {u : (gate d).State} {ks : List Call} {rs : List Reply}

theorem replies_started (h : .init ∈ ks) (hr : (gate d).replies ks (gate d).start = (.ok rs, u)) :
    ∃ ms s xs, d.openUp d.start = (.ok (), s) ∧ (gate d).replies ms (true, s) = (.ok xs, u) ∧
      handedOut rs = handedOut xs := by
  obtain ⟨before, after, rfl, hb⟩ := List.eq_append_cons_of_mem h
  obtain ⟨ys, s₁, zs, hy, hz, rfl⟩ := replies_append hr
  rw [replies_closed hb] at hy
  cases hy
  obtain ⟨x, s₂, xs, hk, hx, rfl⟩ := replies_cons hz
  obtain ⟨ho, rfl⟩ := reply_init hk
  obtain ⟨s, rfl, hs⟩ := openUp_closed ho
  refine ⟨after, s, xs, hs, hx, ?_⟩
  rw [handedOut_append, handedOut_replicate]
  rfl

theorem collect_of_started (hf : d.Fused) (h : .init ∈ ks)
    (hr : (gate d).replies ks (gate d).start = (.ok rs, u)) : ∃ s', u = (true, s') ∧
      ((gate d).collect (gate d).start).1 = (d.drain s').1.map (handedOut rs ++ ·) := by
  obtain ⟨ms, s, xs, ho, hx, he⟩ := replies_started h hr
  obtain ⟨s', rfl, hd⟩ := replies_opened hf hx
  refine ⟨s', rfl, ?_⟩
  rw [collect_gate, collect, ho, he]
  exact hd

theorem answers_gate (hf : d.Fused) (h : (gate d).replies ks (gate d).start = (.ok rs, u)) :
    (gate d).Answers ks rs u where
  closed before _ hb := replies_closed hb
  reopened before hk hb := by
    obtain ⟨after, rfl⟩ := hk
    rw [List.append_assoc] at h
    obtain ⟨xs, s, ys, hx, -, -⟩ := replies_append h
    obtain ⟨s', rfl, -⟩ := collect_of_started hf hb hx
    exact ⟨xs, _, hx, rfl⟩
  started hm := by
    obtain ⟨s', rfl, hc⟩ := collect_of_started hf hm h
    rw [hc, drain_gate]
  handed_first r hr := by
    by_cases hm : .init ∈ ks
    · obtain ⟨s', rfl, hc⟩ := collect_of_started hf hm h
      rw [hc] at hr
      cases hd : (d.drain s').1 with
      | error e =>
        rw [hd] at hr
        cases hr
      | ok ts =>
        rw [hd] at hr
        cases hr
        exact List.prefix_append _ _
    · rw [replies_closed hm] at h
      cases h
      rw [handedOut_replicate]
      exact List.nil_prefix
  ended before hk hb hn := by
    obtain ⟨after, rfl⟩ := hk
    rw [List.append_assoc] at h
    obtain ⟨xs, s, ys, hx, hy, rfl⟩ := replies_append h
    obtain ⟨s', rfl, hc⟩ := collect_of_started hf hb hx
    obtain ⟨y, s₁, zs, hk, hz, rfl⟩ := replies_cons hy
    obtain ⟨t, ht, rfl⟩ := reply_next hk
    rw [← length_replies hx, List.getElem?_append_right (Nat.le_refl _), Nat.sub_self] at hn
    cases t with
    | some t => cases hn
    | none =>
      obtain ⟨he, rfl⟩ := Prod.mk.inj ht
      have hs : d.next s' = (.ok none, (d.next s').2) := Prod.ext he rfl
      have hrest : ∀ x ∈ Reply.ofNext none :: zs, x.tuple? = none :=
        List.forall_mem_cons.2 ⟨rfl, replies_ended (hf s' _ hs) hz⟩
      rw [hc, drain_none hs, handedOut_append, handedOut_eq_nil hrest, ← length_replies hx,
        List.drop_left]
      exact ⟨rfl, hrest⟩

/-- What a list of tuples answers, before it is opened or after. -/
def script : Bool → List Tuple → List Call → List Reply
  | _, _, [] => []
  | _, ts, .init :: ks => .opened :: script true ts ks
  | false, ts, .next :: ks => .nothing :: script false ts ks
  | true, [], .next :: ks => .nothing :: script true [] ks
  | true, t :: ts, .next :: ks => .handed t :: script true ts ks

theorem replies_of_serves (hf : d.Fused) {s : d.State} {ts : List Tuple} (h : d.Serves s ts)
    (ks : List Call) : ∃ u, (gate d).replies ks (true, s) = (.ok (script true ts ks), u) := by
  induction ks generalizing s ts with
  | nil => exact ⟨_, rfl⟩
  | cons k ks ih =>
    cases k with
    | init =>
      obtain ⟨u, hu⟩ := ih h
      exact ⟨u, replies_of_reply (reply_of_openUp (openUp_opened s)) hu⟩
    | next =>
      cases ts with
      | nil =>
        obtain ⟨s', hn⟩ := h.next_nil
        obtain ⟨u, hu⟩ := ih (serves_nil (hf s s' hn))
        exact ⟨u, replies_of_reply (reply_of_next (next_of_inner hn)) hu⟩
      | cons t ts =>
        obtain ⟨s', hn, hs⟩ := h.next_cons
        obtain ⟨u, hu⟩ := ih hs
        exact ⟨u, replies_of_reply (reply_of_next (next_of_inner hn)) hu⟩

theorem replies_of_opens (hf : d.Fused) {ts : List Tuple}
    (h : (gate d).Opens (gate d).start ts) (ks : List Call) :
    ∃ u, (gate d).replies ks (gate d).start = (.ok (script false ts ks), u) := by
  induction ks with
  | nil => exact ⟨_, rfl⟩
  | cons k ks ih =>
    cases k with
    | init =>
      obtain ⟨s₁, ho, hs⟩ := h
      obtain ⟨s, rfl, -⟩ := openUp_closed ho
      obtain ⟨u, hu⟩ := replies_of_serves hf ((drain_gate d s).symm.trans hs) ks
      exact ⟨u, replies_of_reply (reply_of_openUp ho) hu⟩
    | next =>
      obtain ⟨u, hu⟩ := ih
      exact ⟨u, replies_of_reply (reply_of_next (next_closed d)) hu⟩

end Gate

end Cursor

namespace Plan

open Cursor

def ungated : Plan → Cursor
  | scan r => ofRelation r
  | select c p => filtered c.check p.cursor
  | project names p => distinct (·.project names) p.cursor
  | rename _ p => p.cursor
  | union l r => distinct id (append l.cursor r.cursor)
  | difference l r => Cursor.difference l.cursor r.cursor
  | join names l r => Cursor.join names l.cursor r.cursor

theorem cursor_eq_gate (p : Plan) : p.cursor = gate p.ungated := by
  cases p <;> rfl

theorem fused_ungated (p : Plan) : p.ungated.Fused := by
  have hc : ∀ q : Plan, q.ungated.Fused → q.cursor.Fused := fun q h => by
    rw [cursor_eq_gate]
    exact h.gate
  induction p with
  | scan r => exact fused_ofRelation r
  | select c p ih => exact (hc p ih).filtered c.check
  | project names p ih => exact (hc p ih).distinct (·.project names)
  | rename name p ih => exact hc p ih
  | union l r _ ihr => exact (hc r ihr).append.distinct id
  | difference l r ihl _ => exact (hc l ihl).difference
  | join names l r ihl _ => exact (hc l ihl).join names

/-- What holds of all cursors behind a gate that give nothing behind their end holds of a plan's. -/
theorem cursor_of_gate {P : Cursor → Prop} (h : ∀ d : Cursor, d.Fused → P (gate d)) (p : Plan) :
    P p.cursor := by
  rw [cursor_eq_gate]
  exact h _ p.fused_ungated

theorem replies_reference {p : Plan} {r : Relation} (h : p.reference = .ok r) (ks : List Call) :
    ∃ u, p.cursor.replies ks p.cursor.start = (.ok (script false r ks), u) :=
  cursor_of_gate (P := fun c => c.Opens c.start r →
    ∃ u, c.replies ks c.start = (.ok (script false r ks), u))
    (fun _ hf ho => replies_of_opens hf ho ks) p (opens_reference h)

/-- However the cursor of a plan is used, as long as no call fails it hands out the tuples of the
run one by one, with nothing before it is opened and nothing behind the last. -/
theorem answers_calls (p : Plan) {ks : List Call} {rs : List Reply} {u : p.cursor.State}
    (h : p.cursor.replies ks p.cursor.start = (.ok rs, u)) : p.cursor.Answers ks rs u :=
  cursor_of_gate (P := fun c => ∀ u : c.State,
    c.replies ks c.start = (.ok rs, u) → c.Answers ks rs u)
    (fun _ hf _ hr => answers_gate hf hr) p u h

/-- Asked too early, opened twice, and asked again behind the end. -/
theorem answers_calls_layered : ∃ u,
    layered.cursor.replies [.next, .init, .next, .init, .next, .next, .init, .next]
      layered.cursor.start =
      (.ok [.nothing, .opened,
        .handed (.ofPairs [("k", .number (.negate .zero)), ("a", .text "x"), ("v", .text "p")]),
        .opened, .handed (.ofPairs [("k", .number .zero), ("a", .text "x"), ("v", .text "r")]),
        .nothing, .opened, .nothing], u) ∧
    layered.cursor.Answers [.next, .init, .next, .init, .next, .next, .init, .next]
      [.nothing, .opened,
        .handed (.ofPairs [("k", .number (.negate .zero)), ("a", .text "x"), ("v", .text "p")]),
        .opened, .handed (.ofPairs [("k", .number .zero), ("a", .text "x"), ("v", .text "r")]),
        .nothing, .opened, .nothing] u := by
  have hr : layered.reference = .ok
      [.ofPairs [("k", .number (.negate .zero)), ("a", .text "x"), ("v", .text "p")],
        .ofPairs [("k", .number .zero), ("a", .text "x"), ("v", .text "r")]] := by
    decide +kernel
  obtain ⟨u, h⟩ :=
    replies_reference hr [.next, .init, .next, .init, .next, .next, .init, .next]
  exact ⟨u, h, answers_calls layered h⟩

end Plan

end RelAlg
