import RelAlg.Proofs.Cursor.Drain
import RelAlg.Proofs.Outcome
import RelAlg.Proofs.Tuple.Content

set_option autoImplicit false

namespace RelAlg

namespace Relation

def occurrences (ts : List Tuple) : List Tuple :=
  ts.eraseDupsBy Tuple.same

theorem firsts_eq (seen : List Tuple.Key) (ts : List Tuple) :
    firsts seen ts = occurrences (ts.filter fun t => !seen.contains t.key) := by
  induction ts generalizing seen with
  | nil => rfl
  | cons t ts ih =>
    rw [firsts]
    by_cases hc : seen.contains t.key = true
    · rw [if_pos hc, List.filter_cons_of_neg (by simpa using hc), ih]
    · rw [if_neg hc, List.filter_cons_of_pos (by simpa using hc), occurrences,
        List.eraseDupsBy_cons, ih, occurrences, List.filter_filter]
      refine congrArg (fun us => t :: List.eraseDupsBy Tuple.same us) (List.filter_congr ?_)
      intro u _
      rw [Bool.eq_iff_iff, Bool.and_eq_true, decide_eq_true_eq, Bool.not_eq_true',
        Bool.not_eq_true', ← Bool.not_eq_true, ← Bool.not_eq_true, ← Bool.not_eq_true,
        Tuple.same_iff_key, List.contains_iff_mem, List.contains_iff_mem, List.mem_cons, not_or]

theorem firsts_nil (ts : List Tuple) : firsts [] ts = occurrences ts := by
  rw [firsts_eq]
  exact congrArg occurrences (List.filter_eq_self.2 fun _ _ => rfl)

theorem holds_iff_key {ts : List Tuple} {t : Tuple} :
    holds ts t = true ↔ t.key ∈ ts.map Tuple.key := by
  rw [holds, List.any_eq_true, List.mem_map]
  exact exists_congr fun u => and_congr_right fun _ => Tuple.same_iff_key

end Relation

namespace Plan

def reference : Plan → Except QueryError Relation
  | scan r => .ok r
  | select c p => do Relation.keep c.check (← p.reference)
  | project names p => do return Relation.occurrences ((← p.reference).map (·.project names))
  | rename _ p => p.reference
  | union l r => do
    let ts ← l.reference
    let us ← r.reference
    return Relation.occurrences (ts ++ us)
  | difference l r => do
    let ts ← l.reference
    let us ← r.reference
    return ts.filter fun t => !Relation.holds us t
  | join names l r => do
    let ts ← l.reference
    let us ← r.reference
    return ts.flatMap fun t => (us.filter (t.agreesOn · names)).map t.merge

end Plan

namespace Cursor

theorem opens_filtered {accept : Tuple → Except QueryError Bool} {c : Cursor} {ts us : List Tuple}
    (h : c.Opens c.start ts) (hk : Relation.keep accept ts = .ok us) :
    (filtered accept c).Opens (filtered accept c).start us := by
  obtain ⟨s, ho, hs⟩ := h
  exact ⟨s, ho, (drain_filtered accept hs).trans hk⟩

end Cursor

namespace Plan

open Cursor

/-- By induction on the plan: every cursor opens, because those below it do, and then serves what
its operator makes of their tuples. -/
theorem opens_reference {p : Plan} {ts : List Tuple} (h : p.reference = .ok ts) :
    p.cursor.Opens p.cursor.start ts := by
  induction p generalizing ts with
  | scan r =>
    cases h
    exact opens_gate (opens_ofRelation r)
  | select c p ih =>
    obtain ⟨us, hp, hk⟩ := bind_ok h
    exact opens_gate (opens_filtered (ih hp) hk)
  | project names p ih =>
    obtain ⟨us, hp, h⟩ := bind_ok h
    cases h
    rw [← Relation.firsts_nil]
    exact opens_gate (opens_distinct _ (ih hp))
  | rename name p ih => exact opens_gate (ih h)
  | union l r ihl ihr =>
    obtain ⟨us, hl, h⟩ := bind_ok h
    obtain ⟨vs, hr, h⟩ := bind_ok h
    cases h
    have ho := opens_distinct id (opens_append (ihl hl) (ihr hr))
    rw [List.map_id, Relation.firsts_nil] at ho
    exact opens_gate ho
  | difference l r ihl ihr =>
    obtain ⟨us, hl, h⟩ := bind_ok h
    obtain ⟨vs, hr, h⟩ := bind_ok h
    cases h
    have hf : ∀ t, (!(vs.map Tuple.key).contains t.key) = !Relation.holds vs t := by
      intro t
      rw [Bool.eq_iff_iff, Bool.not_eq_true', Bool.not_eq_true', ← Bool.not_eq_true,
        ← Bool.not_eq_true, List.contains_iff_mem, Relation.holds_iff_key]
    have ho := opens_difference (ihl hl) (ihr hr)
    simp only [hf] at ho
    exact opens_gate ho
  | join names l r ihl ihr =>
    obtain ⟨us, hl, h⟩ := bind_ok h
    obtain ⟨vs, hr, h⟩ := bind_ok h
    cases h
    exact opens_gate (opens_join names (ihl hl) (ihr hr))

/-- Where the reference list of a plan is defined, running the plan gives that list: the same tuples
in the same order, as often, and with their attributes in the same order. -/
theorem run_reference {p : Plan} {r : Relation} (h : p.reference = .ok r) : p.run = .ok r :=
  (opens_reference h).collect

/-- All operators inside one another: a tuple met twice with its attributes in another order, the
two zeros as one value, and a join that resumes behind its first match. -/
def layered : Plan :=
  .join ["k"]
    (.select ⟨"a != 'z'", .compare .ne (.attr "a") (.literal (.text "z"))⟩
      (.union (.scan [.ofPairs [("k", .number .zero), ("a", .text "x")]])
        (.scan [.ofPairs [("a", .text "x"), ("k", .number (.negate .zero))],
          .ofPairs [("a", .text "z"), ("k", .number .zero)]])))
    (.difference
      (.rename "S" (.project ["k", "v"]
        (.scan [.ofPairs [("v", .text "p"), ("w", .text "1"), ("k", .number (.negate .zero))],
          .ofPairs [("k", .number .zero), ("v", .text "p")],
          .ofPairs [("k", .number .zero), ("v", .text "q")],
          .ofPairs [("k", .number .zero), ("v", .text "r")]])))
      (.scan [.ofPairs [("v", .text "q"), ("k", .number .zero)]]))

theorem run_reference_layered :
    layered.reference = .ok
      [.ofPairs [("k", .number (.negate .zero)), ("a", .text "x"), ("v", .text "p")],
        .ofPairs [("k", .number .zero), ("a", .text "x"), ("v", .text "r")]] ∧
    layered.run = .ok
      [.ofPairs [("k", .number (.negate .zero)), ("a", .text "x"), ("v", .text "p")],
        .ofPairs [("k", .number .zero), ("a", .text "x"), ("v", .text "r")]] := by
  have h : layered.reference = .ok
      [.ofPairs [("k", .number (.negate .zero)), ("a", .text "x"), ("v", .text "p")],
        .ofPairs [("k", .number .zero), ("a", .text "x"), ("v", .text "r")]] := by
    decide +kernel
  exact ⟨h, run_reference h⟩

end Plan

end RelAlg
