import RelAlg.Proofs.Edit.Steps

set_option autoImplicit false

namespace RelAlg

/-- A query or a line given to a session, or a command on the store that it shares with others. -/
inductive Session.Event where
  | given (step : Session.Step)
  | command (c : Command)

namespace Store

def next (s : Store) : Session.Event → Store
  | .given (.query _) => s
  | .given (.line text) => s.after (.command text)
  | .command c => s.orKeep ((c.apply s).map Prod.snd)

def later (s : Store) (es : List Session.Event) : Store :=
  es.foldl next s

def answer? (s : Store) (limit : Nat) : Session.Event → Option History.Entry
  | .given (.query text) =>
    if (Text.trimmed text).isEmpty then none
    else
      match s.query limit (Text.trimmed text) with
      | .ok r => some ⟨Text.trimmed text, r.length, r⟩
      | .error _ => none
  | _ => none

/-- The answered queries, the oldest first. Each is asked on the store that the events before it
have led to. -/
def answered (limit : Nat) : Store → List Session.Event → List History.Entry
  | _, [] => []
  | s, e :: es => (s.answer? limit e).toList ++ answered limit (s.next e) es

variable {limit : Nat} {e : Session.Event} {x : History.Entry}

theorem answer?_query {s : Store} {text : String} {r : Relation} (ht : Text.trimmed text ≠ "")
    (h : s.query limit (Text.trimmed text) = .ok r) :
    s.answer? limit (.given (.query text)) = some ⟨Text.trimmed text, r.length, r⟩ := by
  rw [answer?, if_neg (by rwa [String.isEmpty_iff]), h]

theorem answer?_eq_some {s : Store} : s.answer? limit e = some x ↔
    ∃ text, e = .given (.query text) ∧ Text.trimmed text ≠ "" ∧
      s.query limit (Text.trimmed text) = .ok x.result ∧ x.query = Text.trimmed text ∧
      x.count = x.result.length := by
  constructor
  · intro h
    cases e with
    | command c => cases h
    | given a =>
      cases a with
      | line text => cases h
      | query text =>
        rw [answer?] at h
        split at h
        · cases h
        · rename_i ht
          split at h
          · rename_i r hr
            cases h
            exact ⟨text, rfl, by rwa [String.isEmpty_iff] at ht, hr, rfl, rfl⟩
          · cases h
  · rintro ⟨text, rfl, ht, hr, hq, hc⟩
    obtain ⟨query, count, result⟩ := x
    change query = _ at hq
    change count = _ at hc
    rw [hq, hc]
    exact answer?_query ht hr

theorem answered_append (s : Store) (es fs : List Session.Event) :
    s.answered limit (es ++ fs) = s.answered limit es ++ (s.later es).answered limit fs := by
  induction es generalizing s with
  | nil => rfl
  | cons e es ih =>
    rw [List.cons_append, answered, answered, ih (s.next e), List.append_assoc]
    rfl

/-- Counted from the newest, an answered query stands behind those answered later. -/
theorem getElem?_answered {s : Store} {es : List Session.Event} {i : Nat} :
    (s.answered limit es).reverse[i]? = some x ↔ ∃ before e after, es = before ++ e :: after ∧
      (s.later before).answer? limit e = some x ∧
      (((s.later before).next e).answered limit after).length = i := by
  constructor
  · intro h
    induction es generalizing s with
    | nil => cases h
    | cons e es ih =>
      -- The answer to the first event, if there is one, is the last of the reversed list.
      rw [answered, List.reverse_append] at h
      by_cases hi : i < ((s.next e).answered limit es).length
      · rw [List.getElem?_append_left (by rwa [List.length_reverse])] at h
        obtain ⟨before, e', after, rfl, hx, ha⟩ := ih h
        exact ⟨e :: before, e', after, rfl, hx, ha⟩
      · rw [List.getElem?_append_right (by rw [List.length_reverse]; omega)] at h
        cases hx : s.answer? limit e with
        | none =>
          rw [hx] at h
          cases h
        | some y =>
          rw [hx, List.length_reverse] at h
          obtain ⟨hj, rfl⟩ : i - ((s.next e).answered limit es).length = 0 ∧ y = x := by
            cases hj : i - ((s.next e).answered limit es).length with
            | zero =>
              rw [hj] at h
              exact ⟨rfl, Option.some.inj h⟩
            | succ j =>
              rw [hj] at h
              cases h
          refine ⟨[], e, es, rfl, hx, ?_⟩
          change ((s.next e).answered limit es).length = i
          omega
  · rintro ⟨before, e, after, rfl, hx, rfl⟩
    rw [answered_append, answered, hx, Option.toList_some, List.reverse_append, List.reverse_append,
      List.append_assoc, List.getElem?_append_right (Nat.le_of_eq List.length_reverse),
      List.length_reverse, Nat.sub_self]
    rfl

end Store

namespace History

def recent (capacity : Nat) (log : List Entry) : History :=
  ⟨capacity, log.reverse.take capacity⟩

theorem record_recent (capacity : Nat) (log : List Entry) (query : String) (r : Relation) :
    (recent capacity log).record query r = recent capacity (log ++ [⟨query, r.length, r⟩]) := by
  cases capacity with
  | zero => rfl
  | succ n =>
    rw [record, recent, if_neg (Nat.succ_ne_zero n), recent, List.reverse_append,
      List.reverse_singleton, List.singleton_append, List.take_succ_cons, List.take_succ_cons,
      List.take_take, Nat.min_eq_left (Nat.le_succ n)]

end History

namespace Session

open Edit

def next (s : Session) : Event → Session
  | .given a => (runOn (step a) s).2
  | .command c => (runOn (onStore (Edit.command c)) s).2

def later (s : Session) (es : List Event) : Session :=
  es.foldl next s

theorem step_query_eq_ok {s : Session} {text : String} {r : Relation} :
    (runOn (step (.query text)) s).1 = .ok (.relation r) ↔
      Text.trimmed text ≠ "" ∧ s.store.query s.maxDepth (Text.trimmed text) = .ok r := by
  rw [step, runOn_bind, runOn_adapt, runOn_query, execute, Ne, ← String.isEmpty_iff]
  by_cases ht : (Text.trimmed text).isEmpty
  · rw [if_pos ht]
    exact ⟨fun h => (by cases h), fun h => absurd ht h.1⟩
  · rw [if_neg ht]
    cases s.store.query s.maxDepth (Text.trimmed text) with
    | error e => exact ⟨fun h => (by cases h), fun h => (by cases h.2)⟩
    | ok r' => exact ⟨fun h => ⟨ht, by cases h; rfl⟩, fun h => by cases h.2; rfl⟩

theorem line_store (s : Session) (text : String) :
    (runOn (line text) s).2 = { s with store := s.store.after (.command text) } := by
  rw [runOn_line, edit, Store.after, Store.applyLine]
  cases Command.parse text.toList with
  | error e => rfl
  | ok c =>
    cases c with
    | none => rfl
    | some c =>
      change (allOrNothing s ((c.apply s.store >>= fun p =>
        .ok (some (p.1, { s with store := p.2 }))).map _)).2 =
        Session.mk (s.store.orKeep (c.apply s.store >>= fun p => .ok p.2)) _ _
      cases c.apply s.store <;> rfl

theorem next_eq (s : Session) (e : Event) : s.next e =
    ⟨s.store.next e, s.maxDepth, (s.store.answer? s.maxDepth e).elim s.history fun x =>
      s.history.record x.query x.result⟩ := by
  cases e with
  | command c =>
    rw [next, onStore, runOn_bind, runOn_get]
    dsimp only
    rw [runOn_bind, runOn_command, Store.next]
    cases c.apply s.store <;> rfl
  | given a =>
    cases a with
    | line text =>
      have hl : s.next (.given (.line text)) = (runOn (line text) s).2 := by
        rw [next, step, runOn_bind, runOn_adapt]
        generalize runOn (line text) s = p
        obtain ⟨x, s'⟩ := p
        cases x with
        | error e => rfl
        | ok o => cases o <;> rfl
      rw [hl, line_store]
      rfl
    | query text =>
      rw [next, step, runOn_bind, runOn_adapt, runOn_query, execute, Store.next, Store.answer?]
      by_cases ht : (Text.trimmed text).isEmpty
      · rw [if_pos ht, if_pos ht]
        rfl
      · rw [if_neg ht, if_neg ht]
        cases s.store.query s.maxDepth (Text.trimmed text) <;> rfl

theorem later_recent (store : Store) (limit capacity : Nat) (log : List History.Entry)
    (es : List Event) : later ⟨store, limit, .recent capacity log⟩ es =
      ⟨store.later es, limit, .recent capacity (log ++ store.answered limit es)⟩ := by
  -- What the history already has is general, since each event leads to the next session.
  induction es generalizing store log with
  | nil =>
    rw [Store.answered, List.append_nil]
    rfl
  | cons e es ih =>
    have hn : next ⟨store, limit, .recent capacity log⟩ e =
        ⟨store.next e, limit, .recent capacity (log ++ (store.answer? limit e).toList)⟩ := by
      rw [next_eq]
      cases hx : store.answer? limit e with
      | none => rw [Option.toList_none, List.append_nil, Option.elim_none]
      | some x =>
        obtain ⟨_, -, -, -, -, hc⟩ := Store.answer?_eq_some.1 hx
        rw [Option.elim_some, History.record_recent, ← hc, Option.toList_some]
    change later (next _ e) es = _
    rw [hn, ih (store.next e), Store.answered, List.append_assoc]
    rfl

variable (store : Store) (limit capacity : Nat)

theorem later_start (es : List Event) : (start store limit capacity).later es =
    ⟨store.later es, limit, .recent capacity (store.answered limit es)⟩ := by
  have h : start store limit capacity = ⟨store, limit, .recent capacity []⟩ := by
    rw [start, History.empty, History.recent, List.reverse_nil, List.take_nil]
  rw [h, later_recent, List.nil_append]

/-- However queries, lines and commands follow each other, the history has the answered queries from
the newest on, as many as it has room for: the trimmed text, what the query was answered with on the
store of its moment, and the number of tuples in that. Nothing but a query with an answer changes
it. -/
theorem history_recent (es : List Event) :
    let session := (start store limit capacity).later
    (session es).store = store.later es ∧
    (session es).history.entries.length = min capacity (store.answered limit es).length ∧
    (∀ i x, (session es).history.entries[i]? = some x ↔ i < capacity ∧
      ∃ before text after, es = before ++ .given (.query text) :: after ∧
        Text.trimmed text ≠ "" ∧ x.query = Text.trimmed text ∧ x.count = x.result.length ∧
        (store.later before).query limit x.query = .ok x.result ∧
        ((store.later before).answered limit after).length = i) ∧
    (∀ before text r,
      (runOn (step (.query text)) (session before)).1 = .ok (.relation r) ↔
        Text.trimmed text ≠ "" ∧ (store.later before).query limit (Text.trimmed text) = .ok r) ∧
    ∀ after, (store.later es).answered limit after = [] →
      (session (es ++ after)).history = (session es).history := by
  intro session
  have hs : ∀ es, session es =
      ⟨store.later es, limit, .recent capacity (store.answered limit es)⟩ :=
    later_start store limit capacity
  refine ⟨by rw [hs], ?_, ?_, ?_, ?_⟩
  · rw [hs, History.recent, List.length_take, List.length_reverse]
  · intro i x
    rw [hs, History.recent, List.getElem?_take]
    by_cases hi : i < capacity
    · rw [if_pos hi, Store.getElem?_answered]
      constructor
      · rintro ⟨before, e, after, he, hx, ha⟩
        obtain ⟨text, rfl, ht, hr, hq, hc⟩ := Store.answer?_eq_some.1 hx
        exact ⟨hi, before, text, after, he, ht, hq, hc, hq ▸ hr, ha⟩
      · rintro ⟨-, before, text, after, he, ht, hq, hc, hr, ha⟩
        exact ⟨before, _, after, he,
          Store.answer?_eq_some.2 ⟨text, rfl, ht, hq ▸ hr, hq, hc⟩, ha⟩
    · rw [if_neg hi]
      exact ⟨fun h => (by cases h), fun h => absurd h.1 hi⟩
  · intro before text r
    rw [step_query_eq_ok, hs]
  · intro after ha
    rw [hs, hs, Store.answered_append, ha, List.append_nil]

def asked : List Event :=
  [.given (.query "R"), .given (.query " R\t"), .given (.line ":insert R"), .given (.query "R "),
    .given (.query " "), .command (.drop "R"), .given (.query "R")]

theorem history_recent_asked :
    let s := (start (Store.empty.put "R" ⟨[], []⟩) 100 2).later asked
    s.store.get? "R" = none ∧ s.history.entries.length = 2 ∧
      s.history.entries[0]? = some ⟨"R", 1, [.empty]⟩ ∧
      s.history.entries[1]? = some ⟨"R", 0, []⟩ := by
  intro s
  obtain ⟨hs, hl, he, -, -⟩ := history_recent (Store.empty.put "R" ⟨[], []⟩) 100 2 asked
  refine ⟨hs ▸ (by decide +kernel), hl.trans (by decide +kernel), ?_, ?_⟩
  · refine (he 0 _).2 ⟨by decide, asked.take 3, "R ", asked.drop 4, rfl, ?_⟩
    exact ⟨by decide, by decide +kernel, rfl, rfl, by decide +kernel⟩
  · refine (he 1 _).2 ⟨by decide, asked.take 1, " R\t", asked.drop 2, rfl, ?_⟩
    exact ⟨by decide, by decide +kernel, rfl, rfl, by decide +kernel⟩

end Session

end RelAlg
