import RelAlg.Proofs.Edit.AllOrNothing

set_option autoImplicit false

namespace RelAlg.Session

open Edit

def run (s : Session) : List Step → List (Except Fault Answer) × Session
  | [] => ([], s)
  | a :: as =>
    let (x, s') := runOn (step a) s
    let (xs, s'') := s'.run as
    (x :: xs, s'')

def survivors (s : Session) (as : List Step) : List Step :=
  ((as.zip (s.run as).1).filter (·.2.isOk)).map Prod.fst

/-- All that a step can do: fail and change nothing, answer a query and record it, edit the store,
or do nothing with a line that is no command. -/
theorem step_cases (a : Step) (s : Session) :
    (∃ e, runOn (step a) s = (.error e, s)) ∨
    (∃ text r, a = .query text ∧ s.store.query s.maxDepth (Text.trimmed text) = .ok r ∧
      runOn (step a) s =
        (.ok (.relation r), { s with history := s.history.record (Text.trimmed text) r })) ∨
    (∃ text c message store, a = .line text ∧ Command.parse text.toList = .ok (some c) ∧
      c.apply s.store = .ok (message, store) ∧
      runOn (step a) s = (.ok (.edited message), { s with store })) ∨
    (∃ text, a = .line text ∧ Command.parse text.toList = .ok none ∧
      runOn (step a) s = (.ok .noCommand, s)) := by
  cases a with
  | query text =>
    rw [step, runOn_bind, runOn_adapt, runOn_query]
    cases h : s.execute text with
    | error e => exact .inl ⟨_, rfl⟩
    | ok p =>
      rw [execute] at h
      split at h
      · cases h
      · obtain ⟨r, hr, h⟩ := bind_ok h
        cases h
        exact .inr (.inl ⟨text, r, rfl, hr, rfl⟩)
  | line text =>
    rw [step, runOn_bind, runOn_adapt, runOn_line]
    cases h : s.edit text with
    | error e => exact .inl ⟨_, rfl⟩
    | ok o =>
      obtain ⟨c, hc, h⟩ := bind_ok h
      cases c with
      | none =>
        cases h
        exact .inr (.inr (.inr ⟨text, rfl, hc, rfl⟩))
      | some c =>
        obtain ⟨⟨message, store⟩, ha, h⟩ := bind_ok h
        cases h
        exact .inr (.inr (.inl ⟨text, c, message, store, rfl, hc, ha, rfl⟩))

variable (a : Step) (s : Session)

theorem eq_of_error {e : Fault} (h : (runOn (step a) s).1 = .error e) :
    (runOn (step a) s).2 = s := by
  obtain ⟨x, hx⟩ | ⟨text, r, -, -, hx⟩ | ⟨text, c, message, store, -, -, -, hx⟩ |
    ⟨text, -, -, hx⟩ := step_cases a s <;> rw [hx] at h ⊢ <;> cases h

theorem store_query (text : String) : (runOn (step (.query text)) s).2.store = s.store := by
  obtain ⟨x, hx⟩ | ⟨_, r, -, -, hx⟩ | ⟨_, _, _, _, ha, -⟩ | ⟨_, ha, -⟩ := step_cases (.query text) s
  · rw [hx]
  · rw [hx]
  · cases ha
  · cases ha

theorem history_line (text : String) : (runOn (step (.line text)) s).2.history = s.history := by
  obtain ⟨x, hx⟩ | ⟨_, _, ha, -⟩ | ⟨_, c, message, store, -, -, -, hx⟩ | ⟨_, -, -, hx⟩ :=
    step_cases (.line text) s
  · rw [hx]
  · cases ha
  · rw [hx]
  · rw [hx]

theorem run_cons (as : List Step) : s.run (a :: as) =
    ((runOn (step a) s).1 :: ((runOn (step a) s).2.run as).1, ((runOn (step a) s).2.run as).2) :=
  rfl

theorem survivors_cons (as : List Step) : s.survivors (a :: as) =
    if (runOn (step a) s).1.isOk then a :: (runOn (step a) s).2.survivors as
    else (runOn (step a) s).2.survivors as := by
  rw [survivors, run_cons, List.zip_cons_cons, List.filter_cons]
  split <;> rfl

/-- By induction on the steps: at a failing one both runs are in the same session, which is the one
behind it as well. -/
theorem run_survivors (as : List Step) :
    s.run (s.survivors as) = ((s.run as).1.filter (·.isOk), (s.run as).2) := by
  induction as generalizing s with
  | nil => rfl
  | cons a as ih =>
    rw [survivors_cons, run_cons, List.filter_cons]
    cases hx : (runOn (step a) s).1 with
    | ok x =>
      change s.run (a :: (runOn (step a) s).2.survivors as) = _
      rw [run_cons, hx, ih]
      rfl
    | error e =>
      change s.run ((runOn (step a) s).2.survivors as) =
        (((runOn (step a) s).2.run as).1.filter (·.isOk), ((runOn (step a) s).2.run as).2)
      rw [eq_of_error a s hx, ih]

/-- A failing step is as good as none: it leaves the store and the history as they were, and without
all the failing steps a run has the same answers to the others and the same end. Queries leave the
store alone, lines the history. -/
theorem failing_steps (s : Session) :
    (∀ a e, (runOn (step a) s).1 = .error e → (runOn (step a) s).2 = s) ∧
    (∀ text, (runOn (step (.query text)) s).2.store = s.store) ∧
    (∀ text, (runOn (step (.line text)) s).2.history = s.history) ∧
    ∀ as, s.run (s.survivors as) = ((s.run as).1.filter (·.isOk), (s.run as).2) :=
  ⟨fun a _ => eq_of_error a s, store_query s, history_line s, run_survivors s⟩

def unshaped : Session := .start (Store.empty.put "R" ⟨[], []⟩) 100 50

theorem failing_steps_unshaped :
    (runOn (step (.line ":update R 0")) unshaped).1 =
      .error (.command (.store (.indexOutOfRange "R" 0 0))) ∧
    (runOn (step (.line ":update R 0")) unshaped).2 = unshaped ∧
    unshaped.survivors [.query "R", .line ":update R 0", .query " ", .line ":insert R",
      .line ":delete R 1", .line "help"] = [.query "R", .line ":insert R", .line "help"] ∧
    (unshaped.run [.query "R", .line ":insert R", .line "help"]).2 =
      (unshaped.run [.query "R", .line ":update R 0", .query " ", .line ":insert R",
        .line ":delete R 1", .line "help"]).2 := by
  have he : (runOn (step (.line ":update R 0")) unshaped).1 =
      .error (.command (.store (.indexOutOfRange "R" 0 0))) := rfl
  have hs : unshaped.survivors [.query "R", .line ":update R 0", .query " ", .line ":insert R",
      .line ":delete R 1", .line "help"] = [.query "R", .line ":insert R", .line "help"] := by
    decide +kernel
  obtain ⟨h, -, -, hr⟩ := failing_steps unshaped
  refine ⟨he, h _ _ he, hs, ?_⟩
  rw [← hs, hr]

end RelAlg.Session
