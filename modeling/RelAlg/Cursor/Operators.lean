import RelAlg.Cursor.Basic

set_option autoImplicit false

namespace RelAlg.Cursor

/-- Before it is opened nothing is handed out, and opening it again does nothing. -/
def gate (c : Cursor) : Cursor where
  State := Bool × c.State
  start := (false, c.start)
  openUp := fun (opened, s) =>
    if opened then (.ok (), (true, s))
    else
      match c.openUp s with
      | (.ok (), s') => (.ok (), (true, s'))
      | (.error e, s') => (.error e, (false, s'))
  next := fun (opened, s) =>
    if opened then
      let (result, s') := c.next s
      (result, (true, s'))
    else (.ok none, (false, s))
  bound := fun s => c.bound s.2
  bound_next_le := by
    rintro ⟨_ | _, s⟩
    · simp
    · exact c.bound_next_le s
  bound_next_lt := by
    rintro ⟨_ | _, s⟩ t ⟨_, s'⟩ h
    · simp at h
    · simp only [↓reduceIte, Prod.mk.injEq] at h
      exact c.bound_next_lt s t s' (Prod.ext h.1 h.2.2)

def ofRelation (r : Relation) : Cursor where
  State := List Tuple
  start := r
  openUp := fun ts => (.ok (), ts)
  next
    | [] => (.ok none, [])
    | t :: ts => (.ok (some t), ts)
  bound := List.length
  bound_next_le := by intro ts; cases ts <;> simp
  bound_next_lt := by
    rintro (_ | ⟨t, ts⟩) u ts' h <;> simp at h
    simp [h.2]

def filtered (accept : Tuple → Except QueryError Bool) (c : Cursor) : Cursor where
  State := c.State
  start := c.start
  openUp := c.openUp
  next := c.search fun t => (accept t).map fun b => if b then some t else none
  bound := c.bound
  bound_next_le := c.bound_search_le _
  bound_next_lt := c.bound_search_lt _

def distinct (f : Tuple → Tuple) (c : Cursor) : Cursor where
  State := List Tuple.Key × c.State
  start := ([], c.start)
  openUp := fun (seen, s) =>
    match c.openUp s with
    | (.ok (), s') => (.ok (), ([], s'))
    | (.error e, s') => (.error e, (seen, s'))
  next := fun (seen, s) =>
    match c.search (fun t => .ok (if seen.contains (f t).key then none else some (f t))) s with
    | (.ok (some t), s') => (.ok (some t), (t.key :: seen, s'))
    | (.ok none, s') => (.ok none, (seen, s'))
    | (.error e, s') => (.error e, (seen, s'))
  bound := fun s => c.bound s.2
  bound_next_le := by
    rintro ⟨seen, s⟩
    have h := c.bound_search_le
      (fun t => .ok (if seen.contains (f t).key then none else some (f t))) s
    dsimp only
    split <;> simp_all
  bound_next_lt := by
    rintro ⟨seen, s⟩ t ⟨seen', s'⟩ h
    dsimp only at h ⊢
    split at h <;> simp at h
    rename_i u s₁ hs
    obtain ⟨rfl, -, rfl⟩ := h
    exact c.bound_search_lt _ s u s₁ hs

def openBoth (l r : Cursor) : Pull (l.State × r.State) Unit := fun (a, b) =>
  match l.openUp a with
  | (.error e, a') => (.error e, (a', b))
  | (.ok (), a') =>
    match r.openUp b with
    | (.error e, b') => (.error e, (a', b'))
    | (.ok (), b') => (.ok (), (a', b'))

def append (l r : Cursor) : Cursor where
  State := Bool × l.State × r.State
  start := (false, l.start, r.start)
  openUp := fun (done, s) =>
    match openBoth l r s with
    | (.ok (), s') => (.ok (), (false, s'))
    | (.error e, s') => (.error e, (done, s'))
  next := fun (done, a, b) =>
    match if done then (.ok none, a) else l.next a with
    | (.ok (some t), a') => (.ok (some t), (false, a', b))
    | (.error e, a') => (.error e, (false, a', b))
    | (.ok none, a') =>
      let (result, b') := r.next b
      (result, (true, a', b'))
  bound := fun s => l.bound s.2.1 + r.bound s.2.2
  bound_next_le := by
    rintro ⟨done, a, b⟩
    have hr := r.bound_next_le b
    have hl : l.bound (if done then (Except.ok none, a) else l.next a).2 ≤ l.bound a := by
      split
      · exact Nat.le_refl _
      · exact l.bound_next_le a
    dsimp only
    split
    · simp_all
    · simp_all
    · rename_i a' ha
      rw [ha] at hl
      exact Nat.add_le_add hl hr
  bound_next_lt := by
    rintro ⟨done, a, b⟩ t ⟨done', a', b'⟩ h
    dsimp only at h ⊢
    split at h
    · rename_i u a₁ hl
      simp only [Prod.mk.injEq, Except.ok.injEq, Option.some.injEq] at h
      obtain ⟨rfl, -, rfl, rfl⟩ := h
      cases done
      · have := l.bound_next_lt a u a₁ hl
        omega
      · simp at hl
    · simp at h
    · rename_i a₁ hl
      simp only [Prod.mk.injEq] at h
      obtain ⟨hr, -, rfl, rfl⟩ := h
      have := r.bound_next_lt b t (r.next b).2 (Prod.ext hr rfl)
      have : l.bound a₁ ≤ l.bound a := by
        cases done
        · have := l.bound_next_le a
          simp_all
        · simp_all
      exact Nat.add_lt_add_of_le_of_lt this ‹_›

/-- The tuples of the left cursor with a content that the right one does not have. The right one is
run to its end when the cursor is opened. -/
def difference (l r : Cursor) : Cursor where
  State := List Tuple.Key × l.State × r.State
  start := ([], l.start, r.start)
  openUp := fun (excluded, s) =>
    match openBoth l r s with
    | (.error e, s') => (.error e, (excluded, s'))
    | (.ok (), (a, b)) =>
      match r.drain b with
      | (.error e, b') => (.error e, ([], a, b'))
      | (.ok ts, b') => (.ok (), (ts.map Tuple.key, a, b'))
  next := fun (excluded, a, b) =>
    let (result, a') := l.search
      (fun t => .ok (if excluded.contains t.key then none else some t)) a
    (result, (excluded, a', b))
  bound := fun s => l.bound s.2.1
  bound_next_le := fun (_, a, _) => l.bound_search_le _ a
  bound_next_lt := by
    rintro ⟨excluded, a, b⟩ t ⟨excluded', a', b'⟩ h
    simp only [Prod.mk.injEq] at h
    exact l.bound_search_lt _ a t a' (Prod.ext h.1 h.2.2.1)

/-- The merge of a tuple with the first of the others that agrees with it on the names, and the
tuple with the position behind that one. The others stand from the given position on. -/
def nextMerge? (names : List String) (t : Tuple) :
    Nat → List Tuple → Option (Tuple × Tuple × Nat)
  | _, [] => none
  | i, u :: us =>
    if t.agreesOn u names then some (t.merge u, t, i + 1) else nextMerge? names t (i + 1) us

theorem lt_of_nextMerge? {names : List String} {t : Tuple} {i : Nat} {us : List Tuple}
    {m u : Tuple} {j : Nat} (h : nextMerge? names t i us = some (m, u, j)) :
    i < j ∧ j ≤ i + us.length := by
  induction us generalizing i with
  | nil => simp [nextMerge?] at h
  | cons x us ih =>
    rw [nextMerge?] at h
    rw [List.length_cons]
    split at h
    · cases h
      omega
    · have := ih h
      omega

def resume (names : List String) (rights : List Tuple) (current : Option (Tuple × Nat)) :
    Option (Tuple × Tuple × Nat) :=
  current.bind fun (t, i) => nextMerge? names t i (rights.drop i)

@[simp]
theorem resume_none (names : List String) (rights : List Tuple) :
    resume names rights none = none := rfl

def untried (rights : List Tuple) : Option (Tuple × Nat) → Nat
  | none => 0
  | some (_, i) => rights.length - i

theorem untried_le (rights : List Tuple) (current : Option (Tuple × Nat)) :
    untried rights current ≤ rights.length := by
  rcases current with _ | ⟨t, i⟩
  · exact Nat.zero_le _
  · exact Nat.sub_le _ _

theorem untried_of_resume {names : List String} {rights : List Tuple}
    {current : Option (Tuple × Nat)} {m : Tuple} {place : Tuple × Nat}
    (h : resume names rights current = some (m, place)) :
    untried rights (some place) < untried rights current := by
  rcases current with _ | ⟨t, i⟩
  · cases h
  · have hj := lt_of_nextMerge? (show nextMerge? names t i (rights.drop i) = some (m, place) from h)
    rw [List.length_drop] at hj
    simp only [untried]
    omega

/-- A tuple taken from the left pays for a pass over the right. -/
theorem add_mul_lt_of_lt {n k x y : Nat} (hn : n ≤ k) (h : y < x) :
    n + y * (k + 1) < x * (k + 1) := by
  calc
    n + y * (k + 1) < (k + 1) + y * (k + 1) := Nat.add_lt_add_right (Nat.lt_succ_of_le hn) _
    _ = (y + 1) * (k + 1) := by rw [Nat.succ_mul, Nat.add_comm]
    _ ≤ x * (k + 1) := Nat.mul_le_mul_right _ h

/-- For each tuple of the left cursor, its merges with the tuples of the right one. The right one is
run to its end when the cursor is opened; if it has no tuples, the left one is not asked for any.
Between two merges the state keeps the left tuple and the position on the right to go on from. -/
def join (names : List String) (l r : Cursor) : Cursor where
  State := (List Tuple × Option (Tuple × Nat)) × l.State × r.State
  start := (([], none), l.start, r.start)
  openUp := fun (held, s) =>
    match openBoth l r s with
    | (.error e, s') => (.error e, (held, s'))
    | (.ok (), (a, b)) =>
      match r.drain b with
      | (.error e, b') => (.error e, (([], none), a, b'))
      | (.ok ts, b') => (.ok (), ((ts, none), a, b'))
  next := fun ((rights, current), a, b) =>
    if rights.isEmpty then (.ok none, ((rights, current), a, b))
    else
      match resume names rights current with
      | some (m, place) => (.ok (some m), ((rights, some place), a, b))
      | none =>
        match l.search (fun t => .ok (resume names rights (some (t, 0)))) a with
        | (.ok (some (m, place)), a') => (.ok (some m), ((rights, some place), a', b))
        | (.ok none, a') => (.ok none, ((rights, none), a', b))
        | (.error e, a') => (.error e, ((rights, none), a', b))
  bound := fun ((rights, current), a, _) =>
    untried rights current + l.bound a * (rights.length + 1)
  bound_next_le := by
    rintro ⟨⟨rights, current⟩, a, b⟩
    have hle := l.bound_search_le (fun t => .ok (resume names rights (some (t, 0)))) a
    dsimp only
    split
    · exact Nat.le_refl _
    · split
      · rename_i m place hm
        exact Nat.add_le_add_right (Nat.le_of_lt (untried_of_resume hm)) _
      · split
        · rename_i m place a' hs
          have hlt := add_mul_lt_of_lt (untried_le rights (some place))
            (l.bound_search_lt _ a (m, place) a' hs)
          exact Nat.le_trans (Nat.le_of_lt hlt) (Nat.le_add_left _ _)
        all_goals
          rename_i a' hs
          rw [hs] at hle
          exact Nat.add_le_add (Nat.zero_le _) (Nat.mul_le_mul_right _ hle)
  bound_next_lt := by
    rintro ⟨⟨rights, current⟩, a, b⟩ t ⟨⟨rights', current'⟩, a', b'⟩ h
    dsimp only at h ⊢
    split at h
    · simp at h
    · split at h
      · rename_i m place hm
        cases h
        exact Nat.add_lt_add_right (untried_of_resume hm) _
      · split at h
        · rename_i m place a₁ hs
          cases h
          have hlt := add_mul_lt_of_lt (untried_le rights (some place))
            (l.bound_search_lt _ a (t, place) a' hs)
          exact Nat.lt_of_lt_of_le hlt (Nat.le_add_left _ _)
        · simp at h
        · simp at h

end RelAlg.Cursor
