import RelAlg.Expr.Error
import RelAlg.Relation

/-!
Cursors hand out tuples one at a time. A cursor is opened, then pulled from until it has no more;
both keep their state when they fail, so a cursor can be used on. Every tuple handed out lowers a
bound, which is why running a cursor to its end terminates.
-/

set_option autoImplicit false

namespace RelAlg

/-- An action on a state that may fail; the state is there in any case. -/
abbrev Pull (σ α : Type) := σ → Except QueryError α × σ

structure Cursor where
  State : Type
  start : State
  openUp : Pull State Unit
  next : Pull State (Option Tuple)
  bound : State → Nat
  bound_next_le : ∀ s, bound (next s).2 ≤ bound s
  bound_next_lt : ∀ s t s', next s = (.ok (some t), s') → bound s' < bound s

namespace Cursor

def drain (c : Cursor) (s : c.State) : Except QueryError (List Tuple) × c.State :=
  match _h : c.next s with
  | (.error e, s') => (.error e, s')
  | (.ok none, s') => (.ok [], s')
  | (.ok (some t), s') =>
    match drain c s' with
    | (.ok ts, s'') => (.ok (t :: ts), s'')
    | (.error e, s'') => (.error e, s'')
termination_by c.bound s
decreasing_by exact c.bound_next_lt s t s' _h

def collect (c : Cursor) (s : c.State) : Except QueryError Relation × c.State :=
  match c.openUp s with
  | (.error e, s') => (.error e, s')
  | (.ok (), s') => c.drain s'

/-- What the first tuple that `f` accepts gives. -/
def search {α : Type} (c : Cursor) (f : Tuple → Except QueryError (Option α)) (s : c.State) :
    Except QueryError (Option α) × c.State :=
  match _h : c.next s with
  | (.error e, s') => (.error e, s')
  | (.ok none, s') => (.ok none, s')
  | (.ok (some t), s') =>
    match f t with
    | .error e => (.error e, s')
    | .ok (some a) => (.ok (some a), s')
    | .ok none => search c f s'
termination_by c.bound s
decreasing_by exact c.bound_next_lt s t s' _h

theorem drain_error {c : Cursor} {s s' : c.State} {e : QueryError}
    (h : c.next s = (.error e, s')) : c.drain s = (.error e, s') := by
  rw [drain]
  split <;> simp_all

theorem drain_none {c : Cursor} {s s' : c.State} (h : c.next s = (.ok none, s')) :
    c.drain s = (.ok [], s') := by
  rw [drain]
  split <;> simp_all

theorem drain_some {c : Cursor} {s s' : c.State} {t : Tuple}
    (h : c.next s = (.ok (some t), s')) :
    c.drain s = ((c.drain s').1.map (t :: ·), (c.drain s').2) := by
  rw [drain]
  split
  · simp_all
  · simp_all
  · rename_i u s₁ hn
    have e : (Except.ok (some u), s₁) = (Except.ok (some t), s') := hn.symm.trans h
    simp only [Prod.mk.injEq, Except.ok.injEq, Option.some.injEq] at e
    rw [e.1, e.2]
    split <;> rename_i hd <;> simp [hd, Except.map]

theorem bound_search_le {α : Type} (c : Cursor) (f : Tuple → Except QueryError (Option α))
    (s : c.State) : c.bound (c.search f s).2 ≤ c.bound s := by
  fun_induction search c f s with
  | case1 s e s' h => simpa [h] using c.bound_next_le s
  | case2 s s' h => simpa [h] using c.bound_next_le s
  | case3 s t s' h e _ => simpa [h] using c.bound_next_le s
  | case4 s t s' h a _ => simpa [h] using c.bound_next_le s
  | case5 s t s' h _ ih => exact Nat.le_trans ih (Nat.le_of_lt (c.bound_next_lt s t s' h))

theorem bound_search_lt {α : Type} (c : Cursor) (f : Tuple → Except QueryError (Option α))
    (s : c.State) (a : α) (s' : c.State) (h : c.search f s = (.ok (some a), s')) :
    c.bound s' < c.bound s := by
  fun_induction search c f s with
  | case1 => simp at h
  | case2 => simp at h
  | case3 => simp at h
  | case4 s t s₁ hn b _ =>
    simp only [Prod.mk.injEq, Except.ok.injEq, Option.some.injEq] at h
    exact h.2 ▸ c.bound_next_lt s t s₁ hn
  | case5 s t s₁ hn _ ih => exact Nat.lt_trans (ih h) (c.bound_next_lt s t s₁ hn)

end Cursor

end RelAlg
