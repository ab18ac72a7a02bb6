import RelAlg.Edit
import RelAlg.Proofs.NameMap
import RelAlg.Proofs.Store.Built

/-!
Edits in place do all of what they are meant to or nothing. Each is compared with the edit that
gives a new state or an error: where that one gives an error, the one in place has come back to the
state that it started from, though it changed the state step by step.
-/

set_option autoImplicit false

namespace RelAlg.Edit

variable {σ ε ε' α β : Type}

@[simp] theorem runOn_pure (a : α) (s : σ) : runOn (pure a : Edit σ ε α) s = (.ok a, s) := rfl

@[simp] theorem runOn_throw (e : ε) (s : σ) : runOn (throw e : Edit σ ε α) s = (.error e, s) := rfl

@[simp] theorem runOn_get (s : σ) : runOn (get : Edit σ ε σ) s = (.ok s, s) := rfl

@[simp] theorem runOn_modify (f : σ → σ) (s : σ) :
    runOn (modify f : Edit σ ε PUnit) s = (.ok ⟨⟩, f s) := rfl

@[simp] theorem runOn_ofExcept (x : Except ε α) (s : σ) :
    runOn (ofExcept x : Edit σ ε α) s = (x, s) := by
  cases x <;> rfl

theorem runOn_bind (e : Edit σ ε α) (f : α → Edit σ ε β) (s : σ) :
    runOn (e >>= f) s =
      match runOn e s with
      | (.ok a, s') => runOn (f a) s'
      | (.error x, s') => (.error x, s') := by
  simp only [runOn, ExceptT.run_bind, StateT.run_bind, Id.run_bind]
  generalize Id.run (StateT.run (ExceptT.run e) s) = p
  obtain ⟨x, s'⟩ := p
  cases x <;> rfl

theorem runOn_adapt (f : ε → ε') (e : Edit σ ε α) (s : σ) :
    runOn (ExceptT.adapt f e) s = ((runOn e s).1.mapError f, (runOn e s).2) := rfl

def allOrNothing (s : σ) : Except ε (α × σ) → Except ε α × σ
  | .ok (a, s') => (.ok a, s')
  | .error e => (.error e, s)

section Stored

variable (name : String) (index : Nat) (t : Tuple) (s : Stored)

theorem runOn_conform : runOn (conform name t) s =
    allOrNothing s ((s.conform name t).map fun p => (p.2, { s with columns := p.1 })) := by
  rw [conform, runOn_bind, runOn_get, Stored.conform]
  dsimp only
  split
  · rfl
  · split <;> rfl

theorem runOn_append :
    runOn (append name t) s = allOrNothing s ((s.append name t).map ((), ·)) := by
  rw [append, runOn_bind, runOn_conform, Stored.append]
  cases s.conform name t <;> rfl

theorem runOn_checkIndex : runOn (checkIndex name index) s =
    if index < s.tuples.length then (.ok (), s)
    else (.error (.indexOutOfRange name index s.tuples.length), s) := by
  rw [checkIndex, runOn_bind, runOn_get]
  dsimp only
  by_cases h : index < s.tuples.length
  · rw [if_pos h, if_neg (Nat.not_le.2 h), runOn_pure]
  · rw [if_neg h, if_pos (Nat.not_lt.1 h), runOn_throw]

theorem runOn_replace :
    runOn (replace name index t) s = allOrNothing s (s.replace name index t) := by
  rw [replace, runOn_bind, runOn_checkIndex, Stored.replace]
  by_cases h : index < s.tuples.length
  · rw [if_pos h, List.getElem?_eq_getElem h]
    dsimp only
    rw [runOn_bind, runOn_conform]
    cases s.conform name t with
    | error e => rfl
    | ok p =>
      obtain ⟨columns, u⟩ := p
      change runOn (settle name index (Relation.replace? s.tuples index u)) _ = _
      rw [Relation.replace?, List.getElem?_eq_getElem h]
      rfl
  · rw [if_neg h, List.getElem?_eq_none (Nat.not_lt.1 h)]
    rfl

theorem runOn_delete :
    runOn (delete name index) s = allOrNothing s (s.delete name index) := by
  rw [delete, runOn_bind, runOn_checkIndex, Stored.delete]
  by_cases h : index < s.tuples.length
  · rw [if_pos h, List.getElem?_eq_getElem h]
    change runOn (settle name index (Relation.remove? s.tuples index)) _ = _
    rw [Relation.remove?, List.getElem?_eq_getElem h]
    rfl
  · rw [if_neg h, List.getElem?_eq_none (Nat.not_lt.1 h)]
    rfl

end Stored

section Store

variable (name : String) (s : Store)

/-- A failing edit on a relation that leaves it as it was puts it back where it was. -/
theorem runOn_onStored {e : Edit Stored StoreError α} {f : Stored → Except StoreError (α × Stored)}
    (h : ∀ r, runOn e r = allOrNothing r (f r)) :
    runOn (onStored name e) s = allOrNothing s (do
      let r ← s.find name
      let (a, r) ← f r
      return (a, s.put name r)) := by
  rw [onStored, runOn_bind, runOn_get]
  dsimp only
  rw [runOn_bind, runOn_ofExcept]
  cases hf : s.find name with
  | error e => rfl
  | ok r =>
    have hs : s.put name r = s :=
      congrArg Store.mk (NameMap.insert_of_get? (Store.stored?_of_find hf))
    change runOn (do
        modify (·.put name (runOn e r).2)
        ofExcept (runOn e r).1 : Edit Store StoreError α) s =
      allOrNothing s (f r >>= fun p => .ok (p.1, s.put name p.2))
    rw [h, runOn_bind, runOn_modify]
    dsimp only
    rw [runOn_ofExcept]
    cases f r with
    | error x => exact congrArg (Prod.mk _) hs
    | ok p => rfl

theorem runOn_create (columns : List String) : runOn (create name columns) s =
    allOrNothing s ((s.create name columns).map ((), ·)) := by
  rw [create, runOn_bind, runOn_get, Store.create]
  dsimp only
  rw [runOn_bind, runOn_ofExcept]
  cases s.newName name with
  | error e => rfl
  | ok n =>
    dsimp only
    rw [runOn_bind, runOn_ofExcept]
    change _ = allOrNothing s ((Store.newColumns n [] columns >>= _).map _)
    cases Store.newColumns n [] columns <;> rfl

theorem runOn_drop : runOn (drop name) s = allOrNothing s (s.drop name) := by
  rw [drop, runOn_bind, runOn_get, Store.drop, Store.find]
  dsimp only
  rw [runOn_bind, runOn_modify]
  cases hf : s.stored? name with
  | none =>
    have hs : Store.mk (s.relations.erase name) = s := congrArg Store.mk (NameMap.erase_of_get? hf)
    dsimp only
    rw [hs, runOn_throw]
    rfl
  | some r => rfl

theorem runOn_insertTuple (t : Tuple) : runOn (insertTuple name t) s =
    allOrNothing s ((s.insertTuple name t).map ((), ·)) := by
  rw [insertTuple, runOn_onStored name s (runOn_append name t), Store.insertTuple]
  cases s.find name with
  | error e => rfl
  | ok r =>
    change allOrNothing s ((r.append name t).map ((), ·) >>= _) =
      allOrNothing s ((r.append name t >>= _).map _)
    cases r.append name t <;> rfl

theorem runOn_updateTuple (index : Nat) (t : Tuple) : runOn (updateTuple name index t) s =
    allOrNothing s (s.updateTuple name index t) :=
  runOn_onStored name s (runOn_replace name index t)

theorem runOn_deleteTuple (index : Nat) : runOn (deleteTuple name index) s =
    allOrNothing s (s.deleteTuple name index) :=
  runOn_onStored name s (runOn_delete name index)

theorem runOn_told {e : Edit Store StoreError α} {x : Except StoreError (α × Store)}
    (h : runOn e s = allOrNothing s x) {k : α → Edit Store CommandError String}
    {tell : α → Store → String} (hk : ∀ a s', runOn (k a) s' = (.ok (tell a s'), s')) :
    runOn (ExceptT.adapt .store e >>= k) s =
      allOrNothing s (Command.liftStore x >>= fun p => .ok (tell p.1 p.2, p.2)) := by
  rw [runOn_bind, runOn_adapt, h]
  cases x with
  | error e => rfl
  | ok p => exact hk p.1 p.2

theorem runOn_withTuple (values : List Value) {k : Tuple → Edit Store CommandError String}
    {x : Tuple → Except CommandError (String × Store)}
    (hk : ∀ t, runOn (k t) s = allOrNothing s (x t)) :
    runOn (do k (← ofExcept (Command.tupleFor (← get) name values))) s =
      allOrNothing s (Command.tupleFor s name values >>= x) := by
  rw [runOn_bind, runOn_get]
  dsimp only
  rw [runOn_bind, runOn_ofExcept]
  cases Command.tupleFor s name values with
  | error e => rfl
  | ok t => exact hk t

end Store

theorem runOn_command (c : Command) (s : Store) :
    runOn (command c) s = allOrNothing s (c.apply s) := by
  cases c with
  | create name columns =>
    refine (runOn_told s (runOn_create name s columns) fun _ _ => rfl).trans ?_
    rw [Command.apply]
    cases s.create name columns <;> rfl
  | insert name values =>
    refine runOn_withTuple name s values fun t => ?_
    refine (runOn_told s (runOn_insertTuple name s t) fun _ _ => rfl).trans ?_
    cases s.insertTuple name t <;> rfl
  | update name index values =>
    exact runOn_withTuple name s values fun t =>
      runOn_told s (runOn_updateTuple name s index t) fun _ _ => rfl
  | delete name index => exact runOn_told s (runOn_deleteTuple name s index) fun _ _ => rfl
  | drop name => exact runOn_told s (runOn_drop name s) fun _ _ => rfl

theorem runOn_line (text : String) (s : Session) :
    runOn (line text) s = allOrNothing s ((s.edit text).map fun
      | none => (none, s)
      | some (message, s') => (some message, s')) := by
  rw [line, runOn_bind, runOn_ofExcept, Session.edit]
  cases Command.parse text.toList with
  | error e => rfl
  | ok c =>
    cases c with
    | none => rfl
    | some c =>
      change runOn (do return some (← onStore (command c)) : Edit Session _ _) s =
        allOrNothing s ((c.apply s.store >>= fun p => .ok (some (p.1, { s with store := p.2 }))).map
          _)
      rw [runOn_bind, onStore, runOn_bind, runOn_get]
      dsimp only
      rw [runOn_command]
      cases c.apply s.store <;> rfl

theorem runOn_query (text : String) (s : Session) :
    runOn (query text) s = allOrNothing s (s.execute text) := by
  rw [query, Session.execute]
  split
  · rfl
  · rw [runOn_bind, runOn_get]
    dsimp only
    rw [runOn_bind, runOn_ofExcept]
    cases s.store.query s.maxDepth (Text.trimmed text) <;> rfl

end RelAlg.Edit
