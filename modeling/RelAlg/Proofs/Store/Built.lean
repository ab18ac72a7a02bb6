import RelAlg.Command
import RelAlg.Proofs.Outcome
import RelAlg.Store.Json
import RelAlg.Store.Sample

/-!
The stores that uses of a store lead to. Whatever is asked of it, a store changes relation by
relation, in one of six ways, so what these six keep holds after any run.
-/

set_option autoImplicit false

namespace RelAlg.Store

/-- What can be asked of a store from outside. -/
inductive Action where
  | create (name : String) (columns : List String)
  | drop (name : String)
  | insertRelation (name : String) (r : Relation)
  | insertTuple (name : String) (t : Tuple)
  | updateTuple (name : String) (index : Nat) (t : Tuple)
  | deleteTuple (name : String) (index : Nat)
  | seed (text : String)
  | loadSample (name : String)
  | loadSamples
  | command (line : String)

/-- The store after a step that gives one, and the store before it if the step fails. -/
def orKeep {ε : Type} (s : Store) : Except ε Store → Store
  | .ok s' => s'
  | .error _ => s

def applyLine (s : Store) (line : String) : Except CommandError Store := do
  match ← Command.parse line.toList with
  | none => return s
  | some c => return (← c.apply s).2

def after (s : Store) : Action → Store
  | .create name columns => s.orKeep (s.create name columns)
  | .drop name => s.orKeep ((s.drop name).map Prod.snd)
  | .insertRelation name r => s.orKeep (s.insertRelation name r)
  | .insertTuple name t => s.orKeep (s.insertTuple name t)
  | .updateTuple name index t => s.orKeep ((s.updateTuple name index t).map Prod.snd)
  | .deleteTuple name index => s.orKeep ((s.deleteTuple name index).map Prod.snd)
  | .seed text => s.orKeep (ofJson text)
  | .loadSample name => s.orKeep (s.loadSample name)
  | .loadSamples => s.loadSamples.1
  | .command line => s.orKeep (s.applyLine line)

def run (as : List Action) : Store := as.foldl after empty

/-- Put together relation by relation. -/
inductive Built : Store → Prop where
  | empty : Built Store.empty
  | create {s : Store} {given name : String} {columns checked : List String} (h : Built s)
      (hn : s.newName given = .ok name) (hc : newColumns name [] columns = .ok checked) :
      Built (s.put name ⟨checked, []⟩)
  | insertRelation {s : Store} {given name : String} {r : Relation} {st : Stored} (h : Built s)
      (hn : s.newName given = .ok name) (hr : Stored.ofRelation name r = .ok st) :
      Built (s.put name st)
  | append {s : Store} {name : String} {st st' : Stored} {t : Tuple} (h : Built s)
      (hs : s.stored? name = some st) (ha : st.append name t = .ok st') : Built (s.put name st')
  | replace {s : Store} {name : String} {st st' : Stored} {index : Nat} {t old : Tuple}
      (h : Built s) (hs : s.stored? name = some st)
      (hr : st.replace name index t = .ok (old, st')) : Built (s.put name st')
  | delete {s : Store} {name : String} {st st' : Stored} {index : Nat} {old : Tuple} (h : Built s)
      (hs : s.stored? name = some st) (hd : st.delete name index = .ok (old, st')) :
      Built (s.put name st')
  | drop {s : Store} {name : String} {st : Stored} (h : Built s)
      (hs : s.stored? name = some st) : Built ⟨s.relations.erase name⟩

theorem stored?_of_find {s : Store} {name : String} {st : Stored} (h : s.find name = .ok st) :
    s.stored? name = some st := by
  rw [find] at h
  split at h
  · rename_i hs
    rw [hs, Except.ok.inj h]
  · cases h

theorem stored?_put (s : Store) (name : String) (st : Stored) (k : String) :
    (s.put name st).stored? k = if k = name then some st else s.stored? k :=
  NameMap.get?_insert s.relations name st k

theorem stored?_erase (s : Store) (name k : String) :
    stored? ⟨s.relations.erase name⟩ k = if k = name then none else s.stored? k :=
  NameMap.get?_erase s.relations name k

section Outcomes

variable {s s' : Store} {name : String}

theorem create_ok {columns : List String} (h : s.create name columns = .ok s') :
    ∃ n checked, s.newName name = .ok n ∧ newColumns n [] columns = .ok checked ∧
      s' = s.put n ⟨checked, []⟩ := by
  obtain ⟨n, hn, h⟩ := bind_ok h
  obtain ⟨checked, hc, h⟩ := bind_ok h
  cases h
  exact ⟨n, checked, hn, hc, rfl⟩

theorem insertRelation_ok {r : Relation} (h : s.insertRelation name r = .ok s') :
    ∃ n st, s.newName name = .ok n ∧ Stored.ofRelation n r = .ok st ∧ s' = s.put n st := by
  obtain ⟨n, hn, h⟩ := bind_ok h
  obtain ⟨st, hst, h⟩ := bind_ok h
  cases h
  exact ⟨n, st, hn, hst, rfl⟩

theorem insertTuple_ok {t : Tuple} (h : s.insertTuple name t = .ok s') :
    ∃ st st', s.stored? name = some st ∧ st.append name t = .ok st' ∧ s' = s.put name st' := by
  obtain ⟨st, hs, h⟩ := bind_ok h
  obtain ⟨st', ha, h⟩ := bind_ok h
  cases h
  exact ⟨st, st', stored?_of_find hs, ha, rfl⟩

theorem updateTuple_ok {index : Nat} {t old : Tuple}
    (h : s.updateTuple name index t = .ok (old, s')) :
    ∃ st st', s.stored? name = some st ∧ st.replace name index t = .ok (old, st') ∧
      s' = s.put name st' := by
  obtain ⟨st, hs, h⟩ := bind_ok h
  obtain ⟨⟨o, st'⟩, hr, h⟩ := bind_ok h
  cases h
  exact ⟨st, st', stored?_of_find hs, hr, rfl⟩

theorem deleteTuple_ok {index : Nat} {old : Tuple} (h : s.deleteTuple name index = .ok (old, s')) :
    ∃ st st', s.stored? name = some st ∧ st.delete name index = .ok (old, st') ∧
      s' = s.put name st' := by
  obtain ⟨st, hs, h⟩ := bind_ok h
  obtain ⟨⟨o, st'⟩, hd, h⟩ := bind_ok h
  cases h
  exact ⟨st, st', stored?_of_find hs, hd, rfl⟩

theorem drop_ok {r : Relation} (h : s.drop name = .ok (r, s')) :
    ∃ st, s.stored? name = some st ∧ s' = ⟨s.relations.erase name⟩ := by
  obtain ⟨st, hs, h⟩ := bind_ok h
  cases h
  exact ⟨st, stored?_of_find hs, rfl⟩

theorem loadSample_ok (h : s.loadSample name = .ok s') :
    ∃ r, Sample.get? name = some r ∧ s.insertRelation name r = .ok s' := by
  rw [loadSample] at h
  split at h
  · cases h
  · rename_i r hr
    exact ⟨r, hr, h⟩

theorem of_liftStore {α : Type} {x : Except StoreError α} {a : α}
    (h : Command.liftStore x = .ok a) : x = .ok a := by
  cases x with
  | error e => cases h
  | ok b => rw [Except.ok.inj h]

theorem apply_ok {c : Command} {message : String} (h : c.apply s = .ok (message, s')) :
    (∃ name columns, c = .create name columns ∧ s.create name columns = .ok s') ∨
    (∃ name values t, c = .insert name values ∧ Command.tupleFor s name values = .ok t ∧
      s.insertTuple name t = .ok s') ∨
    (∃ name index values t old, c = .update name index values ∧
      Command.tupleFor s name values = .ok t ∧ s.updateTuple name index t = .ok (old, s')) ∨
    (∃ name index old, c = .delete name index ∧ s.deleteTuple name index = .ok (old, s')) ∨
    ∃ name r, c = .drop name ∧ s.drop name = .ok (r, s') := by
  cases c with
  | create name columns =>
    obtain ⟨s₁, hl, h⟩ := bind_ok h
    cases h
    exact .inl ⟨name, columns, rfl, of_liftStore hl⟩
  | insert name values =>
    obtain ⟨t, ht, h⟩ := bind_ok h
    obtain ⟨s₁, hl, h⟩ := bind_ok h
    cases h
    exact .inr (.inl ⟨name, values, t, rfl, ht, of_liftStore hl⟩)
  | update name index values =>
    obtain ⟨t, ht, h⟩ := bind_ok h
    obtain ⟨⟨old, s₁⟩, hl, h⟩ := bind_ok h
    cases h
    exact .inr (.inr (.inl ⟨name, index, values, t, old, rfl, ht, of_liftStore hl⟩))
  | delete name index =>
    obtain ⟨⟨old, s₁⟩, hl, h⟩ := bind_ok h
    cases h
    exact .inr (.inr (.inr (.inl ⟨name, index, old, rfl, of_liftStore hl⟩)))
  | drop name =>
    obtain ⟨⟨r, s₁⟩, hl, h⟩ := bind_ok h
    cases h
    exact .inr (.inr (.inr (.inr ⟨name, r, rfl, of_liftStore hl⟩)))

theorem applyLine_ok {line : String} (h : s.applyLine line = .ok s') :
    s' = s ∨ ∃ c message, Command.parse line.toList = .ok (some c) ∧
      c.apply s = .ok (message, s') := by
  obtain ⟨c, hp, h⟩ := bind_ok h
  cases c with
  | none =>
    cases h
    exact .inl rfl
  | some c =>
    obtain ⟨⟨message, s₁⟩, hc, h⟩ := bind_ok h
    cases h
    exact .inr ⟨c, message, hp, hc⟩

end Outcomes

section Steps

variable {P : Store → Prop} {s : Store} {ε : Type}

theorem of_orKeep (h : P s) {x : Except ε Store} (hx : ∀ s', x = .ok s' → P s') :
    P (s.orKeep x) := by
  cases x with
  | error e => exact h
  | ok s' => exact hx s' rfl

theorem of_orKeep_snd {α : Type} (h : P s) {x : Except ε (α × Store)}
    (hx : ∀ a s', x = .ok (a, s') → P s') : P (s.orKeep (x.map Prod.snd)) := by
  cases x with
  | error e => exact h
  | ok p => exact hx p.1 p.2 rfl

/-- What every sample keeps, a list of them keeps. -/
theorem of_loadAll (hl : ∀ s s' name, P s → s.loadSample name = .ok s' → P s')
    (h : P s) (names : List String) : P (s.loadAll names).1 := by
  induction names generalizing s with
  | nil => exact h
  | cons name names ih =>
    rw [loadAll]
    split
    · rename_i s' hs
      exact ih (hl s s' name h hs)
    · exact h

end Steps

namespace Built

variable {s s' : Store}

theorem of_create (h : Built s) {name : String} {columns : List String}
    (hc : s.create name columns = .ok s') : Built s' := by
  obtain ⟨n, checked, hn, hcs, rfl⟩ := create_ok hc
  exact h.create hn hcs

theorem of_insertRelation (h : Built s) {name : String} {r : Relation}
    (hr : s.insertRelation name r = .ok s') : Built s' := by
  obtain ⟨n, st, hn, hst, rfl⟩ := insertRelation_ok hr
  exact h.insertRelation hn hst

theorem of_insertTuple (h : Built s) {name : String} {t : Tuple}
    (ht : s.insertTuple name t = .ok s') : Built s' := by
  obtain ⟨st, st', hs, ha, rfl⟩ := insertTuple_ok ht
  exact h.append hs ha

theorem of_updateTuple (h : Built s) {name : String} {index : Nat} {t old : Tuple}
    (ht : s.updateTuple name index t = .ok (old, s')) : Built s' := by
  obtain ⟨st, st', hs, hr, rfl⟩ := updateTuple_ok ht
  exact h.replace hs hr

theorem of_deleteTuple (h : Built s) {name : String} {index : Nat} {old : Tuple}
    (ht : s.deleteTuple name index = .ok (old, s')) : Built s' := by
  obtain ⟨st, st', hs, hd, rfl⟩ := deleteTuple_ok ht
  exact h.delete hs hd

theorem of_drop (h : Built s) {name : String} {r : Relation} (hd : s.drop name = .ok (r, s')) :
    Built s' := by
  obtain ⟨st, hs, rfl⟩ := drop_ok hd
  exact h.drop hs

theorem of_loadSample (h : Built s) {name : String} (hl : s.loadSample name = .ok s') :
    Built s' := by
  obtain ⟨r, -, hr⟩ := loadSample_ok hl
  exact h.of_insertRelation hr

theorem of_ofJson {text : String} (h : ofJson text = .ok s) : Built s := by
  rw [ofJson] at h
  split at h
  · cases h
  · exact foldlM_ok (fun _ _ _ _ hs hr => of_insertRelation hs hr) Built.empty h

theorem of_apply (h : Built s) {c : Command} {message : String}
    (ha : c.apply s = .ok (message, s')) : Built s' := by
  obtain ⟨_, _, -, hc⟩ | ⟨_, _, _, -, -, hi⟩ | ⟨_, _, _, _, _, -, -, hu⟩ | ⟨_, _, _, -, hd⟩ |
    ⟨_, _, -, hd⟩ := apply_ok ha
  · exact h.of_create hc
  · exact h.of_insertTuple hi
  · exact h.of_updateTuple hu
  · exact h.of_deleteTuple hd
  · exact h.of_drop hd

theorem of_applyLine (h : Built s) {line : String} (ha : s.applyLine line = .ok s') :
    Built s' := by
  obtain rfl | ⟨c, message, -, hc⟩ := applyLine_ok ha
  · exact h
  · exact h.of_apply hc

theorem after (h : Built s) (a : Action) : Built (s.after a) := by
  cases a with
  | create name columns => exact of_orKeep (x := s.create name columns) h fun _ => h.of_create
  | drop name => exact of_orKeep_snd h fun _ _ => h.of_drop
  | insertRelation name r =>
    exact of_orKeep (x := s.insertRelation name r) h fun _ => h.of_insertRelation
  | insertTuple name t => exact of_orKeep h fun _ => h.of_insertTuple
  | updateTuple name index t => exact of_orKeep_snd h fun _ _ => h.of_updateTuple
  | deleteTuple name index => exact of_orKeep_snd h fun _ _ => h.of_deleteTuple
  | seed text => exact of_orKeep h fun _ => of_ofJson
  | loadSample name => exact of_orKeep h fun _ => h.of_loadSample
  | loadSamples => exact of_loadAll (fun _ _ _ hs => hs.of_loadSample) h _
  | command line => exact of_orKeep (x := s.applyLine line) h fun _ => h.of_applyLine

theorem foldl_after (h : Built s) (as : List Action) : Built (as.foldl Store.after s) := by
  induction as generalizing s with
  | nil => exact h
  | cons a as ih => exact ih (h.after a)

end Built

theorem built_run (as : List Action) : Built (run as) :=
  Built.empty.foldl_after as

/-- Something that holds of every stored relation. -/
def All (p : String → Stored → Prop) (s : Store) : Prop :=
  ∀ name st, s.stored? name = some st → p name st

variable {p : String → Stored → Prop} {s : Store}

theorem All.put (h : s.All p) {name : String} {st : Stored} (hst : p name st) :
    (s.put name st).All p := by
  intro n st' hs
  rw [stored?_put] at hs
  split at hs
  · rename_i hn
    cases hs
    rw [hn]
    exact hst
  · exact h n st' hs

theorem All.erase (h : s.All p) (name : String) : All p ⟨s.relations.erase name⟩ := by
  intro n st hs
  rw [stored?_erase] at hs
  split at hs
  · cases hs
  · exact h n st hs

end RelAlg.Store
