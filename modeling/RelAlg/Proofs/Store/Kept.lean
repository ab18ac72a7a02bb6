import RelAlg.Proofs.Command.Line
import RelAlg.Proofs.NameMap
import RelAlg.Proofs.Store.Built

set_option autoImplicit false

namespace RelAlg

namespace Command

def values : Command → List Value
  | insert _ values => values
  | update _ _ values => values
  | _ => []

theorem values_of_parse {line : List Char} {c : Command} (h : parse line = .ok (some c)) :
    ∃ cs, c.values = parseValues cs := by
  have hnone : [] = parseValues [] := rfl
  obtain ⟨name, -, ⟨_, -, rfl⟩ | ⟨cs, rfl⟩ | ⟨_, cs, rfl⟩ | ⟨_, rfl⟩ | rfl⟩ := parse_ok h
  · exact ⟨[], hnone⟩
  · exact ⟨cs, rfl⟩
  · exact ⟨cs, rfl⟩
  · exact ⟨[], hnone⟩
  · exact ⟨[], hnone⟩

theorem tupleFor_ok {s : Store} {name : String} {values : List Value} {t : Tuple}
    (h : tupleFor s name values = .ok t) :
    ∃ st, s.stored? name = some st ∧ t = .ofPairs (st.columns.zip values) := by
  rw [tupleFor] at h
  split at h
  · cases h
  · rename_i columns hc
    split at h <;> cases h
    obtain ⟨st, hs, rfl⟩ := Option.map_eq_some_iff.1 hc
    exact ⟨st, hs, rfl⟩

end Command

namespace Store

/-- The tuples that an action hands over satisfy `q`; a command and a sample hand none over. -/
def Action.Hands (q : Tuple → Prop) : Action → Prop
  | .insertRelation _ r => ∀ t ∈ r, q t
  | .insertTuple _ t => q t
  | .updateTuple _ _ t => q t
  | .seed text => ∀ rs, Json.read? Json.namedRelations text = some rs → ∀ r ∈ rs, ∀ t ∈ r.2, q t
  | _ => True

/-- Relations keep `p` if the tuples handed over satisfy `q`. -/
structure Kept (p : Stored → Prop) (q : Tuple → Prop) : Prop where
  create {name : String} {columns checked : List String}
    (h : newColumns name [] columns = .ok checked) : p ⟨checked, []⟩
  first {r : Relation} (h : ∀ t ∈ r, q t) : p ⟨r.columns?.getD [], []⟩
  append {st st' : Stored} {name : String} {t : Tuple} (h : p st) (ht : q t)
    (ha : st.append name t = .ok st') : p st'
  replace {st st' : Stored} {name : String} {index : Nat} {t old : Tuple} (h : p st) (ht : q t)
    (hr : st.replace name index t = .ok (old, st')) : p st'
  delete {st st' : Stored} {name : String} {index : Nat} {old : Tuple} (h : p st)
    (hd : st.delete name index = .ok (old, st')) : p st'
  values {st : Stored} (h : p st) (cs : List Char) :
    q (.ofPairs (st.columns.zip (Command.parseValues cs)))
  sample {name : String} {r : Relation} (h : Sample.get? name = some r) : ∀ t ∈ r, q t

namespace Kept

variable {p : Stored → Prop} {q : Tuple → Prop} {s s' : Store} {name : String}

theorem ofRelation (k : Kept p q) {r : Relation} {st : Stored} (hr : ∀ t ∈ r, q t)
    (h : Stored.ofRelation name r = .ok st) : p st :=
  foldlM_ok (fun _ t _ ht hs ha => k.append hs (hr t ht) ha) (k.first hr) h

theorem insertRelation (k : Kept p q) (h : s.All fun _ => p) {r : Relation} (hr : ∀ t ∈ r, q t)
    (hi : s.insertRelation name r = .ok s') : s'.All fun _ => p := by
  obtain ⟨n, st, -, hst, rfl⟩ := insertRelation_ok hi
  exact h.put (k.ofRelation hr hst)

theorem insertTuple (k : Kept p q) (h : s.All fun _ => p) {t : Tuple} (ht : q t)
    (hi : s.insertTuple name t = .ok s') : s'.All fun _ => p := by
  obtain ⟨st, st', hs, ha, rfl⟩ := insertTuple_ok hi
  exact h.put (k.append (h _ _ hs) ht ha)

theorem updateTuple (k : Kept p q) (h : s.All fun _ => p) {index : Nat} {t old : Tuple} (ht : q t)
    (hu : s.updateTuple name index t = .ok (old, s')) : s'.All fun _ => p := by
  obtain ⟨st, st', hs, hr, rfl⟩ := updateTuple_ok hu
  exact h.put (k.replace (h _ _ hs) ht hr)

theorem deleteTuple (k : Kept p q) (h : s.All fun _ => p) {index : Nat} {old : Tuple}
    (hd : s.deleteTuple name index = .ok (old, s')) : s'.All fun _ => p := by
  obtain ⟨st, st', hs, hr, rfl⟩ := deleteTuple_ok hd
  exact h.put (k.delete (h _ _ hs) hr)

theorem createRelation (k : Kept p q) (h : s.All fun _ => p) {columns : List String}
    (hc : s.create name columns = .ok s') : s'.All fun _ => p := by
  obtain ⟨n, checked, -, hcs, rfl⟩ := create_ok hc
  exact h.put (k.create hcs)

theorem drop (h : s.All fun _ => p) {r : Relation} (hd : s.drop name = .ok (r, s')) :
    s'.All fun _ => p := by
  obtain ⟨st, -, rfl⟩ := drop_ok hd
  exact h.erase name

theorem loadSample (k : Kept p q) (h : s.All fun _ => p) (hl : s.loadSample name = .ok s') :
    s'.All fun _ => p := by
  obtain ⟨r, hr, hi⟩ := loadSample_ok hl
  exact k.insertRelation h (k.sample hr) hi

theorem empty : Store.empty.All fun _ => p := by
  intro name st hs
  cases hs

theorem ofJson (k : Kept p q) {text : String} (ht : (Action.seed text).Hands q)
    (h : Store.ofJson text = .ok s) : s.All fun _ => p := by
  rw [Store.ofJson] at h
  split at h
  · cases h
  · rename_i rs hr
    refine foldlM_ok (P := fun s : Store => s.All fun _ => p) (fun s r s' hm hs hi => ?_) empty h
    exact k.insertRelation hs (ht rs hr r (NameMap.mem_of_mem_ofList hm)) hi

theorem applyLine (k : Kept p q) (h : s.All fun _ => p) {line : String}
    (ha : s.applyLine line = .ok s') : s'.All fun _ => p := by
  obtain rfl | ⟨c, message, hp, ha⟩ := applyLine_ok ha
  · exact h
  obtain ⟨cs, hv⟩ := Command.values_of_parse hp
  -- the tuple of a command has the values of the line under the columns of its relation
  have htuple : ∀ {name t}, Command.tupleFor s name c.values = .ok t → q t := by
    intro name t ht
    obtain ⟨st, hs, rfl⟩ := Command.tupleFor_ok ht
    rw [hv]
    exact k.values (h _ _ hs) cs
  obtain ⟨_, _, -, hc⟩ | ⟨_, _, _, rfl, ht, hi⟩ | ⟨_, _, _, _, _, rfl, ht, hu⟩ | ⟨_, _, _, -, hd⟩ |
    ⟨_, _, -, hd⟩ := apply_ok ha
  · exact k.createRelation h hc
  · exact k.insertTuple h (htuple ht) hi
  · exact k.updateTuple h (htuple ht) hu
  · exact k.deleteTuple h hd
  · exact drop h hd

theorem after (k : Kept p q) (h : s.All fun _ => p) {a : Action} (ha : a.Hands q) :
    (s.after a).All fun _ => p := by
  cases a with
  | create name columns =>
    exact of_orKeep (x := s.create name columns) h fun _ => k.createRelation h
  | drop name => exact of_orKeep_snd h fun _ _ => drop h
  | insertRelation name r =>
    exact of_orKeep (x := s.insertRelation name r) h fun _ => k.insertRelation h ha
  | insertTuple name t => exact of_orKeep h fun _ => k.insertTuple h ha
  | updateTuple name index t => exact of_orKeep_snd h fun _ _ => k.updateTuple h ha
  | deleteTuple name index => exact of_orKeep_snd h fun _ _ => k.deleteTuple h
  | seed text => exact of_orKeep h fun _ => k.ofJson ha
  | loadSample name => exact of_orKeep h fun _ => k.loadSample h
  | loadSamples => exact of_loadAll (fun _ _ _ hs => k.loadSample hs) h _
  | command line => exact of_orKeep (x := s.applyLine line) h fun _ => k.applyLine h

theorem run (k : Kept p q) {as : List Action} (ha : ∀ a ∈ as, a.Hands q) :
    (Store.run as).All fun _ => p := by
  suffices h : ∀ s : Store, (s.All fun _ => p) → (as.foldl Store.after s).All fun _ => p from
    h Store.empty empty
  induction as with
  | nil => exact fun s hs => hs
  | cons a as ih =>
    obtain ⟨h₁, h⟩ := List.forall_mem_cons.1 ha
    exact fun s hs => ih h _ (k.after hs h₁)

end Kept

end Store

end RelAlg
