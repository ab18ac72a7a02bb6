import RelAlg.Export

set_option autoImplicit false

namespace RelAlg

namespace Csv

/-- Before the first character of a field, in a field without quotes, between quotes, or behind a
quote, which ends the field unless another one follows. -/
inductive Place where
  | start
  | plain
  | quoted
  | closed
  deriving DecidableEq, Repr

structure Reader where
  place : Place
  field : List Char
  fields : List String
  records : List (List String)

namespace Reader

def endField (r : Reader) : Reader :=
  { r with place := .start, field := [], fields := r.fields ++ [String.ofList r.field] }

def endRecord (r : Reader) : Reader :=
  { r.endField with fields := [], records := r.records ++ [r.endField.fields] }

def separate? (r : Reader) (c : Char) : Option Reader :=
  if c = ',' then some r.endField else if c = '\n' then some r.endRecord else none

def add (r : Reader) (place : Place) (c : Char) : Reader :=
  { r with place, field := r.field ++ [c] }

/-- Nothing but a separator or a second quote may follow a quote that may end a field. -/
def step (r : Reader) (c : Char) : Option Reader :=
  match r.place with
  | .start =>
    if c = '"' then some { r with place := .quoted }
    else (r.separate? c).or (some (r.add .plain c))
  | .plain => (r.separate? c).or (some (r.add .plain c))
  | .quoted => some (if c = '"' then { r with place := .closed } else r.add .quoted c)
  | .closed => if c = '"' then some (r.add .quoted c) else r.separate? c

def run (r : Reader) (cs : List Char) : Option Reader :=
  cs.foldlM step r

def finish? (r : Reader) : Option (List (List String)) :=
  if r.place = .quoted then none
  else if r.place = .start ∧ r.fields = [] then some r.records
  else some r.endRecord.records

variable {r r' : Reader} {c : Char} {cs : List Char}

theorem run_cons (r : Reader) (c : Char) (cs : List Char) :
    r.run (c :: cs) = (r.step c).bind (·.run cs) :=
  List.foldlM_cons

theorem run_append (h : r.run cs = some r') (cs' : List Char) :
    r.run (cs ++ cs') = r'.run cs' := by
  rw [run, List.foldlM_append]
  change (r.run cs).bind _ = _
  rw [h]
  rfl

theorem step_comma (h : r.place ≠ .quoted) : r.step ',' = some r.endField := by
  obtain ⟨place, field, fields, records⟩ := r
  cases place with
  | quoted => exact absurd rfl h
  | start => rfl
  | plain => rfl
  | closed => rfl

theorem step_lineFeed (h : r.place ≠ .quoted) : r.step '\n' = some r.endRecord := by
  obtain ⟨place, field, fields, records⟩ := r
  cases place with
  | quoted => exact absurd rfl h
  | start => rfl
  | plain => rfl
  | closed => rfl

theorem separate?_of_ne (hc : c ≠ ',') (hl : c ≠ '\n') : r.separate? c = none := by
  rw [separate?, if_neg hc, if_neg hl]

variable (field : List Char) (fields : List String) (records : List (List String))

theorem run_plain (h : ∀ c ∈ cs, c ≠ ',' ∧ c ≠ '\n') :
    run ⟨.plain, field, fields, records⟩ cs = some ⟨.plain, field ++ cs, fields, records⟩ := by
  induction cs generalizing field with
  | nil =>
    rw [List.append_nil]
    rfl
  | cons c cs ih =>
    obtain ⟨hc, hl⟩ := h c List.mem_cons_self
    have hs : step ⟨.plain, field, fields, records⟩ c =
        some ⟨.plain, field ++ [c], fields, records⟩ := by
      simp only [step, separate?_of_ne hc hl, Option.none_or, add]
    rw [run_cons, hs, Option.bind_some,
      ih (field ++ [c]) fun d hd => h d (List.mem_cons_of_mem c hd), List.append_assoc,
      List.singleton_append]

theorem run_doubled (cs : List Char) :
    run ⟨.quoted, field, fields, records⟩
      (cs.flatMap fun c => if c = '"' then ['"', '"'] else [c]) =
      some ⟨.quoted, field ++ cs, fields, records⟩ := by
  induction cs generalizing field with
  | nil =>
    rw [List.append_nil]
    rfl
  | cons c cs ih =>
    have hs : run ⟨.quoted, field, fields, records⟩ (if c = '"' then ['"', '"'] else [c]) =
        some ⟨.quoted, field ++ [c], fields, records⟩ := by
      by_cases hc : c = '"'
      · rw [if_pos hc, hc]
        rfl
      · rw [if_neg hc, run_cons]
        simp only [step, if_neg hc, Option.bind_some, add]
        rfl
    rw [List.flatMap_cons, run_append hs, ih (field ++ [c]), List.append_assoc,
      List.singleton_append]

end Reader

def records? (s : String) : Option (List (List String)) :=
  (Reader.run ⟨.start, [], [], []⟩ s.toList).bind Reader.finish?

example : records? "a,b\n\"1,\"\"2\"\"\n\",\n,\"\"" =
    some [["a", "b"], ["1,\"2\"\n", ""], ["", ""]] := by
  decide +kernel

/-- The text is read as this field wherever a separator follows. -/
def Writes (text : List Char) (s : String) : Prop :=
  ∀ fields records, ∃ place, place ≠ .quoted ∧
    Reader.run ⟨.start, [], fields, records⟩ text = some ⟨place, s.toList, fields, records⟩

theorem writes_csvQuote (s : String) : Writes (Export.csvQuote s) s := by
  intro fields records
  refine ⟨.closed, by decide, ?_⟩
  rw [Export.csvQuote, List.cons_append, Reader.run_cons]
  exact Reader.run_append (Reader.run_doubled [] fields records s.toList) ['"']

theorem writes_csvHeader (s : String) : Writes (Export.csvHeader s) s := by
  rw [Export.csvHeader]
  split
  · exact writes_csvQuote s
  · rename_i h
    intro fields records
    -- A name without quotes has none of the characters that the reader would stop at.
    have hcs : ∀ c ∈ s.toList, c ≠ '"' ∧ c ≠ ',' ∧ c ≠ '\n' := by
      intro c hc
      simp only [List.any_eq_true, decide_eq_true_eq, not_exists, not_and, Bool.or_eq_true,
        not_or] at h
      obtain ⟨⟨⟨hcomma, hq⟩, hl⟩, -⟩ := h c hc
      exact ⟨hq, hcomma, hl⟩
    cases hs : s.toList with
    | nil => exact ⟨.start, by decide, rfl⟩
    | cons c cs =>
      rw [hs] at hcs
      obtain ⟨hq, hc, hl⟩ := hcs c List.mem_cons_self
      refine ⟨.plain, by decide, ?_⟩
      have hstep : Reader.step ⟨.start, [], fields, records⟩ c =
          some ⟨.plain, [c], fields, records⟩ := by
        simp only [Reader.step, if_neg hq, Reader.separate?_of_ne hc hl, Option.none_or, Reader.add,
          List.nil_append]
      rw [Reader.run_cons, hstep, Option.bind_some,
        Reader.run_plain [c] fields records fun d hd => (hcs d (List.mem_cons_of_mem c hd)).2,
        List.singleton_append]

section Lines

variable {write : String → List Char} (hw : ∀ s, Writes (write s) s)
include hw

/-- A line of fields is one record. The fields that stand before in it are general, so that the
induction can go on behind a comma. -/
theorem run_csvLine (s : String) (rest fields : List String) (records : List (List String)) :
    Reader.run ⟨.start, [], fields, records⟩ (Export.csvLine ((s :: rest).map write)) =
      some ⟨.start, [], [], records ++ [fields ++ s :: rest]⟩ := by
  induction rest generalizing s fields with
  | nil =>
    obtain ⟨place, hp, hr⟩ := hw s fields records
    rw [Export.csvLine, List.map_singleton, List.intercalate_singleton, Reader.run_append hr,
      Reader.run_cons, Reader.step_lineFeed hp, Option.bind_some, Reader.endRecord, Reader.endField,
      String.ofList_toList]
    rfl
  | cons s' rest ih =>
    obtain ⟨place, hp, hr⟩ := hw s fields records
    have hl : Export.csvLine ((s :: s' :: rest).map write) =
        write s ++ ',' :: Export.csvLine ((s' :: rest).map write) := by
      rw [Export.csvLine, Export.csvLine, List.map_cons, List.map_cons, List.intercalate_cons_cons,
        List.append_assoc, List.append_assoc, List.singleton_append]
    rw [hl, Reader.run_append hr, Reader.run_cons, Reader.step_comma hp, Option.bind_some,
      Reader.endField, String.ofList_toList, ih s' (fields ++ [s]), List.append_assoc,
      List.singleton_append]

theorem run_csvLines {rows : List (List String)} (hne : ∀ row ∈ rows, row ≠ [])
    (records : List (List String)) :
    Reader.run ⟨.start, [], [], records⟩
      (rows.flatMap fun row => Export.csvLine (row.map write)) =
      some ⟨.start, [], [], records ++ rows⟩ := by
  induction rows generalizing records with
  | nil =>
    rw [List.append_nil]
    rfl
  | cons row rows ih =>
    obtain ⟨s, rest, rfl⟩ := List.exists_cons_of_ne_nil (hne row List.mem_cons_self)
    rw [List.flatMap_cons, Reader.run_append (run_csvLine hw s rest [] records), List.nil_append,
      ih (fun row h => hne row (List.mem_cons_of_mem _ h)), List.append_assoc,
      List.singleton_append]

end Lines

end Csv

namespace Export

variable {r : Relation} {columns : List String}

theorem csv_eq (hc : r.columns? = some columns) :
    (csv r).toList = csvLine (columns.map csvHeader) ++
      (r.map (cells columns)).flatMap fun row => csvLine (row.map csvQuote) := by
  rw [csv, hc, List.flatMap_map]
  exact String.toList_ofList

theorem records?_csv (hc : r.columns? = some columns) (hne : columns ≠ []) :
    Csv.records? (csv r) = some (columns :: r.map (cells columns)) := by
  obtain ⟨name, names, rfl⟩ := List.exists_cons_of_ne_nil hne
  have hrows : ∀ row ∈ r.map (cells (name :: names)), row ≠ [] := by
    intro row h
    obtain ⟨t, -, rfl⟩ := List.mem_map.1 h
    exact List.cons_ne_nil _ _
  rw [Csv.records?, csv_eq hc,
    Csv.Reader.run_append (Csv.run_csvLine Csv.writes_csvHeader name names [] []),
    Csv.run_csvLines Csv.writes_csvQuote hrows]
  rfl

theorem quote_mem_csvLine {row : List String} (hne : row ≠ []) :
    '"' ∈ csvLine (row.map csvQuote) := by
  obtain ⟨s, rest, rfl⟩ := List.exists_cons_of_ne_nil hne
  rw [csvLine, List.map_cons]
  refine List.mem_append_left _ ?_
  cases rest with
  | nil => exact List.mem_cons_self
  | cons s' rest =>
    rw [List.map_cons, List.intercalate_cons_cons, List.append_assoc]
    exact List.mem_append_left _ List.mem_cons_self

theorem quote_mem_csv_iff :
    '"' ∈ (csv r).toList ↔ ∃ columns, r.columns? = some columns ∧ columns ≠ [] := by
  cases hc : r.columns? with
  | none =>
    rw [csv, hc]
    exact ⟨fun h => absurd h List.not_mem_nil, fun ⟨_, h, _⟩ => by cases h⟩
  | some columns =>
    rw [csv_eq hc]
    obtain ⟨t, ts, rfl⟩ : ∃ t ts, r = t :: ts := by
      cases r with
      | nil => cases hc
      | cons t ts => exact ⟨t, ts, rfl⟩
    constructor
    · intro h
      refine ⟨columns, rfl, ?_⟩
      rintro rfl
      -- Without columns every line is blank, and nothing else is written.
      have hl : ∀ c ∈ csvLine ([].map csvHeader) ++
          ((t :: ts).map (cells [])).flatMap (fun row => csvLine (row.map csvQuote)), c = '\n' := by
        intro c hc
        obtain hc | hc := List.mem_append.1 hc
        · exact List.mem_singleton.1 hc
        · obtain ⟨row, hr, hc⟩ := List.mem_flatMap.1 hc
          obtain ⟨t', -, rfl⟩ := List.mem_map.1 hr
          exact List.mem_singleton.1 hc
      exact absurd (hl '"' h) (by decide)
    · rintro ⟨_, h, hne⟩
      cases h
      rw [List.map_cons, List.flatMap_cons]
      exact List.mem_append_right _ (List.mem_append_left _
        (quote_mem_csvLine (mt List.map_eq_nil_iff.1 hne)))

/-- A relation with tuples and attributes is read back as its column names and, for each tuple, the
texts of its values under them. What is shown follows from the export alone. -/
theorem csv_reads_back (hc : r.columns? = some columns) (hne : columns ≠ []) :
    ∃ records, Csv.records? (csv r) = some records ∧ records.length = 1 + r.length ∧
      (∀ record ∈ records, record.length = r.arity) ∧ records[0]? = some columns ∧
      (∀ i t, r[i]? = some t → records[i + 1]? =
        some (columns.map fun column => (t.get? column).elim "" Value.toText)) ∧
      ∀ s, csv s = csv r → s.columns? = r.columns? ∧ s.length = r.length ∧
        s.map (cells columns) = r.map (cells columns) := by
  refine ⟨columns :: r.map (cells columns), records?_csv hc hne, ?_, ?_, rfl, ?_, ?_⟩
  · rw [List.length_cons, List.length_map, Nat.add_comm]
  · intro record h
    rw [Relation.arity, hc, Option.getD_some]
    obtain rfl | h := List.mem_cons.1 h
    · rfl
    · obtain ⟨t, -, rfl⟩ := List.mem_map.1 h
      exact List.length_map _
  · intro i t ht
    rw [List.getElem?_cons_succ, List.getElem?_map, ht, Option.map_some, cells]
    refine congrArg some (List.map_congr_left fun column _ => ?_)
    cases t.get? column with
    | none => rfl
    | some v => rfl
  · intro s hs
    obtain ⟨columns', hc', hne'⟩ : ∃ columns', s.columns? = some columns' ∧ columns' ≠ [] :=
      quote_mem_csv_iff.1 (hs ▸ quote_mem_csv_iff.2 ⟨columns, hc, hne⟩)
    have h : columns' :: s.map (cells columns') = columns :: r.map (cells columns) := by
      apply Option.some.inj
      rw [← records?_csv hc' hne', hs, records?_csv hc hne]
    obtain ⟨rfl, h⟩ := List.cons.inj h
    have hl : s.length = r.length := by
      rw [← List.length_map (cells columns'), h, List.length_map]
    exact ⟨hc'.trans hc.symm, hl, h⟩

def awkward : Relation :=
  [.ofPairs [("", .text "\""), ("a b", .number (.ofNat 1)), ("c,\r", .text ",\n\"\"")],
    .ofPairs [("a b", .text ""), ("\"", .text "x")]]

theorem csv_reads_back_awkward :
    ∃ records, Csv.records? (csv awkward) = some records ∧ records.length = 3 ∧
      records[0]? = some ["", "a b", "c,\r"] ∧ records[1]? = some ["\"", "1", ",\n\"\""] ∧
      records[2]? = some ["", "", ""] := by
  obtain ⟨records, hr, hl, -, hh, ht, -⟩ :=
    @csv_reads_back awkward ["", "a b", "c,\r"] (by decide +kernel) (by decide)
  refine ⟨records, hr, hl, hh, ?_, ?_⟩
  · exact (ht 0 _ rfl).trans (by decide +kernel)
  · exact (ht 1 _ rfl).trans (by decide +kernel)

end Export

end RelAlg
