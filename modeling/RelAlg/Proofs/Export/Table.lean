import Mathlib.Data.List.Forall2
import Mathlib.Order.Bounds.Basic
import Mathlib.Order.MinMax
import RelAlg.Export
import RelAlg.Proofs.Text.Spans

set_option autoImplicit false

namespace RelAlg

namespace Text

theorem splitOn_lines {sep : Char} {lines : List (List Char)} {last : List Char}
    (h : ∀ line ∈ lines, sep ∉ line) (hl : sep ∉ last) :
    ((lines.map (· ++ [sep])).flatten ++ last).splitOn sep = lines ++ [last] := by
  induction lines with
  | nil => exact List.splitOn_eq_singleton hl
  | cons line lines ih =>
    obtain ⟨hline, hlines⟩ := List.forall_mem_cons.1 h
    rw [List.map_cons, List.flatten_cons, List.append_assoc, List.append_assoc,
      List.singleton_append, List.splitOn_append_cons_self_of_not_mem hline, ih hlines,
      List.cons_append]

end Text

namespace Export

section Widths

variable {columns : List String} {rows : List (List String)} {ws : List Nat} {i w : Nat}

def widened (ws : List Nat) (row : List String) : List Nat :=
  List.zipWith (fun w cell => max w cell.length) ws row

theorem widths_eq (columns : List String) (rows : List (List String)) :
    widths columns rows = rows.foldl widened (columns.map String.length) :=
  rfl

theorem length_widths (h : ∀ row ∈ rows, row.length = columns.length) :
    (widths columns rows).length = columns.length := by
  have hfold : ∀ ws : List Nat, ws.length = columns.length →
      (rows.foldl widened ws).length = columns.length := by
    induction rows with
    | nil => exact fun ws hws => hws
    | cons row rows ih =>
      obtain ⟨hrow, hrows⟩ := List.forall_mem_cons.1 h
      intro ws hws
      refine ih hrows (widened ws row) ?_
      rw [widened, List.length_zipWith, hws, hrow, min_self]
  exact hfold (columns.map String.length) (List.length_map String.length)

def lengthsIn (rows : List (List String)) (i : Nat) : Set Nat :=
  {n | ∃ row ∈ rows, row[i]?.map String.length = some n}

/-- The widths before the first row are general, since each row widens them. -/
theorem isGreatest_foldl_widened (h : (rows.foldl widened ws)[i]? = some w) :
    ∃ start, ws[i]? = some start ∧ IsGreatest (insert start (lengthsIn rows i)) w := by
  induction rows generalizing ws with
  | nil =>
    refine ⟨w, h, Set.mem_insert w _, ?_⟩
    rintro n (rfl | ⟨row, hrow, -⟩)
    · exact le_rfl
    · cases hrow
  | cons row rows ih =>
    obtain ⟨wide, hwide, hmem, hle⟩ := ih h
    obtain ⟨start, cell, hs, hc, rfl⟩ := List.getElem?_zipWith_eq_some.1 hwide
    have hcell : cell.length ∈ lengthsIn (row :: rows) i :=
      ⟨row, List.mem_cons_self, congrArg (Option.map String.length) hc⟩
    have hmax : max start cell.length ≤ w := hle (Set.mem_insert _ _)
    refine ⟨start, hs, ?_, ?_⟩
    · obtain rfl | ⟨row', hrow', hn⟩ := hmem
      · rcases max_choice start cell.length with hm | hm
        · exact .inl hm
        · exact .inr (hm.symm ▸ hcell)
      · exact .inr ⟨row', List.mem_cons_of_mem row hrow', hn⟩
    · rintro n (rfl | ⟨row', hrow', hn⟩)
      · exact (le_max_left _ _).trans hmax
      · rcases List.mem_cons.1 hrow' with rfl | hrow'
        · rw [hc] at hn
          cases hn
          exact (le_max_right _ _).trans hmax
        · exact hle (.inr ⟨row', hrow', hn⟩)

theorem isGreatest_widths (h : (widths columns rows)[i]? = some w) :
    IsGreatest (lengthsIn (columns :: rows) i) w := by
  obtain ⟨start, hs, hmem, hle⟩ := isGreatest_foldl_widened (widths_eq columns rows ▸ h)
  rw [List.getElem?_map] at hs
  refine ⟨?_, ?_⟩
  · obtain rfl | ⟨row, hrow, hn⟩ := hmem
    · exact ⟨columns, List.mem_cons_self, hs⟩
    · exact ⟨row, List.mem_cons_of_mem columns hrow, hn⟩
  · rintro n ⟨row, hrow, hn⟩
    rcases List.mem_cons.1 hrow with rfl | hrow
    · rw [hs] at hn
      cases hn
      exact hle (Set.mem_insert _ _)
    · exact hle (.inr ⟨row, hrow, hn⟩)

theorem length_padded {cell : String} (h : cell.length ≤ w) : (padded w cell).length = w := by
  rw [padded, List.length_append, String.length_toList, List.length_replicate]
  omega

/-- Widths that fit a table: one for each column and in every row a cell for each, the width being
the most that its name or a cell takes, so that no padding falls short. -/
structure Fits (columns : List String) (rows : List (List String)) (ws : List Nat) : Prop where
  width : ws.length = columns.length
  full : ∀ row ∈ rows, row.length = columns.length
  widest : ∀ i w, ws[i]? = some w → IsGreatest (lengthsIn (columns :: rows) i) w
  room : ∀ row ∈ columns :: rows,
    List.Forall₂ (fun w cell => cell.length ≤ w ∧ (padded w cell).length = w) ws row

theorem fits_widths (h : ∀ row ∈ rows, row.length = columns.length) :
    Fits columns rows (widths columns rows) where
  width := length_widths h
  full := h
  widest _ _ := isGreatest_widths
  room := by
    intro row hrow
    have hlen : row.length = columns.length := by
      rcases List.mem_cons.1 hrow with rfl | hrow
      · rfl
      · exact h row hrow
    rw [List.forall₂_iff_get]
    refine ⟨(length_widths h).trans hlen.symm, fun i hi hi' => ?_⟩
    have hle : (row.get ⟨i, hi'⟩).length ≤ (widths columns rows).get ⟨i, hi⟩ := by
      refine (isGreatest_widths (List.getElem?_eq_getElem hi)).2 ⟨row, hrow, ?_⟩
      rw [List.getElem?_eq_getElem hi']
      rfl
    exact ⟨hle, length_padded hle⟩

end Widths

def ruled (fill : Char) : List (List Char) → List Char
  | [] => ['|']
  | cell :: cells => '|' :: fill :: cell ++ fill :: ruled fill cells

/-- Where the bars of a line stand, the first of them at this place. -/
def barsFrom (start : Nat) : List Nat → List Nat
  | [] => [start]
  | w :: ws => start :: barsFrom (start + w + 3) ws

def span : List Nat → Nat
  | [] => 1
  | w :: ws => w + 3 + span ws

/-- A line without columns is drawn with one that has no width. -/
def orOne {α : Type} (single : α) (items : List α) : List α :=
  if items.isEmpty then [single] else items

def bars (ws : List Nat) : List Nat :=
  barsFrom 0 (orOne 0 ws)

section Bars

variable {fill : Char} {columns : List String} {ws : List Nat} {cs : List (List Char)}

theorem length_barsFrom (start : Nat) (ws : List Nat) :
    (barsFrom start ws).length = ws.length + 1 := by
  induction ws generalizing start with
  | nil => rfl
  | cons w ws ih => rw [barsFrom, List.length_cons, ih, List.length_cons]

theorem le_of_mem_barsFrom {start b : Nat} (h : b ∈ barsFrom start ws) : start ≤ b := by
  induction ws generalizing start with
  | nil => exact (List.mem_singleton.1 h).ge
  | cons w ws ih =>
    rcases List.mem_cons.1 h with rfl | h
    · exact le_rfl
    · have hle := ih h
      omega

theorem pairwise_barsFrom (start : Nat) (ws : List Nat) : (barsFrom start ws).Pairwise (· < ·) := by
  induction ws generalizing start with
  | nil => exact List.pairwise_singleton _ _
  | cons w ws ih =>
    refine List.pairwise_cons.2 ⟨fun b hb => ?_, ih (start + w + 3)⟩
    have hle := le_of_mem_barsFrom hb
    omega

theorem length_bars (ws : List Nat) : (bars ws).length = max ws.length 1 + 1 := by
  rw [bars, length_barsFrom]
  cases ws with
  | nil => rfl
  | cons w ws =>
    rw [List.length_cons, max_eq_left (Nat.le_add_left 1 ws.length)]
    rfl

theorem intercalate_orOne (sep : List Char) (cs : List (List Char)) :
    List.intercalate sep (orOne [] cs) = List.intercalate sep cs := by
  cases cs with
  | nil => rfl
  | cons cell cs => rfl

theorem map_length_orOne (h : cs.map List.length = ws) :
    (orOne [] cs).map List.length = orOne 0 ws := by
  subst h
  cases cs with
  | nil => rfl
  | cons cell cs => rfl

theorem ruled_eq (hne : cs ≠ []) :
    '|' :: fill :: List.intercalate [fill, '|', fill] cs ++ [fill, '|'] = ruled fill cs := by
  induction cs with
  | nil => exact absurd rfl hne
  | cons cell cs ih =>
    cases cs with
    | nil =>
      rw [List.intercalate_singleton]
      rfl
    | cons next cs =>
      rw [ruled, ← ih (List.cons_ne_nil next cs), List.intercalate_cons_cons]
      simp only [List.cons_append, List.append_assoc, List.nil_append]

theorem orOne_ne_nil {α : Type} (single : α) (items : List α) : orOne single items ≠ [] := by
  cases items with
  | nil => exact List.cons_ne_nil _ _
  | cons item items => exact List.cons_ne_nil _ _

theorem tableRow_eq (ws : List Nat) (row : List String) :
    tableRow ws row = ruled ' ' (orOne [] (List.zipWith padded ws row)) ++ ['\n'] := by
  rw [← ruled_eq (orOne_ne_nil _ _), intercalate_orOne, List.append_assoc]
  rfl

theorem tableRule_eq (ws : List Nat) :
    tableRule ws = ruled '-' (orOne [] (ws.map (List.replicate · '-'))) ++ ['\n'] := by
  rw [← ruled_eq (orOne_ne_nil _ _), intercalate_orOne, List.append_assoc]
  rfl

theorem length_ruled (fill : Char) (cs : List (List Char)) :
    (ruled fill cs).length = span (cs.map List.length) := by
  induction cs with
  | nil => rfl
  | cons cell cs ih =>
    simp only [ruled, List.length_append, List.length_cons, List.map_cons, span, ih]
    omega

/-- The text before the first bar is general, since a cell and its bar stand before the next. -/
theorem getElem?_ruled (fill : Char) (before : List Char) (cs : List (List Char)) {b : Nat}
    (hb : b ∈ barsFrom before.length (cs.map List.length)) :
    (before ++ ruled fill cs)[b]? = some '|' := by
  induction cs generalizing before with
  | nil =>
    rw [List.mem_singleton.1 hb]
    exact List.getElem?_concat_length
  | cons cell cs ih =>
    have hnext : before ++ ruled fill (cell :: cs) =
        (before ++ '|' :: fill :: cell ++ [fill]) ++ ruled fill cs := by
      simp only [ruled, List.cons_append, List.append_assoc, List.nil_append]
    rcases List.mem_cons.1 hb with rfl | hb
    · rw [List.getElem?_append_right le_rfl, Nat.sub_self]
      rfl
    · rw [hnext]
      refine ih _ ?_
      convert hb using 2
      simp only [List.length_append, List.length_cons, List.length_nil]
      omega

theorem aligned_ruled (fill : Char) (h : cs.map List.length = ws) :
    (ruled fill (orOne [] cs)).length = span (orOne 0 ws) ∧
      ∀ b ∈ bars ws, (ruled fill (orOne [] cs))[b]? = some '|' := by
  refine ⟨?_, fun b hb => getElem?_ruled fill [] (orOne [] cs) ?_⟩
  · rw [length_ruled, map_length_orOne h]
  · rwa [map_length_orOne h]

theorem not_mem_ruled {c : Char} (hb : c ≠ '|') (hf : c ≠ fill) (h : ∀ cell ∈ cs, c ∉ cell) :
    c ∉ ruled fill (orOne [] cs) := by
  have hruled : ∀ cs : List (List Char), (∀ cell ∈ cs, c ∉ cell) → c ∉ ruled fill cs := by
    intro cs h
    induction cs with
    | nil => exact mt List.mem_singleton.1 hb
    | cons cell cs ih =>
      obtain ⟨hcell, hcs⟩ := List.forall_mem_cons.1 h
      simp only [ruled, List.cons_append, List.mem_cons, List.mem_append, not_or]
      exact ⟨hb, hf, hcell, hf, ih hcs⟩
  cases cs with
  | nil => exact hruled [[]] (List.forall_mem_singleton.2 List.not_mem_nil)
  | cons cell cs => exact hruled (cell :: cs) h

end Bars

section Lines

variable {r : Relation} {columns : List String} {rows : List (List String)} {ws : List Nat}

def countLine (r : Relation) : List Char :=
  '(' :: (Nat.toDigits 10 r.length ++
    (if r.length = 1 then " tuple)" else " tuples)").toList)

def tableLines (columns : List String) (rows : List (List String)) (ws : List Nat) :
    List (List Char) :=
  ruled ' ' (orOne [] (List.zipWith padded ws columns)) ::
    ruled '-' (orOne [] (ws.map (List.replicate · '-'))) ::
    rows.map fun row => ruled ' ' (orOne [] (List.zipWith padded ws row))

theorem map_tableLines (columns : List String) (rows : List (List String)) (ws : List Nat) :
    (tableLines columns rows ws).map (· ++ ['\n']) =
      tableRow ws columns :: tableRule ws :: rows.map (tableRow ws) := by
  rw [tableLines, List.map_cons, List.map_cons, List.map_map, tableRow_eq, tableRule_eq,
    List.map_congr_left fun row _ => tableRow_eq ws row]
  rfl

theorem table_toList (hc : r.columns? = some columns) (hr : r.map (cells columns) = rows)
    (hw : widths columns rows = ws) :
    (table r).toList = ((tableLines columns rows ws).map (· ++ ['\n'])).flatten ++ countLine r := by
  subst hr hw
  rw [map_tableLines, table, hc]
  simp only [String.toList_append, String.toList_ofList, List.flatten_cons, List.append_assoc,
    List.flatMap_def, Nat.toList_repr]
  rfl

theorem not_mem_countLine (r : Relation) : '\n' ∉ countLine r := by
  simp only [countLine, List.mem_cons, List.mem_append, not_or]
  refine ⟨by decide, fun h => ?_, ?_⟩
  · exact absurd (Nat.isDigit_of_mem_toDigits (by decide) (Nat.le_refl 10) h) (by decide)
  · split
    · decide
    · decide

theorem map_length_zipWith_padded {row : List String}
    (h : List.Forall₂ (fun w cell => cell.length ≤ w ∧ (padded w cell).length = w) ws row) :
    (List.zipWith padded ws row).map List.length = ws := by
  induction h with
  | nil => rfl
  | cons hcell _ ih => rw [List.zipWith_cons_cons, List.map_cons, hcell.2, ih]

theorem not_mem_padded {c : Char} {w : Nat} {cell : String} (hc : c ≠ ' ') (h : c ∉ cell.toList) :
    c ∉ padded w cell := by
  rw [padded, List.mem_append, not_or]
  exact ⟨h, fun hm => hc (List.eq_of_mem_replicate hm)⟩

theorem not_mem_row {c : Char} {row : List String} (hc : c ≠ ' ') (hb : c ≠ '|')
    (h : ∀ cell ∈ row, c ∉ cell.toList) :
    c ∉ ruled ' ' (orOne [] (List.zipWith padded ws row)) := by
  refine not_mem_ruled hb hc fun text ht => ?_
  obtain ⟨i, hi⟩ := List.mem_iff_getElem?.1 ht
  obtain ⟨w, cell, -, hcell, rfl⟩ := List.getElem?_zipWith_eq_some.1 hi
  exact not_mem_padded hc (h cell (List.mem_of_getElem? hcell))

theorem not_mem_rule {c : Char} (hc : c ≠ '-') (hb : c ≠ '|') :
    c ∉ ruled '-' (orOne [] (ws.map (List.replicate · '-'))) := by
  refine not_mem_ruled hb hc fun text ht => ?_
  obtain ⟨w, -, rfl⟩ := List.mem_map.1 ht
  exact fun hm => hc (List.eq_of_mem_replicate hm)

theorem aligned_tableLines (h : Fits columns rows ws) :
    ∀ text ∈ tableLines columns rows ws,
      text.length = span (orOne 0 ws) ∧ ∀ b ∈ bars ws, text[b]? = some '|' := by
  have hrow : ∀ row ∈ columns :: rows, _ := fun row hm =>
    aligned_ruled ' ' (map_length_zipWith_padded (h.room row hm))
  refine List.forall_mem_cons.2 ⟨hrow columns List.mem_cons_self, List.forall_mem_cons.2 ⟨?_, ?_⟩⟩
  · refine aligned_ruled '-' ?_
    rw [List.map_map]
    exact (List.map_congr_left fun w _ => List.length_replicate).trans (List.map_id ws)
  · intro line hline
    obtain ⟨row, hm, rfl⟩ := List.mem_map.1 hline
    exact hrow row (List.mem_cons_of_mem columns hm)

/-- In the table of a relation with tuples every column has room for its name and for all of its
cells. If none of these has a line feed, the table is a line of names, a rule, a line for each tuple
and their number; all but the last are of one length, with their bars in the same places, one in
front of each column and one behind the last. -/
theorem table_aligned (hc : r.columns? = some columns) (hr : r.map (cells columns) = rows)
    (hw : widths columns rows = ws) :
    Fits columns rows ws ∧
    ((∀ row ∈ columns :: rows, ∀ cell ∈ row, '\n' ∉ cell.toList) →
      ((table r).toList.splitOn '\n').length = r.length + 3 ∧
      ∃ lines size, (table r).toList.splitOn '\n' = lines ++ [countLine r] ∧
        lines.map (· ++ ['\n']) = tableRow ws columns :: tableRule ws :: rows.map (tableRow ws) ∧
        (∀ text ∈ lines, text.length = size ∧ ∀ b ∈ bars ws, text[b]? = some '|') ∧
        (bars ws).length = max columns.length 1 + 1 ∧ (bars ws).Pairwise (· < ·)) := by
  have hfull : ∀ row ∈ rows, row.length = columns.length := by
    intro row hrow
    obtain ⟨t, -, rfl⟩ := List.mem_map.1 (hr ▸ hrow)
    exact List.length_map _
  have hfits : Fits columns rows ws := hw ▸ fits_widths hfull
  refine ⟨hfits, fun hfeed => ?_⟩
  have hlines : ∀ line ∈ tableLines columns rows ws, '\n' ∉ line := by
    obtain ⟨hnames, hrows⟩ := List.forall_mem_cons.1 hfeed
    refine List.forall_mem_cons.2 ⟨not_mem_row (by decide) (by decide) hnames,
      List.forall_mem_cons.2 ⟨not_mem_rule (by decide) (by decide), fun line hline => ?_⟩⟩
    obtain ⟨row, hrow, rfl⟩ := List.mem_map.1 hline
    exact not_mem_row (by decide) (by decide) (hrows row hrow)
  have hsplit :
      (table r).toList.splitOn '\n' = tableLines columns rows ws ++ [countLine r] := by
    rw [table_toList hc hr hw, Text.splitOn_lines hlines (not_mem_countLine r)]
  refine ⟨?_, tableLines columns rows ws, _, hsplit, map_tableLines columns rows ws,
    aligned_tableLines hfits, ?_, pairwise_barsFrom 0 (orOne 0 ws)⟩
  · rw [hsplit, List.length_append, tableLines, List.length_cons, List.length_cons,
      List.length_map, ← hr, List.length_map]
    rfl
  · rw [length_bars, hfits.width]

def uneven : Relation :=
  [.ofPairs [("é", .text "a|b"), ("n", .number (.ofNat 10))],
    .ofPairs [("n", .text "日本"), ("more", .text "x")], .ofPairs []]

theorem table_aligned_uneven :
    widths ["é", "n"] (uneven.map (cells ["é", "n"])) = [3, 2] ∧ bars [3, 2] = [0, 6, 11] ∧
      ((table uneven).toList.splitOn '\n').length = 6 ∧
      ∃ lines size, (table uneven).toList.splitOn '\n' = lines ++ ["(3 tuples)".toList] ∧
        ∀ text ∈ lines, text.length = size ∧ ∀ b ∈ [0, 6, 11], text[b]? = some '|' := by
  have hw : widths ["é", "n"] (uneven.map (cells ["é", "n"])) = [3, 2] := by decide +kernel
  obtain ⟨-, h⟩ := @table_aligned uneven ["é", "n"] _ _ (by decide +kernel) rfl hw
  obtain ⟨hlen, lines, size, hl, -, ha, -⟩ := h (by decide +kernel)
  have hcount : countLine uneven = "(3 tuples)".toList := by decide +kernel
  rw [hcount] at hl
  exact ⟨hw, rfl, hlen, lines, size, hl, ha⟩

end Lines

end Export

end RelAlg
