import RelAlg.Json.Writer
import RelAlg.Relation

set_option autoImplicit false

namespace RelAlg.Export

/-- The texts of a tuple under the columns; a column that it lacks is left empty. -/
def cells (columns : List String) (t : Tuple) : List String :=
  columns.map fun column => ((t.get? column).map Value.toText).getD ""

def csvQuote (s : String) : List Char :=
  '"' :: s.toList.flatMap (fun c => if c = '"' then ['"', '"'] else [c]) ++ ['"']

/-- A column name is quoted only if it has a comma, a quote or a line end. -/
def csvHeader (s : String) : List Char :=
  if s.toList.any fun c => c = ',' || c = '"' || c = '\n' || c = '\r' then csvQuote s
  else s.toList

def csvLine (fields : List (List Char)) : List Char :=
  List.intercalate [','] fields ++ ['\n']

/-- A line of column names and a line of quoted cells for each tuple; nothing for no tuples. -/
def csv (r : Relation) : String :=
  match r.columns? with
  | none => ""
  | some columns =>
    String.ofList (csvLine (columns.map csvHeader) ++
      r.flatMap fun t => csvLine ((cells columns t).map csvQuote))

def json (r : Relation) : String :=
  Json.writeRelation r

def emptyText : String := "empty relation (0 tuples)"

def widths (columns : List String) (rows : List (List String)) : List Nat :=
  rows.foldl (fun ws row => List.zipWith (fun w cell => max w cell.length) ws row)
    (columns.map String.length)

def padded (width : Nat) (cell : String) : List Char :=
  cell.toList ++ List.replicate (width - cell.length) ' '

def tableRow (widths : List Nat) (row : List String) : List Char :=
  '|' :: ' ' :: List.intercalate [' ', '|', ' '] (List.zipWith padded widths row) ++
    [' ', '|', '\n']

def tableRule (widths : List Nat) : List Char :=
  '|' :: '-' :: List.intercalate ['-', '|', '-'] (widths.map (List.replicate · '-')) ++
    ['-', '|', '\n']

def table (r : Relation) : String :=
  match r.columns? with
  | none => emptyText
  | some columns =>
    let rows := r.map (cells columns)
    let ws := widths columns rows
    String.ofList (tableRow ws columns ++ tableRule ws ++ rows.flatMap (tableRow ws)) ++
      "(" ++ r.length.repr ++ (if r.length = 1 then " tuple)" else " tuples)")

end RelAlg.Export
