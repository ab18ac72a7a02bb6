import RelAlg.CommandLine
import RelAlg.Edit
import RelAlg.Export

set_option autoImplicit false

namespace RelAlg

def version : String := "0.1.0"

def Format.render : Format → Relation → String
  | table, r => Export.table r
  | csv, r => Export.csv r
  | json, r => Export.json r

namespace Shell

def prompt : String := "vibera> "

def textLines (lines : List String) : String :=
  String.join (lines.map (· ++ "\n"))

def banner (s : Session) : String :=
  textLines <|
    ["vibera v" ++ version,
     "Operators: σ[cond](R)  π[a, b](R)  ρ[name](R)  R ∪ S  R - S  R ⨝ S",
     "Commands: :relations  :history  :show <n>  :create  :insert  :update  :delete  :drop  " ++
       ":help  :quit"] ++
    if s.store.isEmpty then
      ["The store is empty; start with --samples or --store <FILE>."]
    else []

def help : List String :=
  ["Expressions:",
   "  σ[Age > 21](ETUDIANT)          selection (also Select)",
   "  π[Nom, Ville](ETUDIANT)        projection (also Project)",
   "  ρ[E](ETUDIANT)                 rename (also Rename)",
   "  R ∪ S, R - S, R ⨝ S            union, difference, natural join",
   "  Binary operators split at the leftmost one: A ∪ B - C is A ∪ (B - C).",
   "Commands:",
   "  :relations    list stored relations",
   "  :history      list past queries, newest first",
   "  :show <n>     show the result of history entry n",
   "  :create NAME a, b            create an empty relation",
   "  :insert NAME v1, v2          append a tuple, values in column order",
   "  :update NAME i v1, v2        replace tuple i (0-based)",
   "  :delete NAME i               remove tuple i",
   "  :drop NAME                   remove a relation",
   "  :quit         leave"]

inductive Reply where
  | lines (ls : List String)
  | answer (text : String) (count : Nat)
  | leave
deriving DecidableEq

/-- A reply in full; `elapsed` is the time in milliseconds. -/
def Reply.write (elapsed : String) : Reply → String
  | lines ls => textLines ls
  | answer text count => textLines [text, count.repr ++ " tuple(s) in " ++ elapsed ++ " ms"]
  | leave => ""

def relationLines (s : Store) : List String :=
  if s.isEmpty then ["(no relations)"]
  else s.relations.entries.map fun (name, r) =>
    name ++ " (" ++ String.intercalate ", " r.columns ++ ") - " ++ r.tuples.length.repr ++
      " tuple(s)"

def historyLines (h : History) : List String :=
  if h.entries.isEmpty then ["(no queries yet)"]
  else h.entries.zipIdx.map fun (e, i) =>
    "[" ++ i.repr ++ "] " ++ e.query ++ " - " ++ e.count.repr ++ " tuple(s)"

/-- Without the keyword, however often it stands at the start. -/
def dropShow : List Char → List Char
  | ':' :: 's' :: 'h' :: 'o' :: 'w' :: cs => dropShow cs
  | cs => cs

def showLines (format : Format) (h : History) (cs : List Char) : List String :=
  match readWord? (Text.trim cs) with
  | none => ["Usage: :show <n>"]
  | some n =>
    match h.entries[n]? with
    | some e => [e.query, format.render e.result]
    | none => ["No history entry " ++ n.repr]

def respondToEdit (s : Session) (line : String) : Reply × Session :=
  match (Edit.line line).runOn s with
  | (.ok (some message), s') => (.lines [message], s')
  | (.ok none, s') => (.lines ["Unknown command: " ++ line], s')
  | (.error e, s') => (.lines ["Error: " ++ e.message], s')

def respondToQuery (format : Format) (s : Session) (line : String) : Reply × Session :=
  match (Edit.query line).runOn s with
  | (.ok r, s') => (.answer (format.render r) r.length, s')
  | (.error e, s') => (.lines ["Error: " ++ e.message], s')

def respond (format : Format) (s : Session) (line : String) : Reply × Session :=
  let cs := Text.trim line.toList
  let line := String.ofList cs
  if cs.isEmpty then (.lines [], s)
  else if line = ":quit" ∨ line = ":q" ∨ line = ":exit" then (.leave, s)
  else if line = ":help" then (.lines help, s)
  else if line = ":relations" then (.lines (relationLines s.store), s)
  else if line = ":history" then (.lines (historyLines s.history), s)
  else if ":show".toList.isPrefixOf cs then (.lines (showLines format s.history (dropShow cs)), s)
  else if cs.head? = some ':' then respondToEdit s line
  else respondToQuery format s line

/-- What the shell prints for the given lines, from the first prompt on. The end of the lines is
answered by a line end. -/
def converse (format : Format) (elapsed : String) (s : Session) : List String → String
  | [] => prompt ++ "\n"
  | line :: lines =>
    match respond format s line with
    | (.leave, _) => prompt
    | (reply, s') => prompt ++ reply.write elapsed ++ converse format elapsed s' lines

def linesOf (text : String) : List String :=
  let parts := text.toList.splitOn '\n'
  (if parts.getLast? = some [] then parts.dropLast else parts).map String.ofList

end Shell

end RelAlg
