import RelAlg.Shell
import RelAlg.Store.Json
import RelAlg.Store.Sample

set_option autoImplicit false

namespace RelAlg

namespace Program

/-- An error and what caused it, the nearest cause first. -/
structure Report where
  message : String
  causes : List String
deriving DecidableEq

def hang (indent : String) (text : String) : String :=
  String.intercalate ("\n" ++ indent) ((text.toList.splitOn '\n').map String.ofList)

/-- Each cause is on lines of its own; two or more are numbered. -/
def Report.write (r : Report) : String :=
  "Error: " ++ r.message ++
    match r.causes with
    | [] => ""
    | [cause] => "\n\nCaused by:\n    " ++ hang "    " cause
    | causes =>
      "\n\nCaused by:" ++ String.join (causes.zipIdx.map fun (cause, i) =>
        "\n    " ++ i.repr ++ ": " ++ hang "       " cause)

def Report.ofQuery (e : QueryError) : Report :=
  ⟨e.message, e.cause?.toList⟩

def Report.ofStore (context : String) (e : StoreError) : Report :=
  ⟨context, e.message :: e.cause?.toList⟩

def openStore (o : CommandLine.Options) (read : String → Except String String) :
    Except Report Store := do
  let s ← match o.store with
    | none => pure .empty
    | some path =>
      match read path with
      | .error cause => .error ⟨"Failed to read store file " ++ path, [cause]⟩
      | .ok text =>
        match Store.ofJson text with
        | .error e => .error (.ofStore ("Failed to load store file " ++ path) e)
        | .ok s => pure s
  if o.samples then
    match s.loadSamples with
    | (s, none) => return s
    | (_, some e) => .error (.ofStore "Failed to load sample relations" e)
  else return s

def format (o : CommandLine.Options) : Format := o.format.getD .table

structure Result where
  code : Nat
  out : String
  err : String
deriving DecidableEq

def usage : String :=
  "Usage: vibera [--store <FILE>] [--samples] [-e|--expr <EXPR>] [-f|--format table|csv|json] " ++
    "[--max-depth <N>] [--history <N>] [-d|--debug]\n"

def openSession (o : CommandLine.Options) (read : String → Except String String) :
    Except Result Session :=
  let capacity := o.history.getD defaultHistory
  match openStore o read with
  | .error report => .error ⟨1, "", report.write ++ "\n"⟩
  | .ok s =>
    if History.fits capacity then .ok (.start s (o.maxDepth.getD defaultDepth) capacity)
    else .error ⟨101, "", "capacity overflow\n"⟩

def versionLine : String := "vibera " ++ version ++ "\n"

def answer (o : CommandLine.Options) (s : Session) (query : String) : Result :=
  match s.execute query with
  | .ok (r, _) => ⟨0, (format o).render r ++ "\n", ""⟩
  | .error e => ⟨1, "", (Report.ofQuery e).write ++ "\n"⟩

/-- A whole run: the arguments, the files, the input, and what to write for the time of a query. -/
def run (args : List String) (read : String → Except String String) (input elapsed : String) :
    Result :=
  match CommandLine.parse args with
  | .invalid => ⟨2, "", usage⟩
  | .help => ⟨0, usage, ""⟩
  | .version => ⟨0, versionLine, ""⟩
  | .run o =>
    match openSession o read with
    | .error result => result
    | .ok s =>
      match o.expr with
      | some query => answer o s query
      | none =>
        ⟨0, Shell.banner s ++ Shell.converse (format o) elapsed s (Shell.linesOf input), ""⟩

end Program

end RelAlg
