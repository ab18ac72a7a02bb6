import RelAlg.Number.Word

set_option autoImplicit false

namespace RelAlg

inductive Format where
  | table
  | csv
  | json
deriving DecidableEq

namespace CommandLine

inductive Flag where
  | samples
  | debug
deriving DecidableEq

inductive Setting where
  | store
  | expr
  | format
  | maxDepth
  | history
deriving DecidableEq

structure Options where
  store : Option String := none
  expr : Option String := none
  format : Option Format := none
  maxDepth : Option Nat := none
  history : Option Nat := none
  samples : Bool := false
  debug : Bool := false
deriving DecidableEq

/-- The first value for an option that has none yet. -/
def fill {α : Type} (slot value : Option α) : Option (Option α) :=
  match slot with
  | some _ => none
  | none => value.map some

def readFormat? (s : String) : Option Format :=
  if s = "table" then some .table
  else if s = "csv" then some .csv
  else if s = "json" then some .json
  else none

/-- With a value for a setting; none if it was given before or the value is no such value. -/
def Options.set? (o : Options) (value : String) : Setting → Option Options
  | .store =>
    (fill o.store (if value.isEmpty then none else some value)).map fun x => { o with store := x }
  | .expr => (fill o.expr (some value)).map fun x => { o with expr := x }
  | .format => (fill o.format (readFormat? value)).map fun x => { o with format := x }
  | .maxDepth => (fill o.maxDepth (readWord? value.toList)).map fun x => { o with maxDepth := x }
  | .history => (fill o.history (readWord? value.toList)).map fun x => { o with history := x }

def Options.raise? (o : Options) : Flag → Option Options
  | .samples => if o.samples then none else some { o with samples := true }
  | .debug => if o.debug then none else some { o with debug := true }

inductive Request where
  | flag (f : Flag)
  | setting (s : Setting)
  | help
  | version
deriving DecidableEq

def longOptions : List (String × Request) :=
  [("store", .setting .store), ("samples", .flag .samples), ("expr", .setting .expr),
   ("format", .setting .format), ("max-depth", .setting .maxDepth),
   ("history", .setting .history), ("debug", .flag .debug), ("help", .help),
   ("version", .version)]

def shortOptions : List (Char × Request) :=
  [('e', .setting .expr), ('f', .setting .format), ('d', .flag .debug), ('h', .help),
   ('V', .version)]

inductive Progress where
  | going (o : Options)
  | waiting (o : Options) (s : Setting)
  | help
  | version
  | invalid

def Progress.ofOptions? : Option Options → Progress
  | some o => going o
  | none => invalid

def readLong (o : Options) (cs : List Char) : Progress :=
  let name := String.ofList (cs.takeWhile (· != '='))
  let value := match cs.dropWhile (· != '=') with
    | [] => none
    | _ :: v => some (String.ofList v)
  match longOptions.lookup name, value with
  | some (.flag f), none => .ofOptions? (o.raise? f)
  | some (.setting s), none => .waiting o s
  | some (.setting s), some v => .ofOptions? (o.set? v s)
  | some .help, none => .help
  | some .version, none => .version
  | _, _ => .invalid

/-- The letters of an argument behind `-`; what follows one that takes a value is the value. -/
def readShort (o : Options) : List Char → Progress
  | [] => .going o
  | c :: cs =>
    match shortOptions.lookup c with
    | some (.flag f) =>
      match o.raise? f with
      | some o => readShort o cs
      | none => .invalid
    | some (.setting s) =>
      match cs with
      | [] => .waiting o s
      | '=' :: v => .ofOptions? (o.set? (String.ofList v) s)
      | v => .ofOptions? (o.set? (String.ofList v) s)
    | some .help => .help
    | some .version => .version
    | none => .invalid

def looksLikeOption (arg : String) : Bool :=
  match arg.toList with
  | '-' :: _ :: _ => true
  | _ => false

inductive Outcome where
  | run (o : Options)
  | help
  | version
  | invalid

/-- Reads the arguments in order; `pending` is the setting whose value comes next. -/
def parseFrom (o : Options) (pending : Option Setting) : List String → Outcome
  | [] => if pending.isSome then .invalid else .run o
  | arg :: args =>
    match pending with
    | some s =>
      if looksLikeOption arg then .invalid
      else
        match o.set? arg s with
        | some o => parseFrom o none args
        | none => .invalid
    | none =>
      if arg = "--" then if args.isEmpty then .run o else .invalid
      else
        let progress := match arg.toList with
          | '-' :: '-' :: cs => readLong o cs
          | '-' :: c :: cs => readShort o (c :: cs)
          | _ => .invalid
        match progress with
        | .going o => parseFrom o none args
        | .waiting o s => parseFrom o (some s) args
        | .help => .help
        | .version => .version
        | .invalid => .invalid

def parse (args : List String) : Outcome :=
  parseFrom {} none args

end CommandLine

end RelAlg
