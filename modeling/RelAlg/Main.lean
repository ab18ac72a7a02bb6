import RelAlg.Program

set_option autoImplicit false

namespace RelAlg

def showHundredths (n : Nat) : String :=
  (n / 100).repr ++ "." ++ (if n % 100 < 10 then "0" else "") ++ (n % 100).repr

def ioCause : IO.Error → String
  | .noFileOrDirectory .. => "No such file or directory (os error 2)"
  | .permissionDenied .. => "Permission denied (os error 13)"
  | .inappropriateType .. => "Is a directory (os error 21)"
  | e => toString e

def readSeed (path : String) : IO (Except String String) := do
  try
    let bytes ← IO.FS.readBinFile path
    match String.fromUTF8? bytes with
    | some text => return .ok text
    | none => return .error "stream did not contain valid UTF-8"
  catch e => return .error (ioCause e)

/-- Talks to the user until the input ends or the user leaves. -/
partial def talk (format : Format) (s : Session) : IO Unit := do
  let out ← IO.getStdout
  out.putStr Shell.prompt
  out.flush
  let line ← (← IO.getStdin).getLine
  if line.isEmpty then out.putStrLn ""
  else
    let started ← IO.monoNanosNow
    let (reply, s') := Shell.respond format s line
    let finished ← IO.monoNanosNow
    out.putStr (reply.write (showHundredths ((finished - started) / 10000)))
    unless reply = .leave do talk format s'

def finish (r : Program.Result) : IO UInt32 := do
  IO.print r.out
  IO.eprint r.err
  return r.code.toUInt32

end RelAlg

open RelAlg in
def main (args : List String) : IO UInt32 := do
  match CommandLine.parse args with
  | .run o =>
    let seed ← match o.store with
      | some path => readSeed path
      | none => pure (.ok "")
    match Program.openSession o fun _ => seed, o.expr with
    | .error r, _ => finish r
    | .ok s, some query => finish (Program.answer o s query)
    | .ok s, none =>
      IO.print (Shell.banner s)
      talk (Program.format o) s
      return 0
  | _ => finish (Program.run args .error "" "")
