import Delegation.CommandLine

open Delegation CommandLine

def fileFault : IO.Error → FileFault
  | .noFileOrDirectory _ number reason | .inappropriateType _ number reason
  | .permissionDenied _ number reason | .invalidArgument _ number reason =>
    .system reason number.toNat
  | e => .other (toString e)

def readText (path : String) : IO (Except FileFault String) := do
  try
    let handle ← IO.FS.Handle.mk path .read
    match String.fromUTF8? (← handle.readBinToEnd) with
    | some s => return .ok s
    | none => return .error .notText
  catch e => return .error (fileFault e)

def main (arguments : List String) : IO UInt32 := do
  let request := Request.ofArguments arguments
  let named := request.toOption.elim [] paths
  let texts ← named.mapM fun path => return (path, ← readText path)
  let outcome := answer (fun path => (texts.lookup path).getD (.error .absent)) request
  IO.print outcome.stdout
  IO.eprint outcome.stderr
  return UInt32.ofNat outcome.exitCode
