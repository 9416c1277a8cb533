import Delegation.CommandLine.Files
import Delegation.CommandLine.Report
import Delegation.Settings

namespace Delegation.CommandLine

inductive Failure where
  | unreadable (label path : String) (fault : FileFault)
  | noJson (label path : String)
  | unreadableConfig (path : String) (fault : FileFault)
  | badConfig
  | schema (mismatch : Json.Mismatch)
  | document (path : String) (fault : Document.Fault)
  | case (fault : Case.Fault)

def Failure.message : Failure → String
  | unreadable label path fault =>
    "failed to read " ++ label ++ " at " ++ path ++ ": " ++ fault.message
  | noJson label path => "failed to parse " ++ label ++ " JSON at " ++ path ++ ": malformed input"
  | unreadableConfig path fault => "failed to read config " ++ path ++ ": " ++ fault.message
  | badConfig => "invalid engine config: malformed input"
  | schema m => "invalid table schema: " ++ Schema.payloadMessage m
  | document path fault => "invalid capability document at " ++ path ++ ": " ++ fault.message
  | case fault => fault.message

/-- A decision that could not look at its call does not end in order. -/
def Failure.exitCode : Failure → Nat
  | case (.misuse _) => 101
  | _ => 1

/-- A file read as `parse?` reads its text; bytes that are no text are no JSON either. -/
def readFile (files : Files) (label path : String) (parse? : String → Option α) :
    Except Failure α :=
  match files path with
  | .error .notText => .error (.noJson label path)
  | .error fault => .error (.unreadable label path fault)
  | .ok text =>
    match parse? text with
    | some a => .ok a
    | none => .error (.noJson label path)

def readSchema (files : Files) (path : String) : Except Failure Schema := do
  let j ← readFile files "table schema" path Json.parse?
  (Schema.ofJson j).mapError .schema

def readSettings (files : Files) : Option String → Except Failure Settings
  | none => .ok .default
  | some path => do
    let text ← (files path).mapError (.unreadableConfig path)
    match Settings.ofText? text with
    | some s => return s
    | none => throw .badConfig

def indexAt (files : Files) (document schema : String) : Except Failure Index := do
  let s ← readSchema files schema
  let d ← readFile files "capability document" document Json.parse?
  (Document.index .standard s d).mapError (.document document)

def report (files : Files) : Request → Except Failure String
  | .index document schema json => do return indexReport json (← indexAt files document schema)
  | .sortCheck path config json => do
    let c ← readFile files "sort-check case" path Case.ofText?
    let settings ← readSettings files config
    let d ← (c.decide settings.features).mapError .case
    return decisionReport json c.call settings.features d
  | .comparators schema => do return comparatorReport (← readSchema files schema)
  | .help topic => .ok (helpText topic)
  | .version => .ok versionText

def paths : Request → List String
  | .index document schema _ => [schema, document]
  | .sortCheck path config _ => path :: config.toList
  | .comparators schema => [schema]
  | .help _ | .version => []

structure Outcome where
  exitCode : Nat
  stdout : String
  stderr : String
deriving DecidableEq

def errorLine (message : String) : String := lines ["error: " ++ message]

def answer (files : Files) : Except UsageFault Request → Outcome
  | .error fault => ⟨2, "", errorLine fault.message⟩
  | .ok request =>
    match report files request with
    | .error failure => ⟨failure.exitCode, "", errorLine failure.message⟩
    | .ok text => ⟨0, text, ""⟩

def run (files : Files) (arguments : List String) : Outcome :=
  answer files (Request.ofArguments arguments)

end Delegation.CommandLine
