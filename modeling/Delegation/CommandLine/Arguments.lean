import Delegation.Json.Mismatch

namespace Delegation.CommandLine

/-- An option of a command; `value` is what its value is called, if it takes one. -/
structure Switch where
  name : String
  value : Option String
  required : Bool
  about : String
deriving DecidableEq

structure Form where
  name : String
  about : String
  switches : List Switch
deriving DecidableEq

def documentSwitch : Switch :=
  ⟨"document", some "DOCUMENT", true, "Path to capability document JSON"⟩

def schemaSwitch : Switch := ⟨"schema", some "SCHEMA", true, "Path to table schema JSON"⟩

def caseSwitch : Switch :=
  ⟨"case", some "CASE", true, "Path to sort-check case JSON (schema, document, binder facts, call)"⟩

def configSwitch : Switch :=
  ⟨"config", some "CONFIG", false, "Optional engine config TOML (feature flags)"⟩

def jsonSwitch : Switch := ⟨"json", none, false, "Output as JSON"⟩

def indexForm : Form :=
  ⟨"index", "Parse a capability document against a table schema and print the index",
    [documentSwitch, schemaSwitch, jsonSwitch]⟩

def sortCheckForm : Form :=
  ⟨"sort-check", "Decide whether one Sort call can be delegated",
    [caseSwitch, configSwitch, jsonSwitch]⟩

def comparatorsForm : Form :=
  ⟨"comparators", "Print the column-to-comparator mapping for a table schema", [schemaSwitch]⟩

def forms : List Form := [indexForm, sortCheckForm, comparatorsForm]

inductive HelpTopic where
  | program
  | command (form : Form)
  | help
deriving DecidableEq

inductive Request where
  | index (document schema : String) (json : Bool)
  | sortCheck (case : String) (config : Option String) (json : Bool)
  | comparators (schema : String)
  | help (topic : HelpTopic)
  | version
deriving DecidableEq

inductive UsageFault where
  | noCommand
  | noSuchCommand (argument : String)
  | unexpected (argument : String)
  | noValue (option : String)
  | unwantedValue (option : String)
  | repeated (option : String)
  | missing (option : String)
deriving DecidableEq

def UsageFault.message : UsageFault → String
  | noCommand => "a command is required but none was given"
  | noSuchCommand a => "unrecognized command " ++ Json.ticked a
  | unexpected a => "unexpected argument " ++ Json.ticked a
  | noValue o => "a value is required for " ++ Json.ticked ("--" ++ o) ++ " but none was given"
  | unwantedValue o => "unexpected value for " ++ Json.ticked ("--" ++ o)
  | repeated o => Json.ticked ("--" ++ o) ++ " cannot be used multiple times"
  | missing o => "the option " ++ Json.ticked ("--" ++ o) ++ " was not given"

/-- The options given so far; one that takes no value has the empty value. -/
abbrev Given := List (String × String)

inductive Token where
  | help
  | option (name : String) (attached : Option String)
  | other
deriving DecidableEq

def cutValue (cs : List Char) : String × Option String :=
  (String.ofList (cs.takeWhile (· ≠ '=')),
    match cs.dropWhile (· ≠ '=') with
    | [] => none
    | _ :: v => some (String.ofList v))

def Token.ofText (s : String) : Token :=
  match s.toList with
  | ['-', '-'] => .other
  | '-' :: '-' :: cs => let (name, attached) := cutValue cs; .option name attached
  | '-' :: 'h' :: _ => .help
  | _ => .other

/-- Only a lone dash may begin a value with a dash. -/
def isValue (s : String) : Bool :=
  match s.toList with
  | '-' :: _ :: _ => false
  | _ => true

def give (given : Given) (name value : String) : Except UsageFault Given :=
  if (given.lookup name).isSome then .error (.repeated name) else .ok ((name, value) :: given)

/-- The options of a command; `none` when help is asked for. -/
def readOptions (f : Form) (given : Given) : List String → Except UsageFault (Option Given)
  | [] => .ok (some given)
  | ["--"] => .ok (some given)
  | a :: r =>
    match Token.ofText a with
    | .help => .ok none
    | .other => .error (.unexpected a)
    | .option name attached =>
      match f.switches.find? (·.name == name) with
      | none =>
        if name ≠ "help" then .error (.unexpected a)
        else if attached.isSome then .error (.unwantedValue name)
        else .ok none
      | some s =>
        if s.value.isNone then
          if attached.isSome then .error (.unwantedValue name)
          else do readOptions f (← give given name "") r
        else
          match attached with
          | some v => do readOptions f (← give given name v) r
          | none =>
            match r with
            | [] => .error (.noValue name)
            | v :: r => do
              if isValue v then readOptions f (← give given name v) r else throw (.noValue name)

def value (given : Given) (s : Switch) : Except UsageFault String :=
  match given.lookup s.name with
  | some v => .ok v
  | none => .error (.missing s.name)

def hasFlag (given : Given) (s : Switch) : Bool := (given.lookup s.name).isSome

def readForm (f : Form) (make : Given → Except UsageFault Request) (args : List String) :
    Except UsageFault Request := do
  match ← readOptions f [] args with
  | none => return .help (.command f)
  | some given => make given

/-- Help names at most one command, help itself among them. -/
def readHelp : List String → Except UsageFault Request
  | [] => .ok (.help .program)
  | name :: r =>
    let topic? : Option HelpTopic :=
      if name = "help" then some .help else (forms.find? (·.name == name)).map .command
    match topic?, r with
    | none, _ => .error (.noSuchCommand name)
    | some topic, [] => .ok (.help topic)
    | some _, a :: _ => .error (.noSuchCommand a)

def Request.ofArguments : List String → Except UsageFault Request
  | [] => .error .noCommand
  | a :: r =>
    if a = indexForm.name then
      readForm indexForm (fun g => do
        return .index (← value g documentSwitch) (← value g schemaSwitch) (hasFlag g jsonSwitch)) r
    else if a = sortCheckForm.name then
      readForm sortCheckForm (fun g => do
        let config := g.lookup configSwitch.name
        return .sortCheck (← value g caseSwitch) config (hasFlag g jsonSwitch)) r
    else if a = comparatorsForm.name then
      readForm comparatorsForm (fun g => do return .comparators (← value g schemaSwitch)) r
    else if a = "help" then readHelp r
    else if a = "--version" ∨ "-V".toList.isPrefixOf a.toList then .ok .version
    else if a = "--help" ∨ "-h".toList.isPrefixOf a.toList then .ok (.help .program)
    else .error (.noSuchCommand a)

end Delegation.CommandLine
