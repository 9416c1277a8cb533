import Delegation.Case
import Delegation.CommandLine.Arguments
import Delegation.Comparator

namespace Delegation.CommandLine

def lines (l : List String) : String := String.join (l.map (· ++ "\n"))

def jsonReport (j : Json) : String := lines [j.canonical.indented]

def nameList (s : Capabilities) : String := String.intercalate ", " (s.toList.map Capability.name)

def rowLine (e : Path × Grant) : String :=
  "    - " ++ e.1.text ++ ": " ++ nameList e.2.capabilities ++
    if e.2.ascendingOnly then " (ascending only)" else ""

def indexText (i : Index) : String :=
  lines <| ["pushdown index", "  Digest: " ++ i.digest, "  Table capabilities: " ++ nameList i.table,
    "  Columns: " ++ Json.countText i.size] ++ i.rows.entries.map rowLine

def indexJson (i : Index) : Json := .object [("digest", .string i.digest), ("index", i.toJson)]

def indexReport (json : Bool) (i : Index) : String :=
  if json then jsonReport (indexJson i) else indexText i

def eventLines (e : Event) : List String :=
  ("  Rejected: " ++ e.status.name ++ " at " ++ Json.ticked e.node) ::
    match e.hint with
    | none => []
    | some h => ["    Hint: " ++ h.message]

def decisionText (call : Call) (d : Decision) : String :=
  lines <| ["pushdown sort-check", "  Call: " ++ call.toText,
    "  Delegable: " ++ if d.delegable then "yes" else "no"] ++ d.events.flatMap eventLines

def decisionJson (call : Call) (features : Features) (d : Decision) : Json :=
  .object [("call", .string call.toText), ("delegable", .bool d.delegable),
    ("enhancedDelegation", .bool features.enhancedDelegation),
    ("diagnostics", .array (d.events.map Event.toJson))]

def decisionReport (json : Bool) (call : Call) (features : Features) (d : Decision) : String :=
  if json then jsonReport (decisionJson call features d) else decisionText call d

def comparatorReport (s : Schema) : String := lines [Comparator.mappingText s]

def versionText : String := lines ["pushdown 0.1.0"]

/-- Left texts padded with blanks to one width. -/
def columns (rows : List (String × String)) : List String :=
  let width := (rows.map (·.1.length)).foldl Nat.max 0
  rows.map fun r => "  " ++ r.1 ++ String.ofList (List.replicate (width - r.1.length + 2) ' ') ++ r.2

def Switch.usage (s : Switch) : String :=
  "--" ++ s.name ++ match s.value with
    | none => ""
    | some v => " <" ++ v ++ ">"

def Form.usage (f : Form) : String :=
  "Usage: pushdown " ++ f.name ++ (if f.switches.all Switch.required then "" else " [OPTIONS]") ++
    String.join ((f.switches.filter Switch.required).map fun s => " " ++ s.usage)

def Form.help (f : Form) : String :=
  lines <| [f.about, "", f.usage, "", "Options:"] ++
    columns (f.switches.map (fun s => ("    " ++ s.usage, s.about)) ++
      [("-h, --help", "Print help")])

def helpAbout : String := "Print this message or the help of the given subcommand(s)"

def generalHelp : String :=
  lines <| ["Pushdown: capability indices and delegation decisions for table operations", "",
      "Usage: pushdown <COMMAND>", "", "Commands:"] ++
    columns (forms.map (fun f => (f.name, f.about)) ++
      [("help", helpAbout)]) ++
    ["", "Options:"] ++ columns [("-h, --help", "Print help"), ("-V, --version", "Print version")]

def helpOnHelp : String :=
  lines <| [helpAbout, "", "Usage: pushdown help [COMMAND]...", "", "Arguments:"] ++
    columns [("[COMMAND]...", "Print help for the subcommand(s)")]

def helpText : HelpTopic → String
  | .program => generalHelp
  | .command form => form.help
  | .help => helpOnHelp

end Delegation.CommandLine
