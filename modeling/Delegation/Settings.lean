import Delegation.Decision
import Delegation.Toml.Reader

namespace Delegation

structure Settings where
  features : Features
deriving DecidableEq

namespace Settings

def default : Settings := ⟨.default⟩

def switch? (entries : Toml.Entries) : Option Bool :=
  match entries.lookup "enhanced_delegation" with
  | none => some false
  | some (.boolean b) => some b
  | some _ => none

/-- Features are a table, or an array with the switch first. A date or time counts as a table
without any key of this program. -/
def features? : Toml.Value → Option Features
  | .table _ entries => (switch? entries).map Features.mk
  | .array [] => some .default
  | .array (.boolean b :: _) => some ⟨b⟩
  | .moment _ => some .default
  | _ => none

/-- A document has no top-level key but `features`. -/
def ofText? (text : String) : Option Settings := do
  let entries ← Toml.parse? text
  match entries with
  | [] => return default
  | [("features", v)] => return ⟨← features? v⟩
  | _ => none

end Settings

end Delegation
