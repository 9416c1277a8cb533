import Delegation.Document.Reference
import Delegation.Fragment
import Delegation.Schema

namespace Delegation.Document

abbrev SectionReader := Json → Schema → Checked Fragment

def grantKnown (schema : Schema) (items : List (Path × Grant)) : Fragment :=
  let known := items.filter fun e => schema.contains e.1
  known.foldl (fun f e => Fragment.add f e.1 e.2) SortedMap.empty

/-- Every item is checked, but only columns of the schema are granted anything. -/
def listing (name : String) (read : Place → Json → Checked (Path × Grant)) : SectionReader :=
  fun j schema => do
    let items ← asArray (.section name) j
    return grantKnown schema (← eachItem (.section name) read items)

def itemColumn (p : Place) (members : List (String × Json)) : Checked Path :=
  match members.lookup "column" with
  | none => p.fail .noColumn
  | some j => columnReference (p.member "column") j

/-- A sortable column, in both directions unless said otherwise. -/
def sortItem (p : Place) (j : Json) : Checked (Path × Grant) := do
  let members ← asObject p j
  let column ← itemColumn p members
  let ascendingOnly ← flag p members "ascendingOnly" false
  return (column, .sortable ascendingOnly)

def operatorName (p : Place) : Json → Checked String
  | .string s => .ok s
  | _ => p.fail .notOperatorName

/-- The operators of a list of names; names of no operator are passed over. -/
def operatorsNamed (names : List String) : Operators :=
  FlagSet.ofList (names.filterMap Operator.ofName?)

def itemOperators (p : Place) (members : List (String × Json)) : Checked Operators :=
  match given? members "operators" with
  | none => .ok .full
  | some j => do
    let items ← asArray (p.member "operators") j
    return operatorsNamed (← eachItem (p.member "operators") operatorName items)

def filterItem (p : Place) (j : Json) : Checked (Path × Grant) := do
  let members ← asObject p j
  let column ← itemColumn p members
  let operators ← itemOperators p members
  return (column, .filterable operators)

/-- A reference, bare or as the member `column` of an object. -/
def groupItem (p : Place) : Json → Checked (Path × Grant)
  | .object members => do return (← itemColumn p members, .groupable)
  | j => do return (← columnReference p j, .groupable)

def sortSection : SectionReader := listing "sort" sortItem

def filterSection : SectionReader := listing "filter" filterItem

def groupSection : SectionReader := listing "group" groupItem

end Delegation.Document
