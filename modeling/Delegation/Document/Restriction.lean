import Delegation.Document.Listing

namespace Delegation.Document

structure Restriction where
  excluded : List Path
  ascendingOnly : List Path
  granted : Bool

/-- How a restriction is written and what it grants a column, told whether the column is among those
restricted further. -/
structure RestrictionForm where
  name : String
  exclusion : String
  ascending : Option String
  switch : String
  grant : Bool → Grant

def sortForm : RestrictionForm :=
  ⟨"SortRestrictions", "NonSortableProperties", some "AscendingOnlyProperties", "Sortable",
    .sortable⟩

def filterForm : RestrictionForm :=
  ⟨"FilterRestrictions", "NonFilterableProperties", none, "Filterable",
    fun _ => .filterable .full⟩

def groupForm : RestrictionForm :=
  ⟨"GroupRestrictions", "UngroupableProperties", none, "Groupable", fun _ => .groupable⟩

def restrictionsPlace : Place := .section "odata"

def propertyPaths (p : Place) (members : List (String × Json)) (name : String) :
    Checked (List Path) :=
  match given? members name with
  | none => .ok []
  | some j => do eachItem (p.member name) propertyPath (← asArray (p.member name) j)

def restriction? (form : RestrictionForm) (members : List (String × Json)) :
    Checked (Option Restriction) :=
  match given? members form.name with
  | none => .ok none
  | some j => do
    let p := restrictionsPlace.member form.name
    let ms ← asObject p j
    let excluded ← propertyPaths p ms form.exclusion
    let ascending ← match form.ascending with
      | none => .ok []
      | some name => propertyPaths p ms name
    let granted ← flag p ms form.switch true
    return some ⟨excluded, ascending, granted⟩

def Restriction.grants (form : RestrictionForm) (r : Restriction) (leaves : List Path) :
    List (Path × Grant) :=
  if r.granted then
    (leaves.filter fun p => !r.excluded.contains p).map fun p =>
      (p, form.grant (r.ascendingOnly.contains p))
  else []

def restrictionGrants (form : RestrictionForm) (members : List (String × Json))
    (leaves : List Path) : Checked (List (Path × Grant)) := do
  match ← restriction? form members with
  | none => return []
  | some r => return r.grants form leaves

/-- A restriction that is there grants its capability to every scalar column that it does not
exclude, unless its boolean says no. -/
def restrictionSection : SectionReader := fun j schema => do
  let members ← asObject restrictionsPlace j
  let sorting ← restrictionGrants sortForm members schema.leaves
  let filtering ← restrictionGrants filterForm members schema.leaves
  let grouping ← restrictionGrants groupForm members schema.leaves
  return (sorting ++ filtering ++ grouping).foldl (fun f e => Fragment.add f e.1 e.2) SortedMap.empty

end Delegation.Document
