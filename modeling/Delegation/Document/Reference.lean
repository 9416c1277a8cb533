import Delegation.Document.Fault
import Delegation.Path
import Delegation.Text.Blank

namespace Delegation.Document

def segment (p : Place) : Json → Checked String
  | .string s => if Text.blank s then p.fail .badSegment else .ok (Text.trim s)
  | _ => p.fail .badSegment

def segments (p : Place) (items : List Json) : Checked Path :=
  if items.isEmpty then p.fail .emptyPath
  else (eachItem p segment items).map Path.mk

def columnReference (p : Place) : Json → Checked Path
  | .string s => if Text.blank s then p.fail .emptyName else .ok (.column (Text.trim s))
  | .array items => segments p items
  | _ => p.fail .notReference

/-- The parts of a text between the slashes, one more than there are slashes. -/
def slashParts (cs : List Char) : List (List Char) :=
  match cs with
  | [] => [[]]
  | c :: r =>
    if c = '/' then [] :: slashParts r
    else
      match slashParts r with
      | [] => [[c]]
      | part :: parts => (c :: part) :: parts

def propertyPath (p : Place) : Json → Checked Path
  | .string s =>
    let parts := (slashParts s.toList).map fun cs => Text.trim (String.ofList cs)
    if parts.any fun part => part.isEmpty then p.fail (.badPropertyPath s) else .ok ⟨parts⟩
  | .array items => segments p items
  | _ => p.fail .notPropertyPath

end Delegation.Document
