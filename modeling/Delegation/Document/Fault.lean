import Delegation.Json.Mismatch

namespace Delegation.Document

/-- A place inside a document: the document, a section, or a step further down. -/
inductive Place where
  | root
  | section (name : String)
  | member (place : Place) (name : String)
  | item (place : Place) (position : Nat)
deriving DecidableEq

def Place.text : Place → String
  | root => "$"
  | «section» name => name
  | member p name => p.text ++ "." ++ name
  | item p i => p.text ++ "[" ++ Json.countText i ++ "]"

inductive Cause where
  | documentNotObject
  | notArray
  | notObject
  | notBoolean
  | noColumn
  | emptyName
  | emptyPath
  | badSegment
  | notReference
  | notPropertyPath
  | badPropertyPath (text : String)
  | notOperatorName
  /-- What the reader of a further section says. -/
  | other (text : String)
deriving DecidableEq

def Cause.message : Cause → String
  | documentNotObject => "capability document must be a JSON object"
  | notArray => "expected an array"
  | notObject => "expected an object"
  | notBoolean => "expected a boolean"
  | noColumn => "missing " ++ Json.ticked "column"
  | emptyName => "column name must not be empty"
  | emptyPath => "column path must not be empty"
  | badSegment => "expected a non-empty name"
  | notReference => "expected a column name or an array of name segments"
  | notPropertyPath => "expected a property path"
  | badPropertyPath text => "invalid property path " ++ Json.ticked text
  | notOperatorName => "expected an operator name"
  | other text => text

inductive Fault where
  | malformed (place : Place) (cause : Cause)
  /-- A text that is no JSON, as the reader of a further section may meet one. -/
  | notJson (text : String)
deriving DecidableEq

namespace Fault

def message : Fault → String
  | malformed p c => "malformed capability document at " ++ Json.ticked p.text ++ ": " ++ c.message
  | notJson text => "capability document is not valid JSON: " ++ text

def place? : Fault → Option Place
  | malformed p _ => some p
  | notJson _ => none

def path? (f : Fault) : Option String := f.place?.map Place.text

end Fault

abbrev Checked := Except Fault

def Place.fail (p : Place) (c : Cause) : Checked α := .error (.malformed p c)

def asArray (p : Place) : Json → Checked (List Json)
  | .array items => .ok items
  | _ => p.fail .notArray

def asObject (p : Place) : Json → Checked (List (String × Json))
  | .object members => .ok members
  | _ => p.fail .notObject

/-- A member that is absent or `null` counts as not given. -/
def given? (members : List (String × Json)) (name : String) : Option Json :=
  match members.lookup name with
  | none => none
  | some .null => none
  | some j => some j

def flag (p : Place) (members : List (String × Json)) (name : String) (default : Bool) :
    Checked Bool :=
  match given? members name with
  | none => .ok default
  | some (.bool b) => .ok b
  | some _ => (p.member name).fail .notBoolean

def eachItem (p : Place) (read : Place → Json → Checked α) (items : List Json) : Checked (List α) :=
  items.zipIdx.mapM fun (j, i) => read (p.item i) j

end Delegation.Document
