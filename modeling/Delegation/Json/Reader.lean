import Delegation.Json.Tree

namespace Delegation.Json

def maxDepth : Nat := 127

namespace Tree

mutual
def value? (depth : Nat) : Tree → Option Json
  | null => some .null
  | bool b => some (.bool b)
  | number l => l.number?.map .number
  | string ps => (Piece.decode? ps).map (.string ∘ String.ofList)
  | array items =>
    match depth with
    | 0 => none
    | d + 1 => (valueItems? d items).map .array
  | object members =>
    match depth with
    | 0 => none
    | d + 1 => (valueMembers? d members).map .object

def valueItems? (depth : Nat) : List Tree → Option (List Json)
  | [] => some []
  | t :: r => do return (← value? depth t) :: (← valueItems? depth r)

def valueMembers? (depth : Nat) : List (List Piece × Tree) → Option (List (String × Json))
  | [] => some []
  | (k, t) :: r => do
    let name ← Piece.decode? k
    return (String.ofList name, ← value? depth t) :: (← valueMembers? depth r)
end

end Tree

/-- Reads a tree with at most so many containers nested in it. -/
abbrev TreeReader := Nat → Tree → Option Json

def selected? (readers : List (String × TreeReader)) (depth : Nat) :
    List (List Piece × Tree) → Option (List (String × Json))
  | [] => some []
  | (k, t) :: r => do
    let name := String.ofList (← Piece.decode? k)
    match readers.lookup name with
    | none => selected? readers depth r
    | some read => return (name, ← read depth t) :: (← selected? readers depth r)

/-- Items of the array form, each read as the member in its place. -/
def aligned? (readers : List (String × TreeReader)) (depth : Nat) : List Tree → Option (List Json)
  | [] => some []
  | t :: r =>
    match readers with
    | [] => Tree.valueItems? depth (t :: r)
    | (_, read) :: readers => do return (← read depth t) :: (← aligned? readers depth r)

def record? (readers : List (String × TreeReader)) (depth : Nat) (t : Tree) : Option Json :=
  match t, depth with
  | .object ms, d + 1 => (selected? readers d ms).map .object
  | .array ts, d + 1 => (aligned? readers d ts).map .array
  | t, d => t.value? d

/-- What a reader looks at: the whole value, or named members in the order of an array form. -/
inductive Interest where
  | whole
  | members (names : List (String × Interest))

namespace Interest

mutual
def value? : Interest → TreeReader
  | whole => fun depth t => t.value? depth
  | members names => record? (readers names)

def readers : List (String × Interest) → List (String × TreeReader)
  | [] => []
  | (name, i) :: r => (name, value? i) :: readers r
end

end Interest

/-- The value of a text, its members in the order of the text. Members that are not looked at need
only follow the grammar. -/
def parseRaw? (text : String) (interest : Interest) : Option Json :=
  (Tree.parse? text).bind (interest.value? maxDepth)

/-- The value of a text, the members of its objects in name order and one for each name. -/
def parse? (text : String) : Option Json := (parseRaw? text .whole).map canonical

end Delegation.Json
