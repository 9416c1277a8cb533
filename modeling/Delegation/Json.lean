import Delegation.Binary64
import Delegation.SortedMap

namespace Delegation

/-- Whole numbers of at most 64 bits are kept exactly, all others as binary64. -/
inductive Json.Number where
  | whole (n : Int)
  | real (x : Binary64)
deriving DecidableEq

/-- Objects keep their members in the order of the text. -/
inductive Json where
  | null
  | bool (b : Bool)
  | number (n : Json.Number)
  | string (s : String)
  | array (items : List Json)
  | object (members : List (String × Json))

namespace Json

instance : Inhabited Json := ⟨null⟩

def string? : Json → Option String
  | string s => some s
  | _ => none

def bool? : Json → Option Bool
  | bool b => some b
  | _ => none

def array? : Json → Option (List Json)
  | array items => some items
  | _ => none

def object? : Json → Option (List (String × Json))
  | object members => some members
  | _ => none

def get? (j : Json) (name : String) : Option Json := j.object?.bind (·.lookup name)

def strings (l : List String) : Json := array (l.map string)

mutual
/-- The value with the members of every object in name order; of members that share a name the last
stays. -/
def canonical : Json → Json
  | array items => array (canonicalItems items)
  | object members => object (SortedMap.ofList (canonicalMembers members)).entries
  | j => j

def canonicalItems : List Json → List Json
  | [] => []
  | j :: r => canonical j :: canonicalItems r

def canonicalMembers : List (String × Json) → List (String × Json)
  | [] => []
  | (k, j) :: r => (k, canonical j) :: canonicalMembers r
end

end Json

end Delegation
