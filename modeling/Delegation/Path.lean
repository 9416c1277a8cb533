import Delegation.Json.Mismatch
import Delegation.SortedMap

namespace Delegation

/-- The root path has no segments and stands for the table itself. -/
structure Path where
  segments : List String
deriving DecidableEq

namespace Path

def root : Path := ⟨[]⟩

def column (name : String) : Path := ⟨[name]⟩

def append (p : Path) (name : String) : Path := ⟨p.segments ++ [name]⟩

def length (p : Path) : Nat := p.segments.length

def isRoot (p : Path) : Bool := p.segments.isEmpty

def leaf? (p : Path) : Option String := p.segments.getLast?

def text (p : Path) : String := String.intercalate "." p.segments

/-- Segment by segment, and by code points within a segment. -/
instance : LT Path := ⟨fun p q => p.segments < q.segments⟩

instance : DecidableLT Path := fun p q => inferInstanceAs (Decidable (p.segments < q.segments))

instance : KeyOrder Path where
  irrefl p := List.lt_irrefl p.segments
  trans _ _ _ := List.lt_trans
  trichotomy p q := by
    rcases Classical.em (p.segments < q.segments) with h | h
    · exact .inl h
    · rcases Classical.em (q.segments < p.segments) with h' | h'
      · exact .inr (.inr h')
      · refine .inr (.inl ?_)
        obtain ⟨p⟩ := p
        obtain ⟨q⟩ := q
        exact congrArg _ (List.le_antisymm h' h)

def toJson (p : Path) : Json := .strings p.segments

def ofJson (j : Json) : Json.Reading Path := (Json.asStrings j).map Path.mk

end Path

end Delegation
