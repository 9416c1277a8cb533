import Delegation.Capability
import Delegation.Json.Record

namespace Delegation

/-- A sort may be restricted to ascending order; a filter lists the operators it evaluates. -/
structure Grant where
  capabilities : Capabilities
  ascendingOnly : Bool
  operators : Operators
deriving DecidableEq

namespace Grant

def sortable (ascendingOnly : Bool) : Grant := ⟨.singleton .sort, ascendingOnly, .empty⟩

def filterable (operators : Operators) : Grant := ⟨.singleton .filter, false, operators⟩

def groupable : Grant := ⟨.singleton .group, false, .empty⟩

def allows (g : Grant) (c : Capability) : Bool := g.capabilities.contains c

/-- Both grants together: capabilities and operators add up, and a restriction in one restricts. -/
def join (g h : Grant) : Grant :=
  ⟨g.capabilities.union h.capabilities, g.ascendingOnly || h.ascendingOnly,
    g.operators.union h.operators⟩

end Grant

def Capabilities.toJson (s : Capabilities) : Json := .strings (s.toList.map Capability.name)

def Operators.toJson (s : Operators) : Json := .strings (s.toList.map Operator.name)

def Capability.ofJson : Json → Json.Reading Capability :=
  Json.asVariant (Flag.all Capability) Capability.name

def Operator.ofJson : Json → Json.Reading Operator :=
  Json.asVariant (Flag.all Operator) Operator.name

def Capabilities.ofJson (j : Json) : Json.Reading Capabilities :=
  (Json.asList Capability.ofJson j).map FlagSet.ofList

def Operators.ofJson (j : Json) : Json.Reading Operators :=
  (Json.asList Operator.ofJson j).map FlagSet.ofList

namespace Grant

/-- Members in writing order; a flag that is off and an empty operator list are left out. -/
def members (g : Grant) : List (String × Json) :=
  ("kinds", Capabilities.toJson g.capabilities) ::
    (if g.ascendingOnly then [("ascendingOnly", .bool true)] else []) ++
    (if g.operators.isEmpty then [] else [("filterOperators", Operators.toJson g.operators)])

def toJson (g : Grant) : Json := .object g.members

def record : Json.Record Json Grant :=
  mk <$> .field "kinds" Capabilities.ofJson
    <*> .optional "ascendingOnly" false Json.asBool
    <*> .optional "filterOperators" .empty Operators.ofJson

def ofJson : Json → Json.Reading Grant := record.read "struct ColumnCapabilities"

end Grant

end Delegation
