import Delegation.Json.Record
import Delegation.Source
import Delegation.Direction

namespace Delegation

structure Features where
  /-- A bound entity that looks up arrays goes before an external source. -/
  enhancedDelegation : Bool
deriving DecidableEq

namespace Features

def default : Features := ⟨false⟩

def record : Json.Record Json Features :=
  mk <$> .optional "enhanced_delegation" false Json.asBool

def ofJson : Json → Json.Reading Features := record.read "struct FeatureFlags"

def toJson (f : Features) : Json := .object [("enhanced_delegation", .bool f.enhancedDelegation)]

end Features

inductive Status where
  | noCapabilitySource
  | unsupportedSortArg
  | noDelSupportByColumn
  | sortOrderNotSupportedByColumn
  | asyncSortOrder
  | unsupportedSortOrder
deriving DecidableEq, Repr

namespace Status

def name : Status → String
  | noCapabilitySource => "NoCapabilitySource"
  | unsupportedSortArg => "UnsupportedSortArg"
  | noDelSupportByColumn => "NoDelSupportByColumn"
  | sortOrderNotSupportedByColumn => "SortOrderNotSupportedByColumn"
  | asyncSortOrder => "AsyncSortOrder"
  | unsupportedSortOrder => "UnsupportedSortOrder"

def all : List Status :=
  [noCapabilitySource, unsupportedSortArg, noDelSupportByColumn, sortOrderNotSupportedByColumn,
    asyncSortOrder, unsupportedSortOrder]

def ofJson : Json → Json.Reading Status := Json.asVariant all name

end Status

inductive Hint where
  | restructure
deriving DecidableEq, Repr

namespace Hint

def name : Hint → String
  | restructure => "RestructureForDelegation"

def message : Hint → String
  | restructure =>
    "Rewrite the expression so the data source can evaluate it, or expect local evaluation over " ++
      "a partial result."

def ofJson : Json → Json.Reading Hint := Json.asVariant [restructure] name

end Hint

/-- A refusal: the reason, the function, and the text of the expression to blame. -/
structure Event where
  status : Status
  function : String
  node : String
  hint : Option Hint
deriving DecidableEq

namespace Event

def record : Json.Record Json Event :=
  mk <$> .field "status" Status.ofJson
    <*> .field "function" Json.asString
    <*> .field "node" Json.asString
    <*> .optional "hint" none (Json.asOption Hint.ofJson)

def ofJson : Json → Json.Reading Event := record.read "struct DiagnosticEvent"

def toJson (e : Event) : Json :=
  .object (("status", .string e.status.name) :: ("function", .string e.function) ::
    ("node", .string e.node) ::
    match e.hint with
    | none => []
    | some h => [("hint", .string h.name)])

end Event

/-- Everything a decision looks at besides the call. -/
structure Context where
  environment : Environment
  registry : Registry
  features : Features

/-- Where the answers about columns come from. -/
inductive Provider where
  | entity (e : Entity)
  | external (s : ExternalSource)

def Provider.sorting : Provider → SortView
  | entity e => e.sorting
  | external s => s.index.sortView

inductive Resolution where
  | resolved (p : Provider)
  /-- An entity stands under the source's name but could not be used, or none does. -/
  | unavailable (entityBound : Bool)

namespace Resolution

def summary : Resolution → String
  | resolved (.entity _) => "Resolved(Entity)"
  | resolved (.external s) => "Resolved(External(" ++ Text.quoted s.index.digest ++ "))"
  | unavailable bound =>
    "Unavailable \x7b entity_bound: " ++ String.ofList (Json.writeBool bound) ++ " \x7d"

end Resolution

/-- Enhanced delegation uses an entity that looks up arrays. -/
def Features.admits (f : Features) (e : Entity) : Bool :=
  f.enhancedDelegation && e.capabilities.contains .arrayLookup

def ExternalSource.offers (s : ExternalSource) (c : Capability) (required : Capabilities) : Bool :=
  s.delegatable && s.capabilities.includes (required.insert c)

namespace Context

def registration? (cx : Context) (source : Expr) : Option Registration :=
  (cx.environment.source? source).bind cx.registry.find?

/-- The provider for a source argument: an admitted entity first, then an external source that
offers what is asked. -/
def resolve (cx : Context) (source : Expr) (c : Capability) (required : Capabilities) : Resolution :=
  match cx.registration? source with
  | none => .unavailable false
  | some r =>
    match r.entity.filter cx.features.admits, r.external.filter (·.offers c required) with
    | some e, _ => .resolved (.entity e)
    | none, some s => .resolved (.external s)
    | none, none => .unavailable r.entity.isSome

end Context

structure Decision where
  delegable : Bool
  events : List Event
deriving DecidableEq

namespace Decision

def accept : Decision := ⟨true, []⟩

def refuse (status : Status) (function : String) (blamed : Expr) (hinted : Bool) : Decision :=
  ⟨false, [⟨status, function, blamed.toText, if hinted then some .restructure else none⟩]⟩

end Decision

end Delegation
