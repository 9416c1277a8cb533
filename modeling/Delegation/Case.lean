import Delegation.Catalog
import Delegation.Expr.Json
import Delegation.Schema.Written

namespace Delegation

structure CaseEntity where
  document : Json
  arrayLookup : Bool

structure Case where
  table : String
  schema : Json
  document : Option Json
  /-- Reading alone is declared when nothing is. -/
  declared : Option Capabilities
  delegatable : Bool
  entity : Option CaseEntity
  asyncFunctions : List String
  constants : SortedMap String String
  call : Call

namespace Case

def entityRecord : Json.Record Json CaseEntity :=
  CaseEntity.mk <$> .field "document" (pure ·.canonical)
    <*> .optional "arrayLookup" false Json.asBool

def constantsOfJson : Json → Json.Reading (SortedMap String String)
  | .object members => do
    return .ofList (← members.mapM fun m => do return (m.1, ← Json.asString m.2))
  | j => .error (.type j "a map")

def record : Json.Record Json Case :=
  mk <$> .field "table" Json.asString
    <*> .field "schema" (pure ·.canonical)
    <*> .optional "document" none (Json.asOption (pure ·.canonical))
    <*> .optional "declaredCapabilities" none (Json.asOption Capabilities.ofJson)
    <*> .optional "delegatable" true Json.asBool
    <*> .optional "entity" none (Json.asOption (entityRecord.read "struct EntityCase"))
    <*> .optional "asyncFunctions" [] Json.asStrings
    <*> .optional "constants" .empty constantsOfJson
    <*> .field "call" Call.ofJson

def interest : Json.Interest :=
  .members [("table", .whole), ("schema", .whole), ("document", .whole),
    ("declaredCapabilities", .whole), ("delegatable", .whole),
    ("entity", .members [("document", .whole), ("arrayLookup", .whole)]),
    ("asyncFunctions", .whole), ("constants", .whole), ("call", Call.interest)]

def ofText? (s : String) : Option Case :=
  (Json.parseRaw? s interest).bind fun j => (record.read "struct SortCheckCase" j).toOption

/-- Why a case cannot be decided, found in this order. -/
inductive Fault where
  | schema (mismatch : Json.Mismatch)
  | document (fault : Document.Fault)
  | entity (fault : Document.Fault)
  | arity (function : String) (count least most : Nat)
  /-- The decision itself could not look at the call. -/
  | misuse (misuse : Misuse)

def Fault.message : Fault → String
  | schema m => "invalid case schema: " ++ Schema.payloadMessage m
  | document f => "invalid case document: " ++ f.message
  | entity f => "invalid entity document: " ++ f.message
  | arity f n least most =>
    f ++ " expects " ++ Json.countText least ++ "..=" ++ Json.countText most ++
      " arguments, case has " ++ Json.countText n
  | misuse m => m.message

def external (c : Case) (schema : Schema) : Document.Checked (Option ExternalSource) :=
  match c.document with
  | none => .ok none
  | some document => do
    let spec : SourceSpec :=
      { name := c.table, schema, document, delegatable := c.delegatable
        declared := c.declared.getD (.singleton .read) }
    return some (← ExternalSource.ofSpec spec)

def bound (c : Case) (schema : Schema) : Document.Checked (Option Entity) :=
  match c.entity with
  | none => .ok none
  | some e => do
    let index ← Document.index .standard schema e.document
    return some (.ofIndex index (if e.arrayLookup then .singleton .arrayLookup else .empty))

/-- What stands under the case's table, and nothing else does. -/
def registry (c : Case) (schema : Schema) : Except Fault Registry := do
  let external ← (c.external schema).mapError .document
  let entity ← (c.bound schema).mapError .entity
  let r : Registry := SortedMap.empty
  let r := external.elim r r.putExternal
  return entity.elim r (r.putEntity c.table)

def scope (c : Case) (schema : Schema) : TableScope :=
  ⟨c.table, schema, c.asyncFunctions, c.constants⟩

/-- A built-in function is called with a count of arguments in its window. -/
def checkArity (call : Call) : Except Fault Unit :=
  match Catalog.builtins.find? call.function with
  | none => .ok ()
  | some f =>
    if f.acceptsArity call.args.length then .ok ()
    else .error (.arity f.name call.args.length f.least f.most)

def decide (c : Case) (features : Features) : Except Fault Decision := do
  let schema ← (Schema.ofJson c.schema).mapError .schema
  let registry ← c.registry schema
  checkArity c.call
  let cx : Context := ⟨(c.scope schema).environment, registry, features⟩
  (Catalog.builtins.decide cx c.call).mapError .misuse

end Case

end Delegation
