import Delegation.Json.Record
import Delegation.Schema

namespace Delegation

inductive WrittenColumn where
  | mk (name : String) (kind : Option ScalarType) (record : Option (List WrittenColumn))
    (optionSet : Bool)

namespace WrittenColumn

mutual
def toColumn : WrittenColumn → Except SchemaFault Column
  | mk n (some k) none o => .ok (.scalar n k o)
  | mk n none (some cs) o =>
    match (toColumns cs).bind Schema.ofColumns with
    | .ok s => .ok (.record n s.columns o)
    | .error f => .error (f.within n)
  | mk n _ _ _ => .error (.untyped n)

def toColumns : List WrittenColumn → Except SchemaFault (List Column)
  | [] => .ok []
  | c :: r => do
    let c ← toColumn c
    return c :: (← toColumns r)
end

/-- A member's value, and its readings as a table and as the columns of one. -/
structure Child where
  json : Json
  table : Unit → Json.Reading (List WrittenColumn)
  columns : Unit → Json.Reading (List WrittenColumn)

def tableRecord : Json.Record Child (List WrittenColumn) := .field "columns" fun c => c.columns ()

def columnRecord : Json.Record Child WrittenColumn :=
  mk <$> .field "name" (fun c => Json.asString c.json)
    <*> .optional "kind" none (fun c => Json.asOption ScalarType.ofJson c.json)
    <*> .optional "record" none (fun c => Json.asOption (fun _ => c.table ()) c.json)
    <*> .optional "optionSet" false (fun c => Json.asBool c.json)

mutual
def tableOfJson : Json → Json.Reading (List WrittenColumn)
  | .object members => tableRecord.ofMembers (childMembers members)
  | .array items => tableRecord.ofItems "struct TableSpec" false (childItems items)
  | j => .error (.type j "struct TableSpec")

def ofJson : Json → Json.Reading WrittenColumn
  | .object members => columnRecord.ofMembers (childMembers members)
  | .array items => columnRecord.ofItems "struct ColumnSpec" false (childItems items)
  | j => .error (.type j "struct ColumnSpec")

def columnsOfJson : Json → Json.Reading (List WrittenColumn)
  | .array items => listOfJson items
  | j => .error (.type j "a sequence")

def listOfJson : List Json → Json.Reading (List WrittenColumn)
  | [] => .ok []
  | j :: r => do
    let c ← ofJson j
    return c :: (← listOfJson r)

def childMembers : List (String × Json) → List (String × Child)
  | [] => []
  | (k, j) :: r => (k, ⟨j, fun _ => tableOfJson j, fun _ => columnsOfJson j⟩) :: childMembers r

def childItems : List Json → List Child
  | [] => []
  | j :: r => ⟨j, fun _ => tableOfJson j, fun _ => columnsOfJson j⟩ :: childItems r
end

end WrittenColumn

namespace Schema

def ofWritten (columns : List WrittenColumn) : Except SchemaFault Schema :=
  (WrittenColumn.toColumns columns).bind ofColumns

def ofJson (j : Json) : Json.Reading Schema := do
  match ofWritten (← WrittenColumn.tableOfJson j) with
  | .ok s => return s
  | .error f => throw (.content f.message)

def payloadMessage (m : Json.Mismatch) : String := "invalid schema payload: " ++ m.message

def optionSetMember (o : Bool) : List (String × Json) :=
  if o then [("optionSet", .bool true)] else []

mutual
def columnJson : Column → Json
  | .scalar n k o =>
    .object (("name", .string n) :: ("kind", .string k.name) :: optionSetMember o)
  | .record n fs o =>
    .object (("name", .string n) :: ("record", .object [("columns", .array (columnsJson fs))]) ::
      optionSetMember o)

def columnsJson : List Column → List Json
  | [] => []
  | c :: r => columnJson c :: columnsJson r
end

def toJson (s : Schema) : Json := .object [("columns", .array (columnsJson s.columns))]

end Schema

end Delegation
