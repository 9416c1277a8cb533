import Delegation.Document
import Delegation.Index.Digest

namespace Delegation

/-- What a decision asks of a source about sorting. -/
structure SortView where
  supports : Path → Capability → Bool
  ascendingOnly : Path → Bool

def Index.sortView (i : Index) : SortView where
  supports p c := c == .sort && i.sorts p
  ascendingOnly := i.ascendingOnly

@[simp] theorem Index.supports_sortView (i : Index) (p : Path) :
    i.sortView.supports p .sort = i.sorts p := rfl

@[simp] theorem Index.ascendingOnly_sortView (i : Index) (p : Path) :
    i.sortView.ascendingOnly p = i.ascendingOnly p := rfl

structure Entity where
  capabilities : Capabilities
  sorting : SortView

def Entity.ofIndex (i : Index) (extra : Capabilities) : Entity := ⟨i.table.union extra, i.sortView⟩

structure ExternalSource where
  name : String
  schema : Schema
  table : SectionTable
  index : Index
  /-- Permissions on the source beyond what its document lists. -/
  declared : Capabilities
  delegatable : Bool

/-- An external source before its document is read. Unless said otherwise the standard sections are
read, reading is declared, and delegation is allowed. -/
structure SourceSpec where
  name : String
  schema : Schema
  document : Json
  table : SectionTable := .standard
  declared : Capabilities := .singleton .read
  delegatable : Bool := true

namespace ExternalSource

def ofSpec (s : SourceSpec) : Document.Checked ExternalSource := do
  let index ← Document.index s.table s.schema s.document
  return ⟨s.name, s.schema, s.table, index, s.declared, s.delegatable⟩

def capabilities (s : ExternalSource) : Capabilities := s.declared.union s.index.table

def refresh (s : ExternalSource) (document : Json) : Document.Checked ExternalSource := do
  return { s with index := ← Document.index s.table s.schema document }

end ExternalSource

structure Registration where
  entity : Option Entity
  external : Option ExternalSource

def Registration.empty : Registration := ⟨none, none⟩

abbrev Registry := SortedMap String Registration

namespace Registry

def find? (r : Registry) (name : String) : Option Registration := SortedMap.get? r name

def external? (r : Registry) (name : String) : Option ExternalSource :=
  (r.find? name).bind Registration.external

def entity? (r : Registry) (name : String) : Option Entity :=
  (r.find? name).bind Registration.entity

/-- An external source under its own name; an entity there stays. -/
def putExternal (r : Registry) (s : ExternalSource) : Registry :=
  SortedMap.insert s.name { (r.find? s.name).getD .empty with external := some s } r

def putEntity (r : Registry) (name : String) (e : Entity) : Registry :=
  SortedMap.insert name { (r.find? name).getD .empty with entity := some e } r

def names (r : Registry) : List String := SortedMap.keys r

@[simp] theorem external?_putExternal (r : Registry) (x : ExternalSource) (name : String) :
    (r.putExternal x).external? name = if name = x.name then some x else r.external? name := by
  rw [external?, find?, putExternal, SortedMap.get?_insert]
  split <;> rfl

@[simp] theorem entity?_putExternal (r : Registry) (x : ExternalSource) (name : String) :
    (r.putExternal x).entity? name = r.entity? name := by
  rw [entity?, find?, putExternal, SortedMap.get?_insert]
  split
  · next h =>
    subst h
    rw [entity?]
    cases r.find? x.name <;> rfl
  · rfl

@[simp] theorem entity?_putEntity (r : Registry) (name' : String) (e : Entity) (name : String) :
    (r.putEntity name' e).entity? name = if name = name' then some e else r.entity? name := by
  rw [entity?, find?, putEntity, SortedMap.get?_insert]
  split <;> rfl

@[simp] theorem external?_putEntity (r : Registry) (name' : String) (e : Entity) (name : String) :
    (r.putEntity name' e).external? name = r.external? name := by
  rw [external?, find?, putEntity, SortedMap.get?_insert]
  split
  · next h =>
    subst h
    rw [external?]
    cases r.find? name <;> rfl
  · rfl

end Registry

def Registration.summary (r : Registration) : String :=
  let entity := String.ofList (Json.writeBool r.entity.isSome)
  let external := r.external.elim "None" fun s => "Some(" ++ Text.quoted s.name ++ ")"
  "RegisteredSource \x7b entity: " ++ entity ++ ", external: " ++ external ++ " \x7d"

end Delegation
