import Delegation.Document.Restriction
import Delegation.Index

namespace Delegation

/-- The sections that are read, by key, in reading order. -/
structure SectionTable where
  sections : List (String × Document.SectionReader)

namespace SectionTable

def empty : SectionTable := ⟨[]⟩

/-- The list with `v` for `k`: in place if `k` is there, else at the end. -/
def putList (k : String) (v : α) : List (String × α) → List (String × α)
  | [] => [(k, v)]
  | e :: r => if e.1 = k then (k, v) :: r else e :: putList k v r

def register (t : SectionTable) (key : String) (read : Document.SectionReader) : SectionTable :=
  ⟨putList key read t.sections⟩

def standard : SectionTable :=
  (((empty.register "sort" Document.sortSection).register "filter" Document.filterSection).register
    "group" Document.groupSection).register "odata" Document.restrictionSection

def keys (t : SectionTable) : List String := t.sections.map Prod.fst

def fragments (schema : Schema) (members : List (String × Json)) :
    List (String × Document.SectionReader) → Document.Checked (List Fragment)
  | [] => .ok []
  | (key, read) :: r =>
    match members.lookup key with
    | none => fragments schema members r
    | some j => do
      let f ← read j schema
      return f :: (← fragments schema members r)

end SectionTable

namespace Document

def index (table : SectionTable) (schema : Schema) : Json → Checked Index
  | .object members => do
    return Index.build schema (← SectionTable.fragments schema members table.sections)
  | _ => Place.root.fail .documentNotObject

end Document

end Delegation
