import Delegation.Path
import Delegation.Text.Blank

namespace Delegation

inductive ScalarType where
  | boolean | number | decimal | currency | date | time | dateTime | color
  | string | guid | hyperlink | image | penImage | media | blob
deriving DecidableEq, Repr

namespace ScalarType

def name : ScalarType → String
  | boolean => "boolean"
  | number => "number"
  | decimal => "decimal"
  | currency => "currency"
  | date => "date"
  | time => "time"
  | dateTime => "dateTime"
  | color => "color"
  | string => "string"
  | guid => "guid"
  | hyperlink => "hyperlink"
  | image => "image"
  | penImage => "penImage"
  | media => "media"
  | blob => "blob"

def all : List ScalarType :=
  [boolean, number, decimal, currency, date, time, dateTime, color,
    string, guid, hyperlink, image, penImage, media, blob]

theorem mem_all (k : ScalarType) : k ∈ all := by cases k <;> decide

theorem name_injective {a b : ScalarType} (h : a.name = b.name) : a = b := by
  cases a <;> cases b <;> first | rfl | exact absurd h (by decide)

def ofJson : Json → Json.Reading ScalarType := Json.asVariant all name

end ScalarType

/-- A column's values may come from an option set. -/
inductive Column where
  | scalar (name : String) (kind : ScalarType) (optionSet : Bool)
  | record (name : String) (fields : List Column) (optionSet : Bool)

namespace Column

def name : Column → String
  | scalar n _ _ => n
  | record n _ _ => n

def optionSet : Column → Bool
  | scalar _ _ o => o
  | record _ _ o => o

def kind? : Column → Option ScalarType
  | scalar _ k _ => some k
  | record .. => none

def isScalar (c : Column) : Bool := c.kind?.isSome

def fields : Column → List Column
  | scalar .. => []
  | record _ fs _ => fs

end Column

/-- A level is well named when no name is blank and all differ. -/
def LevelNamed (names : List String) : Prop :=
  (∀ n ∈ names, Text.blank n = false) ∧ names.Nodup

instance (names : List String) : Decidable (LevelNamed names) :=
  inferInstanceAs (Decidable (_ ∧ _))

mutual
def Column.FieldsNamed : Column → Prop
  | .scalar .. => True
  | .record _ fs _ => LevelNamed (fs.map Column.name) ∧ AllFieldsNamed fs

def AllFieldsNamed : List Column → Prop
  | [] => True
  | c :: r => c.FieldsNamed ∧ AllFieldsNamed r
end

def WellNamed (columns : List Column) : Prop :=
  LevelNamed (columns.map Column.name) ∧ AllFieldsNamed columns

structure Schema where
  columns : List Column
  wellNamed : WellNamed columns

/-- Why columns are no schema. `parent` tells the level: `<root>`, or the enclosing records. -/
inductive SchemaFault where
  | emptyName (parent : String)
  | duplicate (name parent : String)
  | untyped (name : String)
deriving DecidableEq

namespace SchemaFault

def rootParent : String := "<root>"

/-- A level below a record: the record's name takes the place of `<root>` and stands before any
other parent. -/
def parentWithin (record parent : String) : String :=
  if parent = rootParent then record else record ++ "." ++ parent

def within (record : String) : SchemaFault → SchemaFault
  | emptyName parent => emptyName (parentWithin record parent)
  | duplicate name parent => duplicate name (parentWithin record parent)
  | untyped name => untyped name

def message : SchemaFault → String
  | emptyName parent =>
    "column name must not be empty (under " ++ Json.ticked parent ++ ")"
  | duplicate name parent =>
    "duplicate column " ++ Json.ticked name ++ " (under " ++ Json.ticked parent ++ ")"
  | untyped name =>
    "column " ++ Json.ticked name ++ " must declare exactly one of " ++ Json.ticked "kind" ++
      " or " ++ Json.ticked "record"

end SchemaFault

/-- The first name of a level that is blank or stands there already; `seen` are the names before. -/
def levelFault? (seen : List String) : List String → Option SchemaFault
  | [] => none
  | n :: r =>
    if Text.blank n then some (.emptyName SchemaFault.rootParent)
    else if n ∈ seen then some (.duplicate n SchemaFault.rootParent)
    else levelFault? (n :: seen) r

theorem levelFault?_eq_none {seen names : List String} (h : levelFault? seen names = none) :
    LevelNamed names ∧ ∀ n ∈ names, n ∉ seen := by
  induction names generalizing seen with
  | nil => simp [LevelNamed]
  | cons n r ih =>
    rw [levelFault?] at h
    split at h
    · simp at h
    · next hb =>
      split at h
      · simp at h
      · next hs =>
        obtain ⟨⟨hr, hd⟩, hn⟩ := ih h
        refine ⟨⟨?_, ?_⟩, ?_⟩
        · intro m hm
          rcases List.mem_cons.1 hm with rfl | hm
          · simpa using hb
          · exact hr m hm
        · exact List.nodup_cons.2 ⟨fun hm => hn n hm List.mem_cons_self, hd⟩
        · intro m hm
          rcases List.mem_cons.1 hm with rfl | hm
          · exact hs
          · exact fun hm' => hn m hm (List.mem_cons_of_mem _ hm')

mutual
/-- The first fault inside a column; a record's fields come before the level it stands on. -/
def Column.fault? : Column → Option SchemaFault
  | .scalar .. => none
  | .record n fs _ =>
    ((fieldFault? fs).or (levelFault? [] (fs.map Column.name))).map (.within n)

def fieldFault? : List Column → Option SchemaFault
  | [] => none
  | c :: r => c.fault?.or (fieldFault? r)
end

mutual
theorem Column.fieldsNamed_of_fault? : ∀ c : Column, c.fault? = none → c.FieldsNamed
  | .scalar .., _ => trivial
  | .record n fs _, h => by
    simp only [Column.fault?, Option.map_eq_none_iff, Option.or_eq_none_iff] at h
    exact ⟨(levelFault?_eq_none h.2).1, allFieldsNamed_of_fieldFault? fs h.1⟩

theorem allFieldsNamed_of_fieldFault? : ∀ cs : List Column, fieldFault? cs = none → AllFieldsNamed cs
  | [], _ => trivial
  | c :: r, h => by
    simp only [fieldFault?, Option.or_eq_none_iff] at h
    exact ⟨c.fieldsNamed_of_fault? h.1, allFieldsNamed_of_fieldFault? r h.2⟩
end

namespace Schema

def empty : Schema := ⟨[], by simp [WellNamed, LevelNamed, AllFieldsNamed]⟩

instance : Inhabited Schema := ⟨empty⟩

def ofColumns (columns : List Column) : Except SchemaFault Schema :=
  match h : (fieldFault? columns).or (levelFault? [] (columns.map Column.name)) with
  | some f => .error f
  | none =>
    .ok ⟨columns, (levelFault?_eq_none (Option.or_eq_none_iff.1 h).2).1,
      allFieldsNamed_of_fieldFault? columns (Option.or_eq_none_iff.1 h).1⟩

end Schema

def findColumn? (columns : List Column) (name : String) : Option Column :=
  columns.find? fun c => c.name == name

def resolveNames? (columns : List Column) : List String → Option Column
  | [] => none
  | [n] => findColumn? columns n
  | n :: r => (findColumn? columns n).bind fun c => resolveNames? c.fields r

mutual
/-- The names that lead to each scalar in a column, the column itself first. -/
def Column.leaves : Column → List (List String)
  | .scalar n _ _ => [[n]]
  | .record n fs _ => (leavesOf fs).map (n :: ·)

def leavesOf : List Column → List (List String)
  | [] => []
  | c :: r => c.leaves ++ leavesOf r
end

namespace Schema

def column? (s : Schema) (name : String) : Option Column := findColumn? s.columns name

/-- The column at a path; the root path is no column. -/
def resolve? (s : Schema) (p : Path) : Option Column := resolveNames? s.columns p.segments

def contains (s : Schema) (p : Path) : Bool := (s.resolve? p).isSome

/-- The path of every scalar column, depth first in declaration order. -/
def leaves (s : Schema) : List Path := (leavesOf s.columns).map Path.mk

end Schema

end Delegation
