namespace Delegation.Toml

/-- How a table came to be: by its own header, on the way to another header, by a dotted key, or
written in braces. -/
inductive Origin where
  | header | passage | dotted | inline
deriving DecidableEq

inductive Value where
  | text (s : String)
  | integer (n : Int)
  | float (written : String)
  | boolean (b : Bool)
  | moment (written : String)
  | array (items : List Value)
  | table (origin : Origin) (entries : List (String × Value))
  /-- Tables under double brackets, one a header. -/
  | tables (items : List (List (String × Value)))

abbrev Entries := List (String × Value)

def adjust (key : String) (f : Option Value → Option Value) : Entries → Option Entries
  | [] => (f none).map fun v => [(key, v)]
  | e :: r =>
    if e.1 = key then (f (some e.2)).map fun v => (key, v) :: r
    else (adjust key f r).map (e :: ·)

def put (key : String) (v : Value) : Entries → Option Entries :=
  adjust key fun
    | none => some v
    | some _ => none

def adjustLast (f : Entries → Option Entries) : List Entries → Option (List Entries)
  | [] => none
  | [es] => (f es).map ([·])
  | es :: r => (adjustLast f r).map (es :: ·)

/-- `f` applied to the table that a header's path leads to; tables that are missing on the way are
made, and of tables under double brackets the last is meant. -/
def descend (f : Entries → Option Entries) : List String → Entries → Option Entries
  | [], es => f es
  | k :: ks, es =>
    adjust k (fun
      | none => (descend f ks []).map (.table .passage)
      | some (.table o inner) => if o = .inline then none else (descend f ks inner).map (.table o)
      | some (.tables items) => (adjustLast (descend f ks) items).map .tables
      | some _ => none) es

/-- A value under a dotted key. The tables on the way may have been made on the way to a header, the
last one only by a dotted key. -/
def putDotted (key : String) (v : Value) : List String → Entries → Option Entries
  | [], es => put key v es
  | k :: ks, es =>
    adjust k (fun
      | none => (putDotted key v ks []).map (.table .dotted)
      | some (.table .dotted inner) => (putDotted key v ks inner).map (.table .dotted)
      | some (.table .passage inner) =>
        if ks.isEmpty then none else (putDotted key v ks inner).map (.table .passage)
      | some (.tables items) =>
        if ks.isEmpty then none else (adjustLast (putDotted key v ks) items).map .tables
      | some _ => none) es

/-- A header opens a table that is new, or was only passed on the way to another. -/
def openTable (key : String) : Entries → Option Entries :=
  adjust key fun
    | none => some (.table .header [])
    | some (.table .passage inner) => some (.table .header inner)
    | some _ => none

def openTables (key : String) : Entries → Option Entries :=
  adjust key fun
    | none => some (.tables [[]])
    | some (.tables items) => some (.tables (items ++ [[]]))
    | some _ => none

def inlineEntries (pairs : List ((List String × String) × Value)) : Option Entries :=
  pairs.foldlM (fun es p => putDotted p.1.2 p.2 p.1.1 es) []

/-- What a document holds so far, and the path of the header in force. -/
structure Document where
  root : Entries
  current : List String

namespace Document

def empty : Document := ⟨[], []⟩

def put? (d : Document) (path : List String) (key : String) (v : Value) : Option Document :=
  (descend (putDotted key v path) d.current d.root).map (⟨·, d.current⟩)

def openTable? (d : Document) (path : List String) (key : String) : Option Document :=
  (descend (openTable key) path d.root).map (⟨·, path ++ [key]⟩)

def openTables? (d : Document) (path : List String) (key : String) : Option Document :=
  (descend (openTables key) path d.root).map (⟨·, path ++ [key]⟩)

end Document

end Delegation.Toml
