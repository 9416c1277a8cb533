import Delegation.Fragment
import Delegation.Schema

namespace Delegation

structure Index where
  rows : SortedMap Path Grant
  /-- All that some row allows. -/
  table : Capabilities
  /-- The sortable columns, each with whether it sorts in ascending order only. -/
  sorting : SortedMap Path Bool
  filtering : SortedMap Path Operators
  grouping : SortedMap Path Unit
deriving DecidableEq

namespace Index

def empty : Index := ⟨.empty, .empty, .empty, .empty, .empty⟩

instance : Inhabited Index := ⟨empty⟩

/-- The index of rows that are known to belong to the schema. -/
def ofRows (rows : SortedMap Path Grant) : Index where
  rows := rows
  table := rows.entries.foldl (fun s e => s.union e.2.capabilities) .empty
  sorting := rows.filterMap fun _ g => if g.allows .sort then some g.ascendingOnly else none
  filtering := rows.filterMap fun _ g => if g.allows .filter then some g.operators else none
  grouping := rows.filterMap fun _ g => if g.allows .group then some () else none

/-- All fragments merged, less the columns that the schema does not have and those that were granted
nothing. -/
def build (schema : Schema) (fragments : List Fragment) : Index :=
  ofRows <| (Fragment.mergeAll fragments).filterMap fun p g =>
    if schema.contains p && !g.capabilities.isEmpty then some g else none

def size (i : Index) : Nat := i.rows.size

def grant? (i : Index) (p : Path) : Option Grant := i.rows.get? p

def supports (i : Index) (p : Path) (c : Capability) : Bool :=
  (i.grant? p).any fun g => g.allows c

def sorts (i : Index) (p : Path) : Bool := i.sorting.contains p

/-- False also for columns that do not sort. -/
def ascendingOnly (i : Index) (p : Path) : Bool := (i.sorting.get? p).getD false

def filters (i : Index) (p : Path) : Bool := i.filtering.contains p

def operators? (i : Index) (p : Path) : Option Operators := i.filtering.get? p

def evaluates (i : Index) (p : Path) (o : Operator) : Bool :=
  (i.operators? p).any fun s => s.contains o

def groups (i : Index) (p : Path) : Bool := i.grouping.contains p

end Index

end Delegation
