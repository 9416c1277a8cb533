import Delegation.FlagSet
import Delegation.Text.Blank
import Delegation.Text.Letters

namespace Delegation

inductive Capability where
  | create | read | update | delete | sort | filter | group | arrayLookup
deriving DecidableEq, Repr

namespace Capability

def name : Capability → String
  | create => "create"
  | read => "read"
  | update => "update"
  | delete => "delete"
  | sort => "sort"
  | filter => "filter"
  | group => "group"
  | arrayLookup => "arrayLookup"

instance : Flag Capability where
  count := 8
  index
    | create => 0 | read => 1 | update => 2 | delete => 3
    | sort => 4 | filter => 5 | group => 6 | arrayLookup => 7
  member
    | 0 => create | 1 => read | 2 => update | 3 => delete
    | 4 => sort | 5 => filter | 6 => group | 7 => arrayLookup
  member_index a := by cases a <;> rfl
  index_member := by decide

theorem name_injective {a b : Capability} (h : a.name = b.name) : a = b := by
  cases a <;> cases b <;> first | rfl | exact absurd h (by decide)

end Capability

abbrev Capabilities := FlagSet Capability

inductive Operator where
  | eq | ne | lt | le | gt | ge | and | or | not | isIn | startsWith | endsWith | contains
deriving DecidableEq, Repr

namespace Operator

def name : Operator → String
  | eq => "eq"
  | ne => "ne"
  | lt => "lt"
  | le => "le"
  | gt => "gt"
  | ge => "ge"
  | and => "and"
  | or => "or"
  | not => "not"
  | isIn => "in"
  | startsWith => "startsWith"
  | endsWith => "endsWith"
  | contains => "contains"

instance : Flag Operator where
  count := 13
  index
    | eq => 0 | ne => 1 | lt => 2 | le => 3 | gt => 4 | ge => 5 | and => 6 | or => 7 | not => 8
    | isIn => 9 | startsWith => 10 | endsWith => 11 | contains => 12
  member
    | 0 => eq | 1 => ne | 2 => lt | 3 => le | 4 => gt | 5 => ge | 6 => and | 7 => or | 8 => not
    | 9 => isIn | 10 => startsWith | 11 => endsWith | 12 => contains
  member_index a := by cases a <;> rfl
  index_member := by decide

theorem name_injective {a b : Operator} (h : a.name = b.name) : a = b := by
  cases a <;> cases b <;> first | rfl | exact absurd h (by decide)

/-- A document names an operator up to surrounding blanks and ASCII letter case. -/
def ofName? (s : String) : Option Operator :=
  (Flag.all Operator).find? fun o => Text.lower o.name == Text.lower (Text.trim s)

end Operator

abbrev Operators := FlagSet Operator

end Delegation
