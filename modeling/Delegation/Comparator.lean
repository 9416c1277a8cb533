import Delegation.Schema
import Delegation.Json.Writer

namespace Delegation

inductive Comparator where
  | boolean
  /-- Numbers, times and colours. -/
  | ordinal
  | textual
deriving DecidableEq, Repr

namespace Comparator

def code : Comparator → Nat
  | boolean => 0
  | ordinal => 1
  | textual => 2

def ofKind : ScalarType → Comparator
  | .boolean => boolean
  | .number | .decimal | .currency | .date | .time | .dateTime | .color => ordinal
  | .string | .guid | .hyperlink | .image | .penImage | .media | .blob => textual

/-- The top-level columns that are compared: scalars that are no option set. -/
def compared (columns : List Column) : List (String × Comparator) :=
  columns.filterMap fun c =>
    match c with
    | .scalar n k false => some (n, ofKind k)
    | _ => none

def entryText (e : String × Comparator) : List Char :=
  Json.quote e.1 ++ ':' :: Decimal.digits e.2.code

def joinEntries : List (String × Comparator) → List Char
  | [] => []
  | [e] => entryText e
  | e :: f :: r => entryText e ++ ',' :: joinEntries (f :: r)

/-- An object text of column names and comparator codes, in declaration order. -/
def mappingText (s : Schema) : String :=
  String.ofList ('\x7b' :: joinEntries (compared s.columns) ++ ['\x7d'])

end Comparator

end Delegation
