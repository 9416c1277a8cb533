import Delegation.Index
import Delegation.Sha256

namespace Delegation.Index

def rowJson (e : Path × Grant) : Json := .object (("path", e.1.toJson) :: e.2.members)

/-- Rows in path order; the views are left out, since the rows determine them. -/
def toJson (i : Index) : Json :=
  .object [("tableCapabilities", Capabilities.toJson i.table),
    ("columns", .array (i.rows.entries.map rowJson))]

/-- The text that is digested. -/
def canonicalText (i : Index) : String := i.toJson.compact

def digest (i : Index) : String := "ci1_" ++ Sha256.ofText i.canonicalText

end Delegation.Index
