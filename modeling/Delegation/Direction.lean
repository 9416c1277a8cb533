import Delegation.Environment
import Delegation.Json.Mismatch
import Delegation.Text.Letters

namespace Delegation

inductive Direction where
  | ascending | descending
deriving DecidableEq, Repr

namespace Direction

def name : Direction → String
  | ascending => "ascending"
  | descending => "descending"

def ofJson : Json → Json.Reading Direction := Json.asVariant [ascending, descending] name

/-- The word or its short form, in any ASCII letter case and without blanks. -/
def ofToken? (s : String) : Option Direction :=
  let t := Text.lower s
  if t = "ascending" ∨ t = "asc" then some ascending
  else if t = "descending" ∨ t = "desc" then some descending
  else none

def enumeration : String := "SortOrder"

def ofConstant? (env : Environment) (e : Expr) : Option Direction := (env.constant? e).bind ofToken?

/-- The order that an expression denotes as far as can be told without evaluating it. -/
def ofExpr? (env : Environment) (e : Expr) : Option Direction :=
  match e with
  | .text s => ofToken? s
  | .name n => (ofToken? n).or (ofConstant? env e)
  | .member (.name n) m => (if n = enumeration then ofToken? m else none).or (ofConstant? env e)
  | .member _ _ => ofConstant? env e
  | .call _ _ => ofConstant? env e
  | .number _ | .truth _ | .binary _ _ _ => none

end Direction

end Delegation
