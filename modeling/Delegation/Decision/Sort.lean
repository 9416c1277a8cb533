import Delegation.Decision

namespace Delegation

/-- A call that the decision cannot even look at. -/
inductive Misuse where
  | arity (function : String) (count least most : Nat)
  /-- The call has no argument at a position that is asked for. -/
  | argument (count position : Nat)
deriving DecidableEq

def Misuse.message : Misuse → String
  | arity f n least most =>
    f ++ " called with " ++ Json.countText n ++ " arguments, expected " ++ Json.countText least ++
      "..=" ++ Json.countText most
  | argument n i =>
    "index out of bounds: the len is " ++ Json.countText n ++ " but the index is " ++
      Json.countText i

namespace Decision

/-- Ascending order is never refused, descending order only by columns that sort ascending alone. -/
def orderSupported (view : SortView) (column : Path) : Direction → Bool
  | .ascending => true
  | .descending => !view.ascendingOnly column

/-- Why an order argument is refused, if it is. A literal or a bare name must denote a supported
order; a member or a call may also stay unknown when the column sorts both ways. -/
def orderRefusal? (env : Environment) (view : SortView) (column : Path) (order : Expr) :
    Option Status :=
  if env.isAsync order then some .asyncSortOrder
  else
    match order with
    | .name _ | .text _ =>
      match Direction.ofExpr? env order with
      | none => some .unsupportedSortOrder
      | some o =>
        if orderSupported view column o then none else some .sortOrderNotSupportedByColumn
    | .member _ _ | .call _ _ =>
      if ((Direction.ofExpr? env order).any (orderSupported view column)) ||
          (orderSupported view column .ascending && orderSupported view column .descending) then none
      else some .sortOrderNotSupportedByColumn
    | .number _ | .truth _ | .binary _ _ _ => some .unsupportedSortOrder

def sortColumn? (env : Environment) (value : Expr) : Option Path :=
  match value with
  | .name _ => if env.isAsync value then none else env.column? value
  | _ => none

def sortAt (cx : Context) (function : String) (view : SortView) (value : Expr)
    (order : Option Expr) : Decision :=
  match sortColumn? cx.environment value with
  | none => refuse .unsupportedSortArg function value true
  | some column =>
    if view.supports column .sort then
      match order with
      | none => accept
      | some order =>
        match orderRefusal? cx.environment view column order with
        | none => accept
        | some status => refuse status function order true
    else refuse .noDelSupportByColumn function value true

/-- The arguments are looked at when a step needs them: the source first, then the column. -/
def sort (cx : Context) (function : String) (required : Capabilities) (call : Call) :
    Except Misuse Decision :=
  match call.args with
  | [] => .error (.argument 0 0)
  | source :: rest =>
    match cx.resolve source .sort required with
    | .unavailable bound => .ok (refuse .noCapabilitySource function source bound)
    | .resolved p =>
      match rest with
      | [] => .error (.argument 1 1)
      | value :: orders => .ok (sortAt cx function p.sorting value orders.head?)

end Decision

end Delegation
