import Delegation.Expr
import Delegation.Schema

namespace Delegation

structure Environment where
  /-- Evaluating the expression, or a part of it, is asynchronous. -/
  isAsync : Expr → Bool
  /-- The column that the expression stands for in a row of the call's source. -/
  column? : Expr → Option Path
  /-- The text that the expression is known to have. -/
  constant? : Expr → Option String
  /-- The table that a source argument names. -/
  source? : Expr → Option String

mutual
/-- A call of one of these functions stands in the expression. -/
def Expr.callsAny (functions : List String) : Expr → Bool
  | .member left _ => left.callsAny functions
  | .call f args => functions.contains f || anyCallsAny functions args
  | .binary _ left right => left.callsAny functions || right.callsAny functions
  | .name _ | .text _ | .number _ | .truth _ => false

def anyCallsAny (functions : List String) : List Expr → Bool
  | [] => false
  | e :: r => e.callsAny functions || anyCallsAny functions r
end

def Expr.isCallOf (functions : List String) : Expr → Bool
  | .call f _ => functions.contains f
  | _ => false

theorem anyCallsAny_eq_any (functions : List String) (es : List Expr) :
    anyCallsAny functions es = es.any (Expr.callsAny functions) := by
  induction es with
  | nil => rfl
  | cons e r ih => rw [anyCallsAny, List.any_cons, ih]

theorem Expr.callsAny_eq (functions : List String) (e : Expr) :
    e.callsAny functions = (e.isCallOf functions || e.children.any (callsAny functions)) := by
  cases e with
  | call f args =>
    rw [callsAny, anyCallsAny_eq_any]
    rfl
  | _ => simp [callsAny, isCallOf, children]

/-- One table with its schema, the functions that are asynchronous, and named constants. -/
structure TableScope where
  table : String
  schema : Schema
  asyncFunctions : List String
  constants : SortedMap String String

namespace TableScope

def column? (s : TableScope) : Expr → Option Path
  | .name n => if (s.schema.column? n).isSome then some (.column n) else none
  | _ => none

/-- A constant is a bare name or a call without arguments. -/
def constant? (s : TableScope) : Expr → Option String
  | .name n => s.constants.get? n
  | .call f [] => s.constants.get? f
  | _ => none

def source? (s : TableScope) : Expr → Option String
  | .name n => if n = s.table then some n else none
  | _ => none

def environment (s : TableScope) : Environment where
  isAsync := Expr.callsAny s.asyncFunctions
  column? := s.column?
  constant? := s.constant?
  source? := s.source?

end TableScope

/-- What is known of single expressions, each given by its text. -/
structure Facts where
  asynchronous : List String
  columns : List (String × Path)
  constants : List (String × String)
  sources : List (String × String)

def Facts.none : Facts := ⟨[], [], [], []⟩

/-- The facts go before what the environment says; a part of an expression that is said to be
asynchronous need not be so. -/
def Environment.withFacts (env : Environment) (f : Facts) : Environment where
  isAsync e := f.asynchronous.contains e.toText || env.isAsync e
  column? e := (f.columns.lookup e.toText).or (env.column? e)
  constant? e := (f.constants.lookup e.toText).or (env.constant? e)
  source? e := (f.sources.lookup e.toText).or (env.source? e)

end Delegation
