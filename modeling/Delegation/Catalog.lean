import Delegation.Decision.Sort

namespace Delegation

/-- How calls of a function are decided, once their count of arguments is right. -/
abbrev Check := Context → String → Capabilities → Call → Except Misuse Decision

structure Function where
  name : String
  least : Nat
  most : Nat
  /-- What the source must allow besides the operation itself. -/
  required : Capabilities
  check : Check

namespace Function

def acceptsArity (f : Function) (n : Nat) : Bool := f.least ≤ n && n ≤ f.most

def sort : Function := ⟨"Sort", 2, 3, .singleton .read, Decision.sort⟩

end Function

structure Catalog where
  functions : List Function

namespace Catalog

def empty : Catalog := ⟨[]⟩

def putList (f : Function) : List Function → List Function
  | [] => [f]
  | g :: r => if g.name = f.name then f :: r else g :: putList f r

/-- A function; one of the same name is replaced in place. -/
def register (c : Catalog) (f : Function) : Catalog := ⟨putList f c.functions⟩

def builtins : Catalog := empty.register .sort

def find? (c : Catalog) (name : String) : Option Function := c.functions.find? (·.name == name)

def names (c : Catalog) : List String := c.functions.map Function.name

/-- Functions outside the catalog are never delegable, and nothing is reported about them. -/
def decide (c : Catalog) (cx : Context) (call : Call) : Except Misuse Decision :=
  match c.find? call.function with
  | none => .ok ⟨false, []⟩
  | some f =>
    if f.acceptsArity call.args.length then f.check cx f.name f.required call
    else .error (.arity f.name call.args.length f.least f.most)

def decideInto (c : Catalog) (sink : List Event) (cx : Context) (call : Call) :
    Except Misuse (Bool × List Event) := do
  let d ← c.decide cx call
  return (d.delegable, sink ++ d.events)

def decideAll (c : Catalog) (sink : List Event) :
    List (Context × Call) → Except Misuse (List Bool × List Event)
  | [] => .ok ([], sink)
  | (cx, call) :: r => do
    let (answer, sink) ← c.decideInto sink cx call
    let (answers, sink) ← decideAll c sink r
    return (answer :: answers, sink)

end Catalog

end Delegation
