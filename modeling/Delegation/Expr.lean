import Delegation.Binary64.Shortest

namespace Delegation

inductive Expr where
  /-- A bare name: a column, a table, a variable or a member of an enumeration. -/
  | name (name : String)
  | member (left : Expr) (right : String)
  | text (value : String)
  /-- A finite number. -/
  | number (value : Binary64)
  | truth (value : Bool)
  | call (function : String) (args : List Expr)
  | binary (op : String) (left right : Expr)

instance : Inhabited Expr := ⟨.name ""⟩

structure Call where
  function : String
  args : List Expr

namespace Expr

/-- The expressions directly below, left to right. -/
def children : Expr → List Expr
  | member left _ => [left]
  | call _ args => args
  | binary _ left right => [left, right]
  | name _ | text _ | number _ | truth _ => []

mutual
/-- What passes to every expression from its children holds of all expressions. -/
@[elab_as_elim]
theorem children_induction {motive : Expr → Prop}
    (step : ∀ e : Expr, (∀ c ∈ e.children, motive c) → motive e) : ∀ e, motive e
  | name _ | text _ | number _ | truth _ => step _ nofun
  | member left _ => step _ (List.forall_mem_singleton.2 (children_induction step left))
  | call _ args => step _ (forall_children_induction step args)
  | binary _ left right =>
    step _ (List.forall_mem_cons.2 ⟨children_induction step left,
      List.forall_mem_singleton.2 (children_induction step right)⟩)

theorem forall_children_induction {motive : Expr → Prop}
    (step : ∀ e : Expr, (∀ c ∈ e.children, motive c) → motive e) :
    ∀ es : List Expr, ∀ e ∈ es, motive e
  | [] => nofun
  | e :: r => List.forall_mem_cons.2 ⟨children_induction step e, forall_children_induction step r⟩
end

def quoteChar (c : Char) : List Char := if c = '"' then ['"', '"'] else [c]

mutual
def render : Expr → List Char
  | name n => n.toList
  | member left right => render left ++ '.' :: right.toList
  | text s => '"' :: s.toList.flatMap quoteChar ++ ['"']
  | number x => x.plain
  | truth b => if b then "true".toList else "false".toList
  | call f args => f.toList ++ '(' :: renderArgs args ++ [')']
  | binary op left right => render left ++ ' ' :: op.toList ++ ' ' :: render right

def renderArgs : List Expr → List Char
  | [] => []
  | [a] => render a
  | a :: b :: r => render a ++ ',' :: ' ' :: renderArgs (b :: r)
end

def toText (e : Expr) : String := String.ofList e.render

mutual
/-- Structural equality, the two zeros being equal numbers. -/
def same : Expr → Expr → Bool
  | name n, name m => n == m
  | member l r, member l' r' => same l l' && r == r'
  | text s, text t => s == t
  | number x, number y => x.same y
  | truth b, truth c => b == c
  | call f args, call g args' => f == g && sameArgs args args'
  | binary o l r, binary o' l' r' => o == o' && same l l' && same r r'
  | _, _ => false

def sameArgs : List Expr → List Expr → Bool
  | [], [] => true
  | a :: r, b :: s => same a b && sameArgs r s
  | _, _ => false
end

end Expr

namespace Call

def toExpr (c : Call) : Expr := .call c.function c.args

def toText (c : Call) : String := c.toExpr.toText

end Call

end Delegation
