import Delegation.Expr
import Delegation.Json.Reader
import Delegation.Json.Record

namespace Delegation.Expr

inductive Tag where
  | firstName | dottedName | strLit | numLit | boolLit | call | binaryOp
deriving DecidableEq

namespace Tag

def name : Tag → String
  | firstName => "firstName"
  | dottedName => "dottedName"
  | strLit => "strLit"
  | numLit => "numLit"
  | boolLit => "boolLit"
  | call => "call"
  | binaryOp => "binaryOp"

def all : List Tag := [firstName, dottedName, strLit, numLit, boolLit, call, binaryOp]

def title : Tag → String
  | firstName => "struct variant Node::FirstName"
  | dottedName => "struct variant Node::DottedName"
  | strLit => "struct variant Node::StrLit"
  | numLit => "struct variant Node::NumLit"
  | boolLit => "struct variant Node::BoolLit"
  | call => "struct CallNode"
  | binaryOp => "struct variant Node::BinaryOp"

/-- A tag outside of any other expression is a name; below one it may be a number. -/
def ofJson (inside : Bool) : Json → Json.Reading Tag
  | .string s => Json.named all name s
  | .number (.whole n) =>
    if inside ∧ 0 ≤ n then
      match all[n.toNat]? with
      | some t => .ok t
      | none => .error (.value (.number (.whole n)) "variant index 0 <= i < 7")
    else .error (.type (.number (.whole n)) "variant identifier")
  | j => .error (.type j "variant identifier")

end Tag

/-- A field's value, and its readings as an expression and as a list of them. -/
structure Child where
  json : Json
  expr : Unit → Json.Reading Expr
  list : Unit → Json.Reading (List Expr)

namespace Child

def string (c : Child) : Json.Reading String := Json.asString c.json

end Child

/-- The fields of a call, here and wherever a call stands without its tag. -/
def callRecord : Json.Record Child Call :=
  Call.mk <$> .field "name" Child.string <*> .optional "args" [] (·.list ())

def tagRecord : Tag → Json.Record Child Expr
  | .firstName => name <$> .field "name" Child.string
  | .dottedName => member <$> .field "left" (·.expr ()) <*> .field "right" Child.string
  | .strLit => text <$> .field "value" Child.string
  | .numLit => number <$> .field "value" (Json.asBinary64 ·.json)
  | .boolLit => truth <$> .field "value" (Json.asBool ·.json)
  | .call => Call.toExpr <$> callRecord
  | .binaryOp =>
    binary <$> .field "op" Child.string <*> .field "left" (·.expr ()) <*> .field "right" (·.expr ())

/-- The tag among the members, which must be there once. -/
def tagOfMembers (inside : Bool) (members : List (String × Json)) : Json.Reading Tag :=
  match members.filter fun m => m.1 == "kind" with
  | [] => .error (.missing "kind")
  | (_, j) :: r => do
    let t ← Tag.ofJson inside j
    if r.isEmpty then return t else throw (.duplicate "kind")

mutual
def ofJson (inside : Bool) : Json → Json.Reading Expr
  | .object members => do
    let t ← tagOfMembers inside members
    (tagRecord t).ofMembers ((childMembers members).filter fun m => m.1 != "kind")
  | .array [] => .error (.missing "kind")
  | .array (j :: items) => do
    let t ← Tag.ofJson inside j
    (tagRecord t).ofItems t.title true (childItems items)
  | j => .error (.type j "internally tagged enum Node")

def listOfJson (inside : Bool) : Json → Json.Reading (List Expr)
  | .array items => itemsOfJson inside items
  | j => .error (.type j "a sequence")

def itemsOfJson (inside : Bool) : List Json → Json.Reading (List Expr)
  | [] => .ok []
  | j :: r => do
    let e ← ofJson inside j
    return e :: (← itemsOfJson inside r)

/-- The members of an expression; what stands in them is below that expression. -/
def childMembers : List (String × Json) → List (String × Child)
  | [] => []
  | (k, j) :: r => (k, ⟨j, fun _ => ofJson true j, fun _ => listOfJson true j⟩) :: childMembers r

def childItems : List Json → List Child
  | [] => []
  | j :: r => ⟨j, fun _ => ofJson true j, fun _ => listOfJson true j⟩ :: childItems r
end

mutual
def toJson : Expr → Json
  | name n => .object [("kind", .string "firstName"), ("name", .string n)]
  | member l r => .object [("kind", .string "dottedName"), ("left", toJson l), ("right", .string r)]
  | text s => .object [("kind", .string "strLit"), ("value", .string s)]
  | number x => .object [("kind", .string "numLit"), ("value", .number (.real x))]
  | truth b => .object [("kind", .string "boolLit"), ("value", .bool b)]
  | call f args =>
    .object [("kind", .string "call"), ("name", .string f), ("args", .array (argsJson args))]
  | binary op l r =>
    .object [("kind", .string "binaryOp"), ("op", .string op), ("left", toJson l),
      ("right", toJson r)]

def argsJson : List Expr → List Json
  | [] => []
  | e :: r => toJson e :: argsJson r
end

def ofText? (s : String) : Option Expr :=
  (Json.parseRaw? s .whole).bind fun j => (ofJson false j).toOption

end Expr

namespace Call

def toJson (c : Call) : Json :=
  .object [("name", .string c.function), ("args", .array (Expr.argsJson c.args))]

/-- What stands in the members of a call without tag is not below an expression. -/
def child (j : Json) : Expr.Child :=
  ⟨j, fun _ => Expr.ofJson false j, fun _ => Expr.listOfJson false j⟩

def ofJson : Json → Json.Reading Call
  | .object members => Expr.callRecord.ofMembers (members.map fun m => (m.1, child m.2))
  | .array items => Expr.callRecord.ofItems "struct CallNode" false (items.map child)
  | j => .error (.type j "struct CallNode")

def interest : Json.Interest := .members [("name", .whole), ("args", .whole)]

/-- The call that a text spells; members that are no field need only follow the grammar. -/
def ofText? (s : String) : Option Call :=
  (Json.parseRaw? s interest).bind fun j => (ofJson j).toOption

end Call

end Delegation
