import Delegation.Json.Writer
import Delegation.Text.Quoted

namespace Delegation.Json

inductive Mismatch where
  | type (found : Json) (expected : String)
  | value (found : Json) (expected : String)
  | length (found : Nat) (expected : String)
  | variant (name : String) (allowed : List String)
  | missing (field : String)
  | duplicate (field : String)
  | content (message : String)

abbrev Reading := Except Mismatch

def ticked (s : String) : String := "\x60" ++ s ++ "\x60"

/-- What a value is called in a message: containers by their kind, the rest with their content. -/
def describe : Json → String
  | null => "null"
  | bool b => "boolean " ++ ticked (String.ofList (writeBool b))
  | number (.whole n) => "integer " ++ ticked (String.ofList (writeNumber (.whole n)))
  | number (.real x) => "floating point " ++ ticked (String.ofList (writeNumber (.real x)))
  | string s => "string " ++ Text.quoted s
  | array _ => "sequence"
  | object _ => "map"

def countText (n : Nat) : String := String.ofList (Decimal.digits n)

/-- `1 element`, `2 elements`. -/
def elements (n : Nat) : String := countText n ++ if n = 1 then " element" else " elements"

def alternatives : List String → String
  | [] => "there are no variants"
  | [a] => "expected " ++ ticked a
  | [a, b] => "expected " ++ ticked a ++ " or " ++ ticked b
  | l => "expected one of " ++ String.intercalate ", " (l.map ticked)

def Mismatch.message : Mismatch → String
  | type found expected => "invalid type: " ++ found.describe ++ ", expected " ++ expected
  | value found expected => "invalid value: " ++ found.describe ++ ", expected " ++ expected
  | length found expected => "invalid length " ++ countText found ++ ", expected " ++ expected
  | variant name allowed => "unknown variant " ++ ticked name ++ ", " ++ alternatives allowed
  | missing field => "missing field " ++ ticked field
  | duplicate field => "duplicate field " ++ ticked field
  | content message => message

def asString : Json → Reading String
  | string s => .ok s
  | j => .error (.type j "a string")

def asBool : Json → Reading Bool
  | bool b => .ok b
  | j => .error (.type j "a boolean")

def asList (read : Json → Reading α) : Json → Reading (List α)
  | array items => items.mapM read
  | j => .error (.type j "a sequence")

def asOption (read : Json → Reading α) : Json → Reading (Option α)
  | null => .ok none
  | j => (read j).map some

def asStrings : Json → Reading (List String) := asList asString

/-- A whole number stands for the nearest binary64 number. -/
def asBinary64 : Json → Reading Binary64
  | number (.real x) => .ok x
  | number (.whole n) => .ok ((Binary64.ofRatio? (decide (n < 0)) n.natAbs 1).getD default)
  | j => .error (.type j "f64")

def named (all : List α) (name : α → String) (s : String) : Reading α :=
  match all.find? fun a => name a == s with
  | some a => .ok a
  | none => .error (.variant s (all.map name))

/-- A name of one of `all`, or an object whose one member has such a name and the value `null`. -/
def asVariant (all : List α) (name : α → String) : Json → Reading α
  | string s => named all name s
  | object [(k, v)] => do
    let a ← named all name k
    match v with
    | null => return a
    | v => throw (.type v "unit")
  | object ms => .error (.value (object ms) "map with a single key")
  | j => .error (.type j "string or map")

end Delegation.Json
