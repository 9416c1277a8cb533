import Delegation.Binary64.Shortest
import Delegation.Json
import Delegation.Text.Hex

namespace Delegation.Json

/-- Quotes, backslashes and the controls below U+0020 are escaped, and nothing else. -/
def escapeChar (c : Char) : List Char :=
  if c = '"' then ['\\', '"']
  else if c = '\\' then ['\\', '\\']
  else if c = '\n' then ['\\', 'n']
  else if c = '\r' then ['\\', 'r']
  else if c = '\t' then ['\\', 't']
  else if c.toNat = 8 then ['\\', 'b']
  else if c.toNat = 12 then ['\\', 'f']
  else if c.toNat < 32 then
    ['\\', 'u', '0', '0', Text.hexDigit (c.toNat / 16), Text.hexDigit (c.toNat % 16)]
  else [c]

def quote (s : String) : List Char := '"' :: s.toList.flatMap escapeChar ++ ['"']

def writeNumber : Number → List Char
  | .whole n => (if n < 0 then ['-'] else []) ++ Decimal.digits n.natAbs
  | .real x => x.json

def writeBool (b : Bool) : List Char := if b then "true".toList else "false".toList

mutual
def writeCompact : Json → List Char
  | null => "null".toList
  | bool b => writeBool b
  | number n => writeNumber n
  | string s => quote s
  | array [] => "[]".toList
  | array (j :: r) => '[' :: writeCompact j ++ writeItems r
  | object [] => "\x7b\x7d".toList
  | object ((k, j) :: r) => '\x7b' :: quote k ++ ':' :: writeCompact j ++ writeMembers r

def writeItems : List Json → List Char
  | [] => [']']
  | j :: r => ',' :: writeCompact j ++ writeItems r

def writeMembers : List (String × Json) → List Char
  | [] => ['\x7d']
  | (k, j) :: r => ',' :: quote k ++ ':' :: writeCompact j ++ writeMembers r
end

def compact (j : Json) : String := String.ofList j.writeCompact

def newline (depth : Nat) : List Char := '\n' :: List.replicate (2 * depth) ' '

mutual
/-- One item or member a line, two blanks deeper than its container; empty containers stay closed.
-/
def writeIndented (depth : Nat) : Json → List Char
  | null => "null".toList
  | bool b => writeBool b
  | number n => writeNumber n
  | string s => quote s
  | array [] => "[]".toList
  | array (j :: r) =>
    '[' :: newline (depth + 1) ++ writeIndented (depth + 1) j ++ indentedItems depth r
  | object [] => "\x7b\x7d".toList
  | object ((k, j) :: r) =>
    '\x7b' :: newline (depth + 1) ++ quote k ++ ':' :: ' ' :: writeIndented (depth + 1) j ++
      indentedMembers depth r

def indentedItems (depth : Nat) : List Json → List Char
  | [] => newline depth ++ [']']
  | j :: r => ',' :: newline (depth + 1) ++ writeIndented (depth + 1) j ++ indentedItems depth r

def indentedMembers (depth : Nat) : List (String × Json) → List Char
  | [] => newline depth ++ ['\x7d']
  | (k, j) :: r =>
    ',' :: newline (depth + 1) ++ quote k ++ ':' :: ' ' :: writeIndented (depth + 1) j ++
      indentedMembers depth r
end

def indented (j : Json) : String := String.ofList (j.writeIndented 0)

end Delegation.Json
