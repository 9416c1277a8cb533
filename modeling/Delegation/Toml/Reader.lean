import Delegation.Toml.Scalar

namespace Delegation.Toml

def maxDepth : Nat := 79

def isKeyChar (c : Char) : Bool := c.isAlphanum || c == '-' || c == '_'

def simpleKey? (cs : List Char) : Option (String × List Char) :=
  match cs with
  | '"' :: r => (basicText? (r.length + 1) r).map fun (s, r) => (String.ofList s, r)
  | '\'' :: r => (literalText? r).map fun (s, r) => (String.ofList s, r)
  | _ =>
    let ks := cs.takeWhile isKeyChar
    if ks = [] then none else some (String.ofList ks, cs.dropWhile isKeyChar)

/-- The parts of a key between points, with blanks around each; `fuel` bounds their count. -/
def keyParts? : Nat → Scan (List String)
  | 0, _ => none
  | fuel + 1, cs => do
    let (k, r) ← simpleKey? (skipBlanks cs)
    match skipBlanks r with
    | '.' :: r => do
      let (ks, r) ← keyParts? fuel r
      return (k :: ks, r)
    | r => return ([k], r)

def key? (cs : List Char) : Option ((List String × String) × List Char) := do
  let (ks, r) ← keyParts? maxDepth cs
  let last ← ks.getLast?
  return ((ks.dropLast, last), r)

/-- Blanks, line breaks and comments; a comment without a line break after it stays. -/
def skipLines : Nat → List Char → List Char
  | 0, cs => cs
  | fuel + 1, cs =>
    let r := skipBlanks cs
    match newline? (comment r) with
    | some r => skipLines fuel r
    | none => r

/-- The items of an array after the bracket, of which the last may be followed by a comma. -/
def arrayItems? (value? : Scan Value) : Nat → Scan (List Value)
  | 0, _ => none
  | fuel + 1, cs =>
    match skipLines cs.length cs with
    | ']' :: r => some ([], r)
    | cs => do
      let (v, r) ← value? cs
      match skipLines r.length r with
      | ',' :: r => do
        let (vs, r) ← arrayItems? value? fuel r
        return (v :: vs, r)
      | ']' :: r => return ([v], r)
      | _ => none

def pair? (value? : Scan Value) : Scan ((List String × String) × Value) := fun cs => do
  let (k, r) ← key? cs
  let r ← expect? '=' r
  let (v, r) ← value? (skipBlanks r)
  return ((k, v), r)

/-- The pairs of an inline table, on one line and without a comma at the end. -/
def pairs? (value? : Scan Value) : Nat → Scan (List ((List String × String) × Value))
  | 0, _ => none
  | fuel + 1, cs => do
    let (p, r) ← pair? value? cs
    match skipBlanks r with
    | ',' :: r => do
      let (ps, r) ← pairs? value? fuel r
      return (p :: ps, r)
    | '\x7d' :: r => return ([p], r)
    | _ => none

def inlineTable? (value? : Scan Value) (cs : List Char) : Option (Value × List Char) :=
  match skipBlanks cs with
  | '\x7d' :: r => some (.table .inline [], r)
  | cs => do
    let (ps, r) ← pairs? value? (cs.length + 1) cs
    let es ← inlineEntries ps
    return (.table .inline es, r)

/-- A value with at most `depth` arrays and inline tables nested in it. -/
def value? (depth : Nat) (cs : List Char) : Option (Value × List Char) :=
  match cs with
  | '[' :: r =>
    match depth with
    | 0 => none
    | d + 1 => (arrayItems? (value? d) (r.length + 1) r).map fun (vs, r) => (.array vs, r)
  | '\x7b' :: r =>
    match depth with
    | 0 => none
    | d + 1 => inlineTable? (value? d) r
  | 't' :: 'r' :: 'u' :: 'e' :: r => some (.boolean true, r)
  | 'f' :: 'a' :: 'l' :: 's' :: 'e' :: r => some (.boolean false, r)
  | '"' :: _ => (text? cs).map fun (s, r) => (.text s, r)
  | '\'' :: _ => (text? cs).map fun (s, r) => (.text s, r)
  | _ => number? cs

def lineEnd? (cs : List Char) : Option (List Char) :=
  match comment (skipBlanks cs) with
  | [] => some []
  | r => newline? r

def line? (d : Document) (cs : List Char) : Option (Document × List Char) :=
  match skipBlanks cs with
  | '[' :: '[' :: r => do
    let ((path, k), r) ← key? r
    let r ← expect? ']' r
    let r ← expect? ']' r
    return (← d.openTables? path k, ← lineEnd? r)
  | '[' :: r => do
    let ((path, k), r) ← key? r
    let r ← expect? ']' r
    return (← d.openTable? path k, ← lineEnd? r)
  | r =>
    match lineEnd? r with
    | some r => some (d, r)
    | none => do
      let (((path, k), v), r) ← pair? (value? maxDepth) r
      return (← d.put? path k v, ← lineEnd? r)

def lines? : Nat → Document → List Char → Option Document
  | 0, d, cs => if cs.isEmpty then some d else none
  | fuel + 1, d, cs =>
    if cs.isEmpty then some d
    else do
      let (d, r) ← line? d cs
      lines? fuel d r

/-- The entries of a document; a byte order mark in front is passed over. Arrays and inline tables
nest fewer than 80 deep, and a dotted key has fewer than 80 parts. -/
def parse? (text : String) : Option Entries :=
  let cs := match text.toList with
    | c :: r => if c = Char.ofNat 0xFEFF then r else c :: r
    | [] => []
  (lines? cs.length .empty cs).map Document.root

end Delegation.Toml
