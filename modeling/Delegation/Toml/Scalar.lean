import Delegation.Binary64
import Delegation.Decimal
import Delegation.Text.Hex
import Delegation.Toml

namespace Delegation.Toml

abbrev Scan (α : Type) := List Char → Option (α × List Char)

def isBlank (c : Char) : Bool := c == ' ' || c == '\t'

def skipBlanks (cs : List Char) : List Char := cs.dropWhile isBlank

/-- No control character but the tab may stand in a comment or a text. -/
def isPlain (c : Char) : Bool := c == '\t' || (32 ≤ c.toNat && c.toNat != 127)

def newline? : List Char → Option (List Char)
  | '\n' :: r => some r
  | '\r' :: '\n' :: r => some r
  | _ => none

def comment (cs : List Char) : List Char :=
  match cs with
  | '#' :: r => r.dropWhile isPlain
  | _ => cs

def hexValue? (c : Char) : Option Nat :=
  if '0' ≤ c ∧ c ≤ '9' then some (c.toNat - 48)
  else if 'a' ≤ c ∧ c ≤ 'f' then some (c.toNat - 87)
  else if 'A' ≤ c ∧ c ≤ 'F' then some (c.toNat - 55)
  else none

def codePoint? (width : Nat) (cs : List Char) : Option (Char × List Char) := do
  let ds := cs.take width
  let vs ← ds.mapM hexValue?
  let n := vs.foldl (fun n d => 16 * n + d) 0
  if vs.length = width ∧ n.isValidChar then some (Char.ofNat n, cs.drop width) else none

def escape? : List Char → Option (Char × List Char)
  | 'b' :: r => some (Char.ofNat 8, r)
  | 'f' :: r => some (Char.ofNat 12, r)
  | 'n' :: r => some ('\n', r)
  | 'r' :: r => some ('\r', r)
  | 't' :: r => some ('\t', r)
  | '"' :: r => some ('"', r)
  | '\\' :: r => some ('\\', r)
  | 'u' :: r => codePoint? 4 r
  | 'U' :: r => codePoint? 8 r
  | _ => none

/-- A text in double quotes after the first; `fuel` bounds its length. -/
def basicText? : Nat → Scan (List Char)
  | 0, _ => none
  | _ + 1, '"' :: r => some ([], r)
  | fuel + 1, '\\' :: r => do
    let (c, r) ← escape? r
    let (cs, r) ← basicText? fuel r
    return (c :: cs, r)
  | fuel + 1, c :: r =>
    if isPlain c then do
      let (cs, r) ← basicText? fuel r
      return (c :: cs, r)
    else none
  | _ + 1, [] => none

def literalText? : Scan (List Char)
  | '\'' :: r => some ([], r)
  | c :: r =>
    if isPlain c then do
      let (cs, r) ← literalText? r
      return (c :: cs, r)
    else none
  | [] => none

/-- The quotes that close a text of several lines, with the up to two before them that belong to the
text. -/
def closing? (quote : Char) (cs : List Char) : Option (List Char × List Char) :=
  let n := min 5 (cs.takeWhile (· == quote)).length
  if 3 ≤ n then some (List.replicate (n - 3) quote, cs.drop n) else none

def skipBlankLines (cs : List Char) : List Char := cs.dropWhile fun c => isBlank c || c == '\n'

/-- What follows a backslash at the end of a line: the text goes on at the next character that is no
blank and no line break. -/
def lineContinuation? (cs : List Char) : Option (List Char) :=
  (newline? (skipBlanks cs)).map skipBlankLines

def basicLines? : Nat → Scan (List Char)
  | 0, _ => none
  | fuel + 1, cs =>
    match closing? '"' cs with
    | some end? => some end?
    | none =>
      match cs with
      | '\\' :: r =>
        match lineContinuation? r with
        | some r => basicLines? fuel r
        | none => do
          let (c, r) ← escape? r
          let (cs, r) ← basicLines? fuel r
          return (c :: cs, r)
      | c :: r =>
        match newline? (c :: r) with
        | some r => do
          let (cs, r) ← basicLines? fuel r
          return ('\n' :: cs, r)
        | none =>
          if isPlain c then do
            let (cs, r) ← basicLines? fuel r
            return (c :: cs, r)
          else none
      | [] => none

def literalLines? : Nat → Scan (List Char)
  | 0, _ => none
  | fuel + 1, cs =>
    match closing? '\'' cs with
    | some end? => some end?
    | none =>
      match cs with
      | c :: r =>
        match newline? (c :: r) with
        | some r => do
          let (cs, r) ← literalLines? fuel r
          return ('\n' :: cs, r)
        | none =>
          if isPlain c then do
            let (cs, r) ← literalLines? fuel r
            return (c :: cs, r)
          else none
      | [] => none

/-- A line break right after the opening quotes does not count. -/
def dropNewline (cs : List Char) : List Char := (newline? cs).getD cs

def text? (cs : List Char) : Option (String × List Char) :=
  (match cs with
    | '"' :: '"' :: '"' :: r => basicLines? (r.length + 1) (dropNewline r)
    | '"' :: r => basicText? (r.length + 1) r
    | '\'' :: '\'' :: '\'' :: r => literalLines? (r.length + 1) (dropNewline r)
    | '\'' :: r => literalText? r
    | _ => none).map fun (s, r) => (String.ofList s, r)

/-- Digits, each of which may follow one underscore; the first may not. -/
def digitRun? (isDigit : Char → Bool) : Scan (List Char)
  | [] => none
  | c :: r => if isDigit c then some (go c r) else none
where
  go (first : Char) : List Char → List Char × List Char
    | '_' :: c :: r =>
      if isDigit c then
        let (ds, rest) := go c r
        (first :: ds, rest)
      else ([first], '_' :: c :: r)
    | c :: r =>
      if isDigit c then
        let (ds, rest) := go c r
        (first :: ds, rest)
      else ([first], c :: r)
    | [] => ([first], [])

def sign : List Char → Bool × List Char
  | '+' :: r => (false, r)
  | '-' :: r => (true, r)
  | r => (false, r)

/-- Zero alone, or digits of which the first is not zero. -/
def wholeDigits? : Scan (List Char)
  | '0' :: r => some (['0'], r)
  | r => digitRun? Decimal.isDigit r

def fits (n : Int) : Bool := -9223372036854775808 ≤ n && n ≤ 9223372036854775807

/-- Digits of a base behind its letter, as a number of at most 63 bits. -/
def based? (base : Nat) (cs : List Char) : Option (Value × List Char) := do
  let (ds, r) ← digitRun? (fun c => (hexValue? c).any (· < base)) cs
  let n := ds.foldl (fun n c => base * n + (hexValue? c).getD 0) 0
  if fits n then some (.integer n, r) else none

def integer? (cs : List Char) : Option (Value × List Char) :=
  match cs with
  | '0' :: 'x' :: r => based? 16 r
  | '0' :: 'o' :: r => based? 8 r
  | '0' :: 'b' :: r => based? 2 r
  | _ => do
    let (negative, r) := sign cs
    let (ds, r) ← wholeDigits? r
    let n : Int := Decimal.value ds
    let n := if negative then -n else n
    if fits n then some (.integer n, r) else none

def fraction? : Scan (List Char)
  | '.' :: r => digitRun? Decimal.isDigit r
  | _ => none

def power? : Scan Int
  | c :: r =>
    if c = 'e' ∨ c = 'E' then do
      let (negative, r) := sign r
      let (ds, r) ← digitRun? Decimal.isDigit r
      let n : Int := Decimal.value ds
      return (if negative then -n else n, r)
    else none
  | [] => none

/-- Whether `significand * 10 ^ exponent` rounds to a finite number; far from the bound the count of
digits tells. -/
def isFinite (significand : Nat) (exponent : Int) : Bool :=
  let size := (Decimal.length significand : Int) + exponent
  significand == 0 || size < 300 ||
    (size < 320 && (Binary64.ofDecimal? false significand exponent).isSome)

def floatBody? (cs : List Char) : Option ((List Char × Int) × List Char) := do
  let (whole, r) ← wholeDigits? cs
  match fraction? r with
  | some (ds, r) =>
    match power? r with
    | some (e, r) => some ((whole ++ ds, e - ds.length), r)
    | none => some ((whole ++ ds, -(ds.length : Int)), r)
  | none => do
    let (e, r) ← power? r
    return ((whole, e), r)

/-- A number with a fraction or a power of ten, or one of the words. Too large a number is refused
above zero. -/
def float? (cs : List Char) : Option (Value × List Char) :=
  let (negative, r) := sign cs
  match floatBody? r with
  | some ((ds, e), rest) =>
    if negative ∨ isFinite (Decimal.value ds) e then
      some (.float (String.ofList (cs.take (cs.length - rest.length))), rest)
    else none
  | none =>
    match r with
    | 'i' :: 'n' :: 'f' :: rest => some (.float "inf", rest)
    | 'n' :: 'a' :: 'n' :: rest => some (.float "nan", rest)
    | _ => none

def field? (width least most : Nat) (cs : List Char) : Option (Nat × List Char) :=
  let ds := cs.take width
  let n := Decimal.value ds
  if ds.length = width ∧ ds.all Decimal.isDigit ∧ least ≤ n ∧ n ≤ most then some (n, cs.drop width)
  else none

def expect? (c : Char) : List Char → Option (List Char)
  | d :: r => if d = c then some r else none
  | [] => none

def daysIn (year month : Nat) : Nat :=
  if month = 2 then
    if year % 4 = 0 ∧ (year % 100 ≠ 0 ∨ year % 400 = 0) then 29 else 28
  else if month = 4 ∨ month = 6 ∨ month = 9 ∨ month = 11 then 30
  else 31

def date? (cs : List Char) : Option (List Char) := do
  let (year, r) ← field? 4 0 9999 cs
  let r ← expect? '-' r
  let (month, r) ← field? 2 1 12 r
  let r ← expect? '-' r
  let (_, r) ← field? 2 1 (daysIn year month) r
  return r

def time? (cs : List Char) : Option (List Char) := do
  let (_, r) ← field? 2 0 23 cs
  let r ← expect? ':' r
  let (_, r) ← field? 2 0 59 r
  let r ← expect? ':' r
  let (_, r) ← field? 2 0 60 r
  match r with
  | '.' :: c :: r => if Decimal.isDigit c then return r.dropWhile Decimal.isDigit else none
  | '.' :: [] => none
  | r => return r

def offset (cs : List Char) : List Char :=
  let numeric (r : List Char) : Option (List Char) := do
    let (_, r) ← field? 2 0 23 r
    let r ← expect? ':' r
    let (_, r) ← field? 2 0 59 r
    return r
  match cs with
  | 'Z' :: r => r
  | 'z' :: r => r
  | '+' :: r => (numeric r).getD cs
  | '-' :: r => (numeric r).getD cs
  | _ => cs

def timeOfDay (cs : List Char) : List Char :=
  match cs with
  | c :: r =>
    if c = 'T' ∨ c = 't' ∨ c = ' ' then ((time? r).map offset).getD cs else cs
  | [] => []

def moment? (cs : List Char) : Option (Value × List Char) := do
  let rest ← ((date? cs).map timeOfDay).or (time? cs)
  return (.moment (String.ofList (cs.take (cs.length - rest.length))), rest)

/-- A date or time first, then a number with a point or power, then a whole number. -/
def number? (cs : List Char) : Option (Value × List Char) :=
  ((moment? cs).or (float? cs)).or (integer? cs)

end Delegation.Toml
