import Delegation.Binary64
import Delegation.Decimal

namespace Delegation.Binary64

/-- The value `significand * 10 ^ exponent`. -/
structure Digits where
  significand : Nat
  exponent : Int
deriving DecidableEq

inductive Tie where
  | up | even
deriving DecidableEq

/-- The `e` with `10 ^ (e - 1) ≤ num / den < 10 ^ e`, for a ratio above zero. -/
def decimalExponent (num den : Nat) : Int :=
  if den ≤ num then (Decimal.length (num / den) : Int)
  else 1 - (Decimal.length ((den + num - 1) / num - 1) : Int)

def readsBack (x : Binary64) (d : Digits) : Bool :=
  ofDecimal? x.negative d.significand d.exponent == some x

/-- The decimal of at most `n` digits that reads back as `x`, if one of the two neighbours does. -/
def withDigits? (tie : Tie) (x : Binary64) (n : Nat) : Option Digits :=
  let e := decimalExponent x.units unitsPerOne - n
  let num := x.units * Nat.pow 10 (-e).toNat
  let den := unitsPerOne * Nat.pow 10 e.toNat
  let below : Digits := ⟨num / den, e⟩
  let above : Digits := ⟨num / den + 1, e⟩
  let twice := 2 * (num % den)
  let upper :=
    den < twice || (twice == den && (tie == .up || below.significand % 2 == 1))
  match readsBack x below, readsBack x above with
  | true, true => some (if upper then above else below)
  | true, false => some below
  | false, true => some above
  | false, false => none

def Digits.strip (d : Digits) : Digits :=
  if h : d.significand ≠ 0 ∧ d.significand % 10 = 0 then strip ⟨d.significand / 10, d.exponent + 1⟩
  else d
termination_by d.significand
decreasing_by omega

/-- The shortest decimal that reads back as the magnitude of `x`: the first count of digits at which
one of its two neighbours on the decimal grid reads back, and of two such the nearer. -/
def shortest (tie : Tie) (x : Binary64) : Digits :=
  if x.rank = 0 then ⟨0, 0⟩
  else (((List.range 17).findSome? fun n => withDigits? tie x (n + 1)).getD ⟨0, 0⟩).strip

def sign (x : Binary64) : List Char := if x.negative then ['-'] else []

/-- Positional digits: no exponent ever, and a point only before a fraction. -/
def positional (d : Digits) : List Char :=
  let ds := Decimal.digits d.significand
  if 0 ≤ d.exponent then ds ++ List.replicate d.exponent.toNat '0'
  else
    let places := (-d.exponent).toNat
    let padded := List.replicate (places + 1 - ds.length) '0' ++ ds
    padded.take (padded.length - places) ++ '.' :: padded.drop (padded.length - places)

/-- Positional digits with a point always, or a power of ten with its sign once the point would be
far away: from `10 ^ 16` upwards and below `10 ^ -5`. -/
def scientific (d : Digits) : List Char :=
  let ds := Decimal.digits d.significand
  let e := (ds.length : Int) + d.exponent
  if d.significand = 0 then "0.0".toList
  else if 0 ≤ d.exponent ∧ e ≤ 16 then positional d ++ ".0".toList
  else if -5 < e ∧ e ≤ 16 then positional d
  else
    ds.take 1 ++ (if ds.length = 1 then [] else '.' :: ds.drop 1) ++
      'e' :: (if e - 1 < 0 then '-' else '+') :: Decimal.digits (e - 1).natAbs

/-- A number in a formula's text: shortest digits, positional, and equally near decimals go up. -/
def plain (x : Binary64) : List Char := x.sign ++ positional (x.shortest .up)

def json (x : Binary64) : List Char := x.sign ++ scientific (x.shortest .even)

end Delegation.Binary64
