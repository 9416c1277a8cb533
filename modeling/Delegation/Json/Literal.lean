import Delegation.Binary64
import Delegation.Decimal
import Delegation.Json

namespace Delegation.Json

/-- The parts of a number literal, as written. -/
structure Literal where
  negative : Bool
  whole : List Char
  fraction : List Char
  exponent : Option (Bool × List Char)
deriving DecidableEq

namespace Literal

/-- The significand with as many more digits as fit 64 bits, and the digits left over. -/
def gather (significand : Nat) : List Char → Nat × List Char
  | [] => (significand, [])
  | c :: cs =>
    if 10 * significand + Decimal.digitValue c < Nat.pow 2 64 then
      gather (10 * significand + Decimal.digitValue c) cs
    else (significand, c :: cs)

def power? (n : Nat) : Option Binary64 := Binary64.ofDecimal? false 1 n

/-- `x / 10 ^ n`, one rounded division by a rounded power. -/
def shrink (x : Binary64) (n : Nat) : Binary64 := ((power? n).bind x.div?).getD (.zero x.negative)

def scale? (negative : Bool) (significand : Nat) (exponent : Int) : Option Binary64 :=
  if significand = 0 then some (.zero negative)
  else
    (Binary64.ofRatio? negative significand 1).bind fun x =>
      if 308 < exponent then none
      else if 0 ≤ exponent then (power? exponent.toNat).bind x.mul?
      else if -308 ≤ exponent then some (shrink x (-exponent).toNat)
      else if -616 ≤ exponent then some (shrink (shrink x 308) (-exponent - 308).toNat)
      else some (.zero negative)

/-- Without fraction and exponent a literal is exact when it fits 64 bits, but `-0` is the negative
zero. Every other one is its significand as binary64, scaled by a power of ten that is itself
binary64. -/
def number? (l : Literal) : Option Number :=
  let (head, dropped) := gather 0 l.whole
  if l.fraction = [] ∧ l.exponent = none ∧ dropped = [] ∧
      (if l.negative then 0 < head ∧ head ≤ Nat.pow 2 63 else True) then
    some (.whole (if l.negative then -(head : Int) else head))
  else
    let (significand, ignored) := gather head l.fraction
    let written : Int := match l.exponent with
      | none => 0
      | some (negative, ds) => if negative then -(Decimal.value ds : Int) else Decimal.value ds
    let moved : Int := (dropped.length : Int) - ((l.fraction.length - ignored.length : Nat) : Int)
    (scale? l.negative significand (moved + written)).map .real

end Literal

end Delegation.Json
