namespace Delegation

/-- A sign and the rank of a finite magnitude; zero keeps its sign. Rank `r` below `2 ^ 52` is `r`
in the least unit, and every later run of `2 ^ 52` ranks doubles the step. -/
structure Binary64 where
  negative : Bool
  rank : Nat
  finite : rank < 2047 * Nat.pow 2 52
deriving DecidableEq

namespace Binary64

def zero (negative : Bool) : Binary64 := ⟨negative, 0, by decide⟩

instance : Inhabited Binary64 := ⟨zero false⟩

/-- The step between neighbours is `2 ^ scale` least units. -/
def scale (x : Binary64) : Nat := x.rank / Nat.pow 2 52 - 1

def significand (x : Binary64) : Nat := x.rank - x.scale * Nat.pow 2 52

/-- The magnitude in least units; a least unit is `2 ^ -1074`. -/
def units (x : Binary64) : Nat := x.significand * Nat.pow 2 x.scale

def unitsPerOne : Nat := Nat.pow 2 1074

/-- The quotient rounded to the nearest whole number, a half to the even neighbour. -/
def roundDiv (num den : Nat) : Nat :=
  let q := num / den
  let twice := 2 * (num % den)
  if twice < den then q else if den < twice then q + 1 else q + q % 2

/-- The rank nearest to `num / den`. The step is chosen so that the rounded significand has 53 bits,
unless the number is subnormal; a significand rounded up to `2 ^ 53` is the first rank of the next
step. -/
def rankOfRatio (num den : Nat) : Nat :=
  let units := num * unitsPerOne
  let scale := Nat.log2 (units / den) - 52
  scale * Nat.pow 2 52 + roundDiv units (den * Nat.pow 2 scale)

def ofRatio? (negative : Bool) (num den : Nat) : Option Binary64 :=
  let rank := rankOfRatio num den
  if h : rank < 2047 * Nat.pow 2 52 then some ⟨negative, rank, h⟩ else none

def ofDecimal? (negative : Bool) (significand : Nat) (exponent : Int) : Option Binary64 :=
  ofRatio? negative (significand * Nat.pow 10 exponent.toNat) (Nat.pow 10 (-exponent).toNat)

def mul? (x y : Binary64) : Option Binary64 :=
  ofRatio? (x.negative != y.negative) (x.units * y.units) (unitsPerOne * unitsPerOne)

def div? (x y : Binary64) : Option Binary64 :=
  ofRatio? (x.negative != y.negative) x.units y.units

/-- Numbers compare equal when they are the same, and the two zeros do. -/
def same (x y : Binary64) : Bool := x == y || (x.rank == 0 && y.rank == 0)

end Binary64

end Delegation
