/-!
# Finite binary64 numbers

The magnitudes of 64-bit floating-point numbers, in increasing order, are numbered from zero.
Numbering them keeps one representation for each value, and rounding to the nearest is a
division of natural numbers.
-/

namespace LiveFacts

/-- A finite 64-bit floating-point number: its sign, and the place of its magnitude among the
magnitudes of all such numbers. -/
structure Binary64 where
  negative : Bool
  place : Nat
  deriving DecidableEq, Repr

namespace Binary64

/-- Magnitudes with a common exponent. The first two exponents stand for the same unit, the
smallest one. -/
def perExponent : Nat := Nat.pow 2 52

def placeLimit : Nat := 2047 * perExponent

def mantissa (place : Nat) : Nat :=
  if place < perExponent then place else perExponent + place % perExponent

def unitExponent (place : Nat) : Int :=
  if place < perExponent then -1074 else (place / perExponent : Nat) - 1075

def scale (number : Nat) (exponent : Int) : Nat × Nat :=
  (number * Nat.pow 2 exponent.toNat, Nat.pow 2 (-exponent).toNat)

def ratio (place : Nat) : Nat × Nat :=
  scale (mantissa place) (unitExponent place)

/-- The nearest natural number to a quotient, the even one of two. -/
def roundQuotient (num den : Nat) : Nat :=
  let quotient := num / den
  let twice := 2 * (num % den)
  if twice > den || (twice == den && quotient % 2 == 1) then quotient + 1 else quotient

/-- The binary exponent of a quotient: the greatest power of two that is not above it. -/
def quotientExponent (num den : Nat) : Int :=
  let guess : Int := (num.log2 : Int) - den.log2
  if num * Nat.pow 2 (-guess).toNat < den * Nat.pow 2 guess.toNat then guess - 1 else guess

/-- The place of the magnitude nearest to a quotient, if it is finite. -/
def nearest? (num den : Nat) : Option Nat :=
  let unit := max (quotientExponent num den - 52) (-1074)
  let count := roundQuotient (num * Nat.pow 2 (-unit).toNat) (den * Nat.pow 2 unit.toNat)
  let place := if num = 0 then 0 else (unit + 1074).toNat * perExponent + count
  if place < placeLimit then some place else none

def mul? (a b : Nat) : Option Nat :=
  let (n, d) := ratio a
  let (n', d') := ratio b
  nearest? (n * n') (d * d')

def div? (a b : Nat) : Option Nat :=
  let (n, d) := ratio a
  let (n', d') := ratio b
  nearest? (n * d') (d * n')

def sameValue (a b : Binary64) : Bool :=
  a.place == b.place && (a.place == 0 || a.negative == b.negative)

example : nearest? 1 3 = some 0x3FD5555555555555 := by decide +kernel
example : nearest? (2 ^ 53 + 1) 1 = nearest? (2 ^ 53) 1 := by decide +kernel
example : nearest? 0 1 = some 0 := by decide +kernel
example : nearest? (2 ^ 1024) 1 = none := by decide +kernel
example : nearest? 1 (2 ^ 1074) = some 1 := by decide +kernel

end Binary64

end LiveFacts
