import LiveFacts.Decimal.Binary64

/-!
# Shortest decimals

The decimal that a floating-point number is written with has the fewest digits among those that
read back as the number; of those with the fewest digits it is the nearest to the number, and
of two equally near the even one.
-/

namespace LiveFacts

structure Decimal where
  digits : Nat
  exponent : Int
  deriving DecidableEq, Repr

namespace Decimal

def compareScaled (a : Nat) (i : Int) (b : Nat) (j : Int) : Ordering :=
  compare (a * Nat.pow 10 i.toNat * Nat.pow 2 (-j).toNat)
    (b * Nat.pow 2 j.toNat * Nat.pow 10 (-i).toNat)

/-- Whether a decimal lies among the numbers that round to the magnitude at a place. Bounds are
in quarters of the unit; below a power of two the neighbour is half as far away. -/
def readsBack (place : Nat) (decimal : Decimal) : Bool :=
  let mantissa := Binary64.mantissa place
  let quarter := Binary64.unitExponent place - 2
  let narrow := mantissa == Binary64.perExponent && place > Binary64.perExponent
  let low := 4 * mantissa - if narrow then 1 else 2
  let closed := mantissa % 2 == 0
  let above := compareScaled decimal.digits decimal.exponent low quarter
  let below := compareScaled decimal.digits decimal.exponent (4 * mantissa + 2) quarter
  (above == .gt || closed && above == .eq) && (below == .lt || closed && below == .eq)

/-- The decimal with an exponent that a magnitude is written with, if one reads back. Only the
two next to the magnitude come into question. -/
def onGrid? (place : Nat) (exponent : Int) : Option Decimal :=
  let (num, den) := Binary64.ratio place
  let num := num * Nat.pow 10 (-exponent).toNat
  let den := den * Nat.pow 10 exponent.toNat
  let below : Decimal := ⟨num / den, exponent⟩
  let above : Decimal := ⟨num / den + 1, exponent⟩
  match readsBack place below, readsBack place above with
  | true, true => some ⟨Binary64.roundQuotient num den, exponent⟩
  | true, false => some below
  | false, true => some above
  | false, false => none

def search (place : Nat) (exponent : Int) : Nat → Decimal
  | 0 => ⟨0, 0⟩
  | grids + 1 => (onGrid? place exponent).getD (search place (exponent - 1) grids)

/-- A power of ten above the magnitude at a place, by at most two digits. -/
def exponentAbove (place : Nat) : Int :=
  let magnitude := ((Binary64.mantissa place).log2 : Int) + Binary64.unitExponent place
  (magnitude * 30103).fdiv 100000 + 2

/-- The decimal that a magnitude is written with. Seventeen digits are always enough, and the
search starts with up to two leading zeros. -/
def shortest (place : Nat) : Decimal :=
  if place = 0 then ⟨0, 0⟩ else search place (exponentAbove place) 20

example : shortest 0x3FB999999999999A = ⟨1, -1⟩ := by decide +kernel
example : shortest 1 = ⟨5, -324⟩ := by decide +kernel
example : shortest 0x44B52D02C7E14AF6 = ⟨1, 23⟩ := by decide +kernel
example : shortest 0x3E60000000000000 = ⟨29802322387695312, -24⟩ := by decide +kernel

end Decimal

end LiveFacts
