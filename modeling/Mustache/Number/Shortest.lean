import Mustache.Number.Double

/-!
# Shortest decimals

The fewest decimal digits that are read back as a given double and, among those, the digits nearest
to it. The grids of one, two and more digits are tried in turn; of a grid only the two neighbours
of the number matter.
-/

namespace Mustache

/-- Digits and a power of ten by which the integer they spell is multiplied. -/
structure Decimal where
  digits : List Char
  exponent : Int
deriving DecidableEq, Repr

/-- The power of ten of the first digit. -/
def Decimal.leading (d : Decimal) : Int := d.digits.length - 1 + d.exponent

/-- Where a number goes that lies midway between two decimals. -/
inductive Tie where
  | even
  | up
deriving DecidableEq, Repr

namespace Double

def digitCount (n : Nat) : Nat := (Nat.toDigits 10 n).length

/-- The power of ten of the first digit of a positive fraction. -/
def leadingPower (num den : Nat) : Int :=
  if den ≤ num then digitCount (num / den) - 1 else -(digitCount ((den + num - 1) / num - 1) : Int)

/-- Whether an integer times a power of ten is read back as a number: whether it lies between the
midpoints to both neighbours, which themselves count when the significand is even. The neighbour
below is half as far when the significand is the least of 53 bits. -/
def readsBack (x : Double) (integer : Nat) (power : Int) : Bool :=
  let below := if x.significand = Nat.pow 2 52 ∧ x.exponent > minExponent then 1 else 2
  let unit := x.exponent - 2
  let decimal := integer * Nat.pow 10 power.toNat * Nat.pow 2 (-unit).toNat
  let scale := Nat.pow 2 unit.toNat * Nat.pow 10 (-power).toNat
  let low := (4 * x.significand - below) * scale
  let high := (4 * x.significand + 2) * scale
  if x.significand % 2 = 0 then low ≤ decimal && decimal ≤ high else low < decimal && decimal < high

/-- The nearer of the two neighbours of a number on the multiples of a power of ten, among those
that are read back as the number. -/
def nearestOnGrid? (tie : Tie) (x : Double) (power : Int) : Option Nat :=
  let (num, den) := x.toRatio
  let num := num * Nat.pow 10 (-power).toNat
  let den := den * Nat.pow 10 power.toNat
  let floor := num / den
  let left := 2 * (num % den)
  let upper := left > den || (left == den && (tie == .up || floor % 2 == 1))
  match x.readsBack floor power, left != 0 && x.readsBack (floor + 1) power with
  | true, true => some (if upper then floor + 1 else floor)
  | true, false => some floor
  | false, true => some (floor + 1)
  | false, false => none

/-- Digits without the zeros at their end. -/
def trimZeros (integer : Nat) (power : Int) : Decimal :=
  let digits := ((Nat.toDigits 10 integer).reverse.dropWhile (· == '0')).reverse
  { digits, exponent := power + (digitCount integer - digits.length) }

/-- Tries the grids of ever more digits, whose last digit has ever smaller powers of ten. -/
def shortestFrom (tie : Tie) (x : Double) : Nat → Int → Option Decimal
  | 0, _ => none
  | more + 1, power =>
    match x.nearestOnGrid? tie power with
    | some integer => some (trimZeros integer power)
    | none => shortestFrom tie x more (power - 1)

/-- The shortest digits of the magnitude of a number. Seventeen are always enough. -/
def shortest (tie : Tie) (x : Double) : Decimal :=
  if x.significand = 0 then { digits := ['0'], exponent := 0 }
  else (shortestFrom tie x 17 (leadingPower x.toRatio.1 x.toRatio.2)).getD { digits := ['0'], exponent := 0 }

end Double
end Mustache
