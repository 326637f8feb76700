/-!
# Doubles

The finite binary floating-point numbers of 64 bits: a sign and a significand below 2⁵³, scaled by
a power of two. Rounding is exact arithmetic on natural numbers; a half goes to the even neighbour.
-/

namespace Mustache

/-- Stands for the significand times two to the exponent. Rounded numbers have a significand of 53
bits, or the least exponent. -/
structure Double where
  negative : Bool
  significand : Nat
  exponent : Int
deriving DecidableEq, Repr

namespace Double

/-- The exponents of the smallest and of the greatest numbers. -/
def minExponent : Int := -1074
def maxExponent : Int := 971

/-- The integer nearest to a quotient; a half goes to the even one. -/
def roundEven (num den : Nat) : Nat :=
  let floor := num / den
  let left := 2 * (num % den)
  if left < den ∨ (left = den ∧ floor % 2 = 0) then floor else floor + 1

/-- A fraction over a power of two: the numerator and the denominator. -/
def scaleDown (num den : Nat) (exponent : Int) : Nat × Nat :=
  -- Not `^`, whose instance would depend on what is imported.
  (num * Nat.pow 2 (-exponent).toNat, den * Nat.pow 2 exponent.toNat)

/-- The exponent at which a positive fraction has a significand of 53 bits, or the least one. -/
def exponentOf (num den : Nat) : Int :=
  let guess : Int := (Nat.log2 num : Int) - (Nat.log2 den : Int) - 52
  let (n, d) := scaleDown num den guess
  max minExponent (if n < d * Nat.pow 2 52 then guess - 1 else guess)

/-- The number nearest to a fraction; there is none beyond the greatest. -/
def ofRatio (negative : Bool) (num den : Nat) : Option Double :=
  if num = 0 then some ⟨negative, 0, minExponent⟩
  else
    let exponent := exponentOf num den
    let (n, d) := scaleDown num den exponent
    let rounded := roundEven n d
    let (significand, exponent) :=
      if rounded = Nat.pow 2 53 then (Nat.pow 2 52, exponent + 1) else (rounded, exponent)
    if exponent > maxExponent then none else some ⟨negative, significand, exponent⟩

def toRatio (x : Double) : Nat × Nat :=
  (x.significand * Nat.pow 2 x.exponent.toNat, Nat.pow 2 (-x.exponent).toNat)

/-- The magnitude of a product, rounded, with the sign of the first factor. -/
def times (x y : Double) : Option Double :=
  ofRatio x.negative (x.toRatio.1 * y.toRatio.1) (x.toRatio.2 * y.toRatio.2)

/-- The magnitude of a quotient, rounded, with the sign of the dividend. -/
def dividedBy (x y : Double) : Option Double :=
  ofRatio x.negative (x.toRatio.1 * y.toRatio.2) (x.toRatio.2 * y.toRatio.1)

def powerOfTen (n : Nat) : Option Double := ofRatio false (Nat.pow 10 n) 1

def maxPower : Nat := 308

/-- A number over the greatest power of ten, so many times. -/
def overMaxPower : Nat → Double → Option Double
  | 0, x => some x
  | n + 1, x =>
    if x.significand = 0 then some x
    else do overMaxPower n (← x.dividedBy (← powerOfTen maxPower))

/-- A number over a power of ten: over the greatest power as often as it takes, then over the rest. -/
def overPower (x : Double) (n : Nat) : Option Double :=
  let whole := (n - 1) / maxPower
  do (← x.overMaxPower whole).dividedBy (← powerOfTen (n - whole * maxPower))

/-- A number times a power of ten, which is rounded before the product is; none beyond the greatest. -/
def timesPower (x : Double) (exponent : Int) : Option Double :=
  if exponent < 0 then x.overPower exponent.natAbs
  else if exponent.toNat ≤ maxPower then do x.times (← powerOfTen exponent.toNat)
  else if x.significand = 0 then some x
  else none

end Double
end Mustache
