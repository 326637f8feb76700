import Mustache.Text
import Mustache.Number.Shortest

/-!
# Numbers

The numbers of a model: integers of 64 bits, and doubles for every other literal. How a literal is
read, and the two ways in which numbers are written.
-/

namespace Mustache

inductive Number where
  /-- An integer that fits in 64 bits, with or without a sign. -/
  | integer (value : Int)
  | double (value : Double)
deriving DecidableEq, Repr

namespace Number

/-! ## Literals -/

/-- The parts of a literal: its digits before and after the point, and its exponent. -/
structure Literal where
  negative : Bool
  whole : List Char
  fraction : List Char := []
  exponent : Int := 0
  isWhole : Bool

/-- Appends digits to an integer as long as it stays below 2⁶⁴; the digits that are left. -/
def takeDigits (value : Nat) : List Char → Nat × List Char
  | [] => (value, [])
  | c :: r =>
    let longer := 10 * value + (c.toNat - '0'.toNat)
    if longer < Nat.pow 2 64 then takeDigits longer r else (value, c :: r)

/-- A literal of an integer that fits in 64 bits is that integer, but for a negative zero. Any other
is a double: the digits that fit in 64 bits, rounded, times the power of ten that is left. Too great
a literal is none. -/
def ofLiteral (l : Literal) : Option Number :=
  let (whole, dropped) := takeDigits 0 l.whole
  let fits := dropped.isEmpty && (!l.negative || (whole ≠ 0 && whole ≤ Nat.pow 2 63))
  if l.isWhole && fits then some (.integer (if l.negative then -whole else whole))
  else do
    let (significand, ignored) := takeDigits whole l.fraction
    let kept := l.fraction.length - ignored.length
    let rounded ← Double.ofRatio l.negative significand 1
    some (.double (← rounded.timesPower (dropped.length - kept + l.exponent)))

/-! ## Writing -/

/-- The choices of a way to write doubles: where a tie between shortest digits goes, what follows a
number without a fraction, and from which power of ten of the first digit to which no exponent is
written. -/
structure Format where
  tie : Tie
  wholeSuffix : String
  positional : Option (Int × Int)

/-- Without an exponent and without a needless point. -/
def Format.plain : Format := ⟨.up, "", none⟩

/-- As a number of a JSON text: with a point or an exponent, the latter always with its sign. -/
def Format.json : Format := ⟨.even, ".0", some (-5, 15)⟩

/-- Whether a number whose first digit has a given power of ten is written without an exponent. -/
def Format.isPositional (f : Format) (leading : Int) : Bool :=
  match f.positional with
  | none => true
  | some (least, greatest) => least ≤ leading && leading ≤ greatest

def positionalText (f : Format) (d : Decimal) : String :=
  let digits := String.ofList d.digits
  if d.exponent ≥ 0 then digits ++ String.ofList (List.replicate d.exponent.toNat '0') ++ f.wholeSuffix
  else if d.leading ≥ 0 then
    String.ofList (d.digits.take (d.leading.toNat + 1)) ++ "." ++
      String.ofList (d.digits.drop (d.leading.toNat + 1))
  else "0." ++ String.ofList (List.replicate (d.leading.natAbs - 1) '0') ++ digits

def exponentText (d : Decimal) : String :=
  let sign := if d.leading < 0 then "-" else "+"
  let fraction := d.digits.drop 1
  String.ofList (d.digits.take 1) ++ (if fraction.isEmpty then "" else "." ++ String.ofList fraction) ++
    "e" ++ sign ++ toString d.leading.natAbs

def doubleText (f : Format) (x : Double) : String :=
  let d := x.shortest f.tie
  (if x.negative then "-" else "") ++ if f.isPositional d.leading then positionalText f d else exponentText d

/-- The text of a number; integers are written in decimal in every format. -/
def text (f : Format) : Number → String
  | .integer value => toString value
  | .double value => doubleText f value

end Number
end Mustache
