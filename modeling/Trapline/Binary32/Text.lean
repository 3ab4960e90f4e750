import Trapline.Binary32.Shortest

/-!
# Binary32 numbers as text

A finite number is written with the fewest digits that read back. From `10 ^ (-4)` up to `10 ^ 16`
it is written positionally with at least one digit behind the point, and outside that range as one
digit, the other digits behind a point if there are any, and a power of ten.
-/

namespace Trapline
namespace Binary32

/-- The choices left open by the digits of a number. -/
structure Layout where
  /-- The least exponent of a leading digit that is written positionally. -/
  leastPositional : Int
  /-- The least exponent from which powers of ten are written again. -/
  leastPower : Int
  /-- The mark of a power of ten. -/
  mark : Char

/-- Positional from `10 ^ (-4)` up to `10 ^ 16`, powers marked by a small letter. -/
def layout : Layout := ⟨-4, 16, 'e'⟩

/-- The digits of a number without trailing zeros, and the exponent of the leading one. -/
def significant (d : Decimal) : List Char × Int :=
  let digits := Nat.toDigits 10 d.digits
  ((digits.reverse.dropWhile (· == '0')).reverse, digits.length - 1 + d.exponent)

/-- A digit list, zero when it is empty. -/
def orZero (digits : List Char) : List Char :=
  if digits.isEmpty then ['0'] else digits

/-- A numeral without a power of ten whose leading digit has the given exponent. -/
def positional (sign : Option Char) (digits : List Char) (exponent : Int) : Numeral :=
  match exponent with
  | .ofNat n =>
      let padded := digits ++ List.replicate (n + 1 - digits.length) '0'
      { sign, whole := padded.take (n + 1), fraction := orZero (padded.drop (n + 1)), power := none }
  | .negSucc n =>
      { sign, whole := ['0'], fraction := List.replicate n '0' ++ digits, power := none }

/-- A numeral with one digit before the point and the given exponent as its power of ten. -/
def withPower (sign : Option Char) (digits : List Char) (exponent : Int) : Numeral where
  sign := sign
  whole := digits.take 1
  fraction := digits.drop 1
  power := some {
    mark := layout.mark
    sign := if exponent < 0 then some '-' else none
    digits := Nat.toDigits 10 exponent.natAbs }

/-- The sign as it is written: only a minus. -/
def writtenSign (x : Binary32) : Option Char :=
  if x.isNegative then some '-' else none

/-- A finite number as a numeral. -/
def toNumeral (x : Binary32) : Numeral :=
  if x.magnitude = 0 then
    { sign := x.writtenSign, whole := ['0'], fraction := ['0'], power := none }
  else
    let (digits, exponent) := significant (shortest x.magnitude)
    if layout.leastPositional ≤ exponent && exponent < layout.leastPower then
      positional x.writtenSign digits exponent
    else
      withPower x.writtenSign digits exponent

/-- The number as text. -/
def text (x : Binary32) : String :=
  if x.isNaN then "NaN"
  else if x.isInfinite then (if x.isNegative then "-inf" else "inf")
  else String.ofList x.toNumeral.text

end Binary32
end Trapline
