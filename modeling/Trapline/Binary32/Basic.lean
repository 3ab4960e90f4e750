/-!
# Binary32 numbers

A floating point number of 32 bits is kept as its bit pattern: a sign bit, eight bits of exponent
and 23 bits of fraction. The patterns without the sign bit are the magnitudes. In the order of the
natural numbers they are the finite magnitudes from zero up, then infinity, then those that are not
a number.

Every finite magnitude is a whole multiple of the least positive one, `2 ^ (-149)`, and the module
counts in these units. Rounding takes a quotient of naturals, counted in units, to the nearest
magnitude; a half goes to the even neighbour, and what lies beyond the greatest finite magnitude
goes to infinity. Addition is exact in units and rounds once.
-/

namespace Trapline

/-- A floating point number of 32 bits, as its bit pattern. Two of them are equal when their
patterns are, so the two zeros differ and a pattern that is not a number equals itself. -/
structure Binary32 where
  bits : UInt32
deriving DecidableEq, Repr, Inhabited

namespace Binary32

/-- Number of bit patterns with equal sign and exponent. -/
def binade : Nat := Nat.pow 2 23

/-- Number of bit patterns with equal sign. -/
def halfRange : Nat := Nat.pow 2 31

/-- The magnitude of infinity, the first one above the finite magnitudes. -/
def infinityMagnitude : Nat := 255 * binade

/-- The bit pattern without its sign. -/
def magnitude (x : Binary32) : Nat :=
  x.bits.toNat % halfRange

/-- Whether the sign bit is set. -/
def isNegative (x : Binary32) : Bool :=
  halfRange ≤ x.bits.toNat

/-- The number with the given sign and magnitude. -/
def ofMagnitude (negative : Bool) (magnitude : Nat) : Binary32 where
  bits := UInt32.ofNat (if negative then halfRange + magnitude else magnitude)

/-- The number is zero or another finite one. -/
def isFinite (x : Binary32) : Bool :=
  x.magnitude < infinityMagnitude

/-- The number is one of the two infinities. -/
def isInfinite (x : Binary32) : Bool :=
  x.magnitude == infinityMagnitude

/-- The pattern is not a number. -/
def isNaN (x : Binary32) : Bool :=
  infinityMagnitude < x.magnitude

/-- Positive zero. -/
def zero : Binary32 := ofMagnitude false 0

/-- The pattern that arithmetic gives where there is no number to give. -/
def nan : Binary32 := ofMagnitude false (infinityMagnitude + binade / 2)

/-- A finite magnitude counted in units of `2 ^ (-149)`. -/
def units (magnitude : Nat) : Nat :=
  if magnitude < binade then
    magnitude
  else
    (binade + magnitude % binade) * Nat.pow 2 (magnitude / binade - 1)

/-- The natural number nearest to a quotient, the even one of two that are equally near. -/
def roundQuotient (num den : Nat) : Nat :=
  let quotient := num / den
  let remainder := num % den
  if 2 * remainder < den then quotient
  else if den < 2 * remainder then quotient + 1
  else quotient + quotient % 2

/-- The magnitude nearest to `num / den` units. The shift leaves 24 binary digits before the point,
or all of them when there are fewer; a quotient that rounds up to the next power of two carries
into the exponent bits. -/
def nearest (num den : Nat) : Nat :=
  let shift := Nat.log2 (num / den) - 23
  min (shift * binade + roundQuotient num (den * Nat.pow 2 shift)) infinityMagnitude

/-- A finite number as a whole number of units. -/
def signedUnits (x : Binary32) : Int :=
  if x.isNegative then -(units x.magnitude : Int) else units x.magnitude

/-- The number nearest to a whole number of units; of nothing the given zero. -/
def ofSignedUnits (negativeZero : Bool) (n : Int) : Binary32 :=
  ofMagnitude (if n = 0 then negativeZero else n < 0) (nearest n.natAbs 1)

/-- Addition. Opposite infinities have no sum; a sum of nothing is negative only when both of its
terms are. -/
def add (x y : Binary32) : Binary32 :=
  if x.isNaN || y.isNaN then nan
  else if x.isInfinite then
    if y.isInfinite && x.isNegative != y.isNegative then nan else x
  else if y.isInfinite then y
  else ofSignedUnits (x.isNegative && y.isNegative) (x.signedUnits + y.signedUnits)

end Binary32
end Trapline
