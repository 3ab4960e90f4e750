import Trapline.Binary32.Decimal

/-!
# The fewest digits that read back

A finite magnitude has an exact decimal expansion with 149 places. Dropping low digits leaves two
neighbours on a coarser decimal grid, one below the number and one above it. The coarsest grid that
has a neighbour which rounds back to the magnitude gives the digits. When both neighbours read back
the nearer one is taken, and of two that are equally near the greater.

Nothing dropped is the last grid, where the exact expansion itself reads back.
-/

namespace Trapline
namespace Binary32

/-- The exact decimal expansion of a finite magnitude, in units of `10 ^ (-149)`. -/
def expansion (magnitude : Nat) : Nat :=
  units magnitude * Nat.pow 5 149

/-- The number of `10 ^ dropped` times `digits` in units of `10 ^ (-149)`. -/
def onGrid (digits dropped : Nat) : Decimal where
  digits := digits
  exponent := (dropped : Int) - 149

/-- Whether a decimal number rounds to the magnitude. -/
def readsBack (magnitude : Nat) (d : Decimal) : Bool :=
  nearestDecimal d == magnitude

/-- Of two neighbours one that passes the test, the nearer one when both do. -/
def choose? (test : Decimal → Bool) (belowIsNearer : Bool) (below above : Decimal) :
    Option Decimal :=
  match test below, test above with
  | true, true => some (if belowIsNearer then below else above)
  | true, false => some below
  | false, true => some above
  | false, false => none

/-- The neighbour to write on the grid that drops the given number of digits, if one reads back. -/
def neighbour? (magnitude dropped : Nat) : Option Decimal :=
  let exact := expansion magnitude
  let step := Nat.pow 10 dropped
  choose? (readsBack magnitude) (2 * (exact % step) < step) (onGrid (exact / step) dropped)
    (onGrid (exact / step + 1) dropped)

/-- The neighbour on the coarsest grid that drops at most the given number of digits. -/
def shortestFrom (magnitude : Nat) : Nat → Decimal
  | 0 => onGrid (expansion magnitude) 0
  | dropped + 1 => (neighbour? magnitude (dropped + 1)).getD (shortestFrom magnitude dropped)

/-- The decimal number with the fewest digits that reads back as the magnitude. -/
def shortest (magnitude : Nat) : Decimal :=
  shortestFrom magnitude ((Nat.toDigits 10 (expansion magnitude)).length - 1)

end Binary32
end Trapline
