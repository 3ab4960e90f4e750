import Trapline.Numeral
import Trapline.Binary32.Basic
import Trapline.Text.Blank

/-!
# Decimal numbers rounded to binary32

A decimal number is rounded once, from its exact value. Where the exponent alone decides the answer
the power of ten is not built: from `10 ^ 40` up the answer is infinity, and below a quarter of the
least positive magnitude it is zero.
-/

namespace Trapline
namespace Binary32

/-- The magnitude nearest to a decimal number, from its exact value. -/
def nearestExact (d : Decimal) : Nat :=
  match d.exponent with
  | .ofNat n => nearest (d.digits * Nat.pow 10 n * Nat.pow 2 149) 1
  | .negSucc n => nearest (d.digits * Nat.pow 2 149) (Nat.pow 10 (n + 1))

/-- The magnitude nearest to a decimal number. A number of `digits * 10 ^ (-n)` lies below
`2 ^ (log2 digits + 1 - 3 * n)`. -/
def nearestDecimal (d : Decimal) : Nat :=
  if d.digits = 0 then 0
  else if 40 ≤ d.exponent then infinityMagnitude
  else if (Nat.log2 d.digits : Int) + 154 ≤ -3 * d.exponent then 0
  else nearestExact d

/-- The number that a numeral stands for. -/
def ofNumeral (n : Numeral) : Binary32 :=
  ofMagnitude n.isNegative (nearestDecimal n.value)

/-- The number of the longest numeral at the start of a text, leading blanks skipped. A text that
starts with no numeral reads as zero. -/
def read (text : List Char) : Binary32 :=
  match Numeral.scan? (Text.trimStart text) with
  | none => zero
  | some n => ofNumeral n

end Binary32
end Trapline
