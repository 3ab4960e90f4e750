import Trapline.Error
import Trapline.Numeral
import Trapline.Text.Blank

/-!
# Integers of 64 bits

Reading takes an optional sign and a run of digits from the start of a text. An underscore may
stand directly behind a digit. What follows the run is ignored, and a text without a digit reads as
zero. An integer that does not fit into 64 bits is a fault that names the whole text.

The digits are taken one by one, and reading stops at the first one that 64 bits do not hold. The
integer grows away from zero in the direction of its sign, so that the least one can be read, too.
-/

namespace Trapline

namespace Integer

/-- The integer as a 64-bit integer, if it fits. -/
def toInt64? (n : Int) : Option Int64 :=
  if Int64.minValue.toInt ≤ n ∧ n ≤ Int64.maxValue.toInt then some (Int64.ofInt n) else none

/-- The integer with one more digit. Both the tens and their sum with the digit have to fit. -/
def pushDigit? (negative : Bool) (n : Int64) (c : Char) : Option Int64 := do
  let digit : Nat := c.toNat - '0'.toNat
  let tens ← toInt64? (n.toInt * 10)
  toInt64? (if negative then tens.toInt - digit else tens.toInt + digit)

/-- The integer with the digits at the start of a text, where an underscore may stand directly
behind a digit. The flag tells whether a digit comes directly before the text. -/
def readDigits? (negative : Bool) (n : Int64) (afterDigit : Bool) : List Char → Option Int64
  | [] => some n
  | c :: rest =>
      if c.isDigit then
        match pushDigit? negative n c with
        | some n => readDigits? negative n true rest
        | none => none
      else if c == '_' && afterDigit then readDigits? negative n false rest
      else some n

/-- The 64-bit integer at the start of a text, leading blanks skipped. -/
def read (text : List Char) : Except Fault Int64 :=
  let text := Text.trimStart text
  let (sign, rest) := Numeral.takeSign text
  match readDigits? (sign == some '-') 0 false rest with
  | some n => .ok n
  | none => .error (.integerOutOfRange (String.ofList text))

end Integer

end Trapline
