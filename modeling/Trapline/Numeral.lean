/-!
# Decimal numerals

A numeral is an optional sign, digits with an optional fraction, and an optional power of ten.
The module reads the longest numeral at the start of a text, writes a numeral back, and gives the
number that it stands for.

A point is part of a numeral only when a digit follows it, and the mark of a power of ten only
when its digits follow it. So a numeral without a fraction has no point.
-/

namespace Trapline

/-- The number `digits * 10 ^ exponent`. -/
structure Decimal where
  digits : Nat
  exponent : Int
deriving DecidableEq, Repr

/-- The power of ten of a numeral, as written. -/
structure PowerOfTen where
  mark : Char
  sign : Option Char
  digits : List Char
deriving DecidableEq, Repr

/-- A numeral as written. At least one of the two digit lists holds a digit in every numeral that
is read from a text. -/
structure Numeral where
  sign : Option Char
  whole : List Char
  fraction : List Char
  power : Option PowerOfTen
deriving DecidableEq, Repr

namespace Numeral

/-- A sign is a minus or a plus. -/
def isSign (c : Char) : Bool :=
  c == '-' || c == '+'

/-- The mark of a power of ten is the letter e in either case. -/
def isPowerMark (c : Char) : Bool :=
  c == 'e' || c == 'E'

/-- An optional sign and what follows it. -/
def takeSign : List Char → Option Char × List Char
  | [] => (none, [])
  | c :: rest => if isSign c then (some c, rest) else (none, c :: rest)

/-- The digits at the start of a text and what follows them. -/
def takeDigits (text : List Char) : List Char × List Char :=
  (text.takeWhile Char.isDigit, text.dropWhile Char.isDigit)

/-- The digits of a fraction and what follows them. A point without a digit is left in place. -/
def takeFraction (text : List Char) : List Char × List Char :=
  match text with
  | '.' :: rest =>
      match takeDigits rest with
      | ([], _) => ([], text)
      | (digits, rest) => (digits, rest)
  | _ => ([], text)

/-- A power of ten at the start of a text. -/
def takePower : List Char → Option PowerOfTen
  | [] => none
  | mark :: rest =>
      if isPowerMark mark then
        let (sign, rest) := takeSign rest
        match takeDigits rest with
        | ([], _) => none
        | (digits, _) => some { mark, sign, digits }
      else
        none

/-- The longest numeral at the start of a text. -/
def scan? (text : List Char) : Option Numeral :=
  let (sign, rest) := takeSign text
  let (whole, rest) := takeDigits rest
  let (fraction, rest) := takeFraction rest
  if whole.isEmpty && fraction.isEmpty then
    none
  else
    some { sign, whole, fraction, power := takePower rest }

/-- The fraction as written, with its point. -/
def fractionText (n : Numeral) : List Char :=
  if n.fraction.isEmpty then [] else '.' :: n.fraction

/-- The power of ten as written, with its mark and sign. -/
def powerText (n : Numeral) : List Char :=
  match n.power with
  | none => []
  | some p => p.mark :: p.sign.toList ++ p.digits

/-- The numeral as written. -/
def text (n : Numeral) : List Char :=
  n.sign.toList ++ n.whole ++ n.fractionText ++ n.powerText

/-- Whether the numeral has a minus in front. -/
def isNegative (n : Numeral) : Bool :=
  n.sign == some '-'

/-- The exponent that the power of ten stands for, zero when there is none. -/
def powerValue (n : Numeral) : Int :=
  match n.power with
  | none => 0
  | some p =>
      let size : Int := Nat.ofDigitChars 10 p.digits 0
      if p.sign == some '-' then -size else size

/-- The number that the numeral stands for, its sign apart. -/
def value (n : Numeral) : Decimal where
  digits := Nat.ofDigitChars 10 (n.whole ++ n.fraction) 0
  exponent := n.powerValue - n.fraction.length

end Numeral

/-- The longest numeral at the start of a text, as written there; empty when there is none. -/
def leadingNumeral (text : List Char) : List Char :=
  match Numeral.scan? text with
  | none => []
  | some n => n.text

end Trapline
