import Trapline.Value.Text
import Trapline.Proofs.LongestNumeral
import Trapline.Proofs.Rounding

/-!
# Printed numbers read back

The text of a finite number is a numeral, in one of two forms (`Numeral.IsPrinted`): digits on both
sides of a point, or one digit, an optional fraction and a power of ten. The reader takes the whole
of every such text, so nothing of it is lost.

The digits are those that are chosen for the magnitude of the number, without the zeros at their
end. Writing them puts zeros back, in front of them or behind them. All these are the same decimal
number up to zeros behind the digits, which do not matter when it is rounded.

Main statements:
* `Binary32.eq_padded_significant`: the digits without the zeros at their end, and where they stand.
* `Binary32.value_positional`, `Binary32.value_withPower`: what the two forms stand for.
* `Binary32.ofNumeral_toNumeral`: the numeral of a finite number stands for the number.
* `Argument.parse_printed_float`: a finite number is read back from its text.
-/

namespace Trapline

/-- The number with the given digits, of which the first stands for the given power of ten. -/
def Decimal.ofLeading (digits : List Char) (exponent : Int) : Decimal where
  digits := Nat.ofDigitChars 10 digits 0
  exponent := exponent + 1 - digits.length

namespace Numeral

/-- The forms in which finite numbers are written. -/
inductive IsPrinted : List Char → Prop
  | positional {sign whole fraction : List Char} (hsign : sign = [] ∨ sign = ['-'])
      (hwhole : AllDigits whole) (hne : whole ≠ []) (hfraction : AllDigits fraction)
      (hne' : fraction ≠ []) :
      IsPrinted (sign ++ whole ++ '.' :: fraction)
  | power {sign fraction powerSign digits : List Char} {digit : Char}
      (hsign : sign = [] ∨ sign = ['-']) (hdigit : digit.isDigit = true)
      (hfraction :
        fraction = [] ∨ ∃ behind, fraction = '.' :: behind ∧ AllDigits behind ∧ behind ≠ [])
      (hpowerSign : powerSign = [] ∨ powerSign = ['-']) (hdigits : AllDigits digits)
      (hne : digits ≠ []) :
      IsPrinted (sign ++ digit :: fraction ++ 'e' :: (powerSign ++ digits))

theorem isSignText_of_minus
    {sign : List Char}
    (h : sign = [] ∨ sign = ['-']) :
    IsSignText sign := by
  rcases h with rfl | rfl
  · exact .none
  · exact .minus

theorem IsPrinted.isNumeral
    {text : List Char}
    (h : IsPrinted text) :
    IsNumeral text := by
  cases h with
  | positional hsign hwhole hne hfraction hne' =>
      rw [List.append_assoc, ← List.append_nil (_ ++ '.' :: _), ← List.append_assoc]
      exact .parts (isSignText_of_minus hsign) (.fraction hwhole hfraction hne') .none
  | @power sign fraction powerSign digits digit hsign hdigit hfraction hpowerSign hdigits hne =>
      have hpower : IsPowerText ('e' :: (powerSign ++ digits)) :=
        .power (.inl rfl) (isSignText_of_minus hpowerSign) hdigits hne
      have hfirst : AllDigits [digit] := by simpa [AllDigits] using hdigit
      have hmantissa : IsMantissa (digit :: fraction) := by
        rcases hfraction with rfl | ⟨behind, rfl, hbehind, hne'⟩
        · exact .whole hfirst (List.cons_ne_nil digit [])
        · exact .fraction hfirst hbehind hne'
      exact .parts (isSignText_of_minus hsign) hmantissa hpower

/-- The whole of a numeral is taken from its text. -/
theorem leadingNumeral_of_isNumeral
    {text : List Char}
    (h : IsNumeral text) :
    leadingNumeral text = text := by
  obtain ⟨n, hn, rfl⟩ := isNumeral_iff.1 h
  exact leadingNumeral_of_scan? (scan?_text hn)

/-- The parts of a numeral whose text has one of the two forms. -/
structure Printed (n : Numeral) : Prop extends n.WellFormed where
  minus : n.sign = none ∨ n.sign = some '-'
  form :
    (n.power = none ∧ n.whole ≠ [] ∧ n.fraction ≠ []) ∨
    ∃ p, n.power = some p ∧ n.whole.length = 1 ∧ p.mark = 'e' ∧
      (p.sign = none ∨ p.sign = some '-')

theorem toList_of_minus
    {sign : Option Char}
    (h : sign = none ∨ sign = some '-') :
    sign.toList = [] ∨ sign.toList = ['-'] := by
  rcases h with rfl | rfl
  · exact .inl rfl
  · exact .inr rfl

theorem Printed.isPrinted_text
    {n : Numeral}
    (h : n.Printed) :
    IsPrinted n.text := by
  have hsign := toList_of_minus h.minus
  rcases h.form with ⟨hpower, hwhole, hfraction⟩ | ⟨p, hpower, hlength, hmark, hpowerSign⟩
  · have htext : n.text = n.sign.toList ++ n.whole ++ '.' :: n.fraction := by
      simp [text, fractionText, powerText, hpower, hfraction]
    rw [htext]
    exact .positional hsign h.whole hwhole h.fraction hfraction
  · obtain ⟨digit, hdigit⟩ := List.length_eq_one_iff.1 hlength
    have hp := h.power p hpower
    have htext : n.text =
        n.sign.toList ++ digit :: n.fractionText ++ 'e' :: (p.sign.toList ++ p.digits) := by
      simp [text, powerText, hpower, hdigit, hmark]
    rw [htext]
    refine .power hsign (h.whole digit (by simp [hdigit])) ?_ (toList_of_minus hpowerSign)
      hp.digits hp.ne_nil
    rw [fractionText]
    cases hfraction : n.fraction with
    | nil => exact .inl rfl
    | cons c rest =>
        rw [← hfraction, if_neg (by simp [hfraction])]
        exact .inr ⟨n.fraction, rfl, h.fraction, by simp [hfraction]⟩

end Numeral

namespace Binary32

open Numeral (AllDigits)

section Digits

theorem ofDigitChars_append_zeros
    (digits : List Char)
    (zeros : Nat) :
    Nat.ofDigitChars 10 (digits ++ List.replicate zeros '0') 0 =
      Nat.ofDigitChars 10 digits 0 * 10 ^ zeros := by
  rw [Nat.ofDigitChars_append, Nat.ofDigitChars_replicate_zero, Nat.mul_comm]

theorem ofDigitChars_zeros_append
    (zeros : Nat)
    (digits : List Char) :
    Nat.ofDigitChars 10 (List.replicate zeros '0' ++ digits) 0 = Nat.ofDigitChars 10 digits 0 := by
  rw [Nat.ofDigitChars_append, Nat.ofDigitChars_replicate_zero, Nat.mul_zero]

theorem allDigits_zeros
    (zeros : Nat) :
    AllDigits (List.replicate zeros '0') := by
  intro c hc
  rw [(List.mem_replicate.1 hc).2]
  rfl

/-- The digits of a number are the significant ones and zeros behind them. -/
theorem exists_toDigits_eq
    (d : Decimal) :
    ∃ zeros, Nat.toDigits 10 d.digits = (significant d).1 ++ List.replicate zeros '0' := by
  have hzeros : (Nat.toDigits 10 d.digits).rtakeWhile (· == '0') =
      List.replicate ((Nat.toDigits 10 d.digits).rtakeWhile (· == '0')).length '0' := by
    rw [List.eq_replicate_iff]
    exact ⟨rfl, fun c hc => by simpa using List.mem_rtakeWhile_imp hc⟩
  refine ⟨((Nat.toDigits 10 d.digits).rtakeWhile (· == '0')).length, ?_⟩
  rw [← hzeros]
  exact (List.rdropWhile_append_rtakeWhile ..).symm

/-- A number is the one of its significant digits, up to zeros behind them. -/
theorem eq_padded_significant
    (d : Decimal) :
    ∃ zeros, d = (Decimal.ofLeading (significant d).1 (significant d).2).padded zeros := by
  obtain ⟨zeros, hdigits⟩ := exists_toDigits_eq d
  refine ⟨zeros, ?_⟩
  have hvalue : d.digits = Nat.ofDigitChars 10 (significant d).1 0 * 10 ^ zeros := by
    rw [← ofDigitChars_append_zeros, ← hdigits, Nat.ofDigitChars_ten_toDigits]
  have hlength : (Nat.toDigits 10 d.digits).length = (significant d).1.length + zeros := by
    rw [hdigits, List.length_append, List.length_replicate]
  have hexponent : (significant d).2 = (Nat.toDigits 10 d.digits).length - 1 + d.exponent := rfl
  have hplace : d.exponent = (significant d).2 + 1 - (significant d).1.length - zeros := by omega
  obtain ⟨digits, exponent⟩ := d
  simp only [Decimal.padded, Decimal.ofLeading, Decimal.mk.injEq]
  exact ⟨hvalue, hplace⟩

theorem allDigits_significant
    (d : Decimal) :
    AllDigits (significant d).1 := by
  obtain ⟨zeros, hdigits⟩ := exists_toDigits_eq d
  intro c hc
  exact Text.isDigit_of_mem_toDigits d.digits c (hdigits ▸ List.mem_append_left _ hc)

theorem significant_ne_nil
    {d : Decimal}
    (h : d.digits ≠ 0) :
    (significant d).1 ≠ [] := by
  obtain ⟨zeros, hd⟩ := eq_padded_significant d
  intro hnil
  apply h
  rw [hd, hnil]
  simp [Decimal.padded, Decimal.ofLeading]

end Digits

section Forms

variable {sign : Option Char} {digits : List Char} {exponent : Int}

/-- A numeral whose digits are the given ones with zeros on both sides. -/
theorem value_of_digits
    {n : Numeral}
    (front zeros : Nat)
    (hdigits :
      n.whole ++ n.fraction =
        List.replicate front '0' ++ (digits ++ List.replicate zeros '0'))
    (hexponent : n.powerValue - n.fraction.length = exponent + 1 - digits.length - zeros) :
    n.value = (Decimal.ofLeading digits exponent).padded zeros := by
  rw [Numeral.value, hdigits, hexponent, ofDigitChars_zeros_append, ofDigitChars_append_zeros]
  rfl

/-- A numeral without a power of ten stands for its digits, up to zeros behind them. -/
theorem value_positional
    (sign : Option Char)
    (digits : List Char)
    (exponent : Int) :
    ∃ zeros,
      (positional sign digits exponent).value =
        (Decimal.ofLeading digits exponent).padded zeros := by
  cases exponent with
  | ofNat n =>
      by_cases hlength : digits.length ≤ n + 1
      · -- the digits are filled up with zeros, and one more stands behind the point
        have hpadded : (digits ++ List.replicate (n + 1 - digits.length) '0').length = n + 1 := by
          rw [List.length_append, List.length_replicate]
          omega
        have hwhole := List.take_of_length_le hpadded.le
        have hfraction := List.drop_of_length_le hpadded.le
        refine ⟨n + 1 - digits.length + 1, value_of_digits 0 _ ?_ ?_⟩
        · simp [positional, orZero, hwhole, hfraction, List.replicate_succ']
        · simp only [positional, Numeral.powerValue, orZero, hfraction, List.isEmpty_nil, if_true,
            List.length_singleton, Int.ofNat_eq_natCast]
          omega
      · -- some digits stand behind the point
        have hnone : n + 1 - digits.length = 0 := by omega
        have hfraction : digits.drop (n + 1) ≠ [] := by
          rw [Ne, List.drop_eq_nil_iff]
          exact hlength
        refine ⟨0, value_of_digits 0 0 ?_ ?_⟩
        · simp [positional, orZero, hnone, hfraction]
        · simp only [positional, Numeral.powerValue, orZero, hnone, List.replicate_zero,
            List.append_nil, List.isEmpty_iff, hfraction, if_false, List.length_drop,
            Int.ofNat_eq_natCast]
          omega
  | negSucc n =>
      refine ⟨0, value_of_digits (n + 1) 0 ?_ ?_⟩
      · simp [positional, List.replicate_succ]
      · simp [positional, Numeral.powerValue]
        omega

/-- A numeral with a power of ten stands for its digits. -/
theorem value_withPower
    (sign : Option Char)
    (exponent : Int)
    (hne : digits ≠ []) :
    (withPower sign digits exponent).value = (Decimal.ofLeading digits exponent).padded 0 := by
  have hlength : 0 < digits.length := List.length_pos_iff.2 hne
  have hpower : (withPower sign digits exponent).powerValue = exponent := by
    simp only [withPower, Numeral.powerValue, Nat.ofDigitChars_ten_toDigits]
    by_cases hneg : exponent < 0
    · rw [if_pos hneg, if_pos (beq_self_eq_true _), Int.ofNat_natAbs_of_nonpos (Int.le_of_lt hneg),
        Int.neg_neg]
    · rw [if_neg hneg, if_neg (by decide), Int.natAbs_of_nonneg (Int.not_lt.1 hneg)]
  refine value_of_digits 0 0 ?_ ?_
  · simp only [withPower, List.take_append_drop, List.replicate_zero, List.nil_append,
      List.append_nil]
  · rw [hpower]
    simp only [withPower, List.length_drop]
    omega

theorem isSign_of_minus
    (h : sign = none ∨ sign = some '-') :
    ∀ c ∈ sign, Numeral.isSign c = true := by
  rcases h with rfl | rfl
  · nofun
  · rintro c ⟨⟩
    rfl

theorem sign_positional :
    (positional sign digits exponent).sign = sign := by
  cases exponent <;> rfl

theorem orZero_ne_nil
    (digits : List Char) :
    orZero digits ≠ [] := by
  cases digits <;> simp [orZero]

theorem allDigits_orZero
    (h : AllDigits digits) :
    AllDigits (orZero digits) := by
  cases digits with
  | nil => exact allDigits_zeros 1
  | cons c rest => exact h

/-- Digits on both sides of a point have the first of the two forms. -/
theorem printed_of_digits
    {whole fraction : List Char}
    (hsign : sign = none ∨ sign = some '-')
    (hwhole : AllDigits whole)
    (hwhole' : whole ≠ [])
    (hfraction : AllDigits fraction)
    (hfraction' : fraction ≠ []) :
    (Numeral.mk sign whole fraction none).Printed where
  sign := isSign_of_minus hsign
  whole := hwhole
  fraction := hfraction
  ne_nil := .inl hwhole'
  power := nofun
  minus := hsign
  form := .inl ⟨rfl, hwhole', hfraction'⟩

theorem printed_positional
    (hsign : sign = none ∨ sign = some '-')
    (hdigits : AllDigits digits)
    (hne : digits ≠ []) :
    (positional sign digits exponent).Printed := by
  cases exponent with
  | ofNat n =>
      have hpadded : AllDigits (digits ++ List.replicate (n + 1 - digits.length) '0') :=
        List.forall_mem_append.2 ⟨hdigits, allDigits_zeros _⟩
      refine printed_of_digits hsign ?_ (by simp [hne]) (allDigits_orZero ?_) (orZero_ne_nil _)
      · exact fun c hc => hpadded c (List.mem_of_mem_take hc)
      · exact fun c hc => hpadded c (List.mem_of_mem_drop hc)
  | negSucc n =>
      exact printed_of_digits hsign (allDigits_zeros 1) (by simp)
        (List.forall_mem_append.2 ⟨allDigits_zeros n, hdigits⟩) (by simp [hne])

/-- One digit before the point and a power of ten have the second of the two forms. -/
theorem printed_withPower
    (hsign : sign = none ∨ sign = some '-')
    (hdigits : AllDigits digits)
    (hne : digits ≠ []) :
    (withPower sign digits exponent).Printed := by
  obtain ⟨first, rest, rfl⟩ := List.exists_cons_of_ne_nil hne
  obtain ⟨hfirst, hrest⟩ := List.forall_mem_cons.1 hdigits
  have hpowerSign :
      (if exponent < 0 then some '-' else none) = none ∨
      (if exponent < 0 then some '-' else none) = some '-' := by
    split <;> simp
  refine
    { sign := isSign_of_minus hsign
      whole := by simpa [withPower, AllDigits] using hfirst
      fraction := hrest
      ne_nil := .inl (by simp [withPower])
      power := ?_
      minus := hsign
      form := .inr ⟨_, rfl, rfl, rfl, hpowerSign⟩ }
  rintro p ⟨⟩
  exact ⟨rfl, isSign_of_minus hpowerSign, Text.isDigit_of_mem_toDigits _, Nat.toDigits_ne_nil⟩

end Forms

section Numbers

variable {x : Binary32}

theorem ofMagnitude_magnitude
    (x : Binary32) :
    ofMagnitude x.isNegative x.magnitude = x := by
  obtain ⟨bits⟩ := x
  have hlt : bits.toNat < 2 * halfRange := bits.toNat_lt
  have hmod : halfRange ≤ bits.toNat → bits.toNat % halfRange = bits.toNat - halfRange := by
    intro hle
    rw [Nat.mod_eq_sub_mod hle, Nat.mod_eq_of_lt (by omega)]
  simp only [ofMagnitude, isNegative, magnitude, decide_eq_true_eq, Binary32.mk.injEq]
  split
  · rename_i hle
    rw [hmod hle, Nat.add_sub_cancel' hle, UInt32.ofNat_toNat]
  · rename_i hle
    rw [Nat.mod_eq_of_lt (by omega), UInt32.ofNat_toNat]

theorem writtenSign_minus
    (x : Binary32) :
    x.writtenSign = none ∨ x.writtenSign = some '-' := by
  rw [writtenSign]
  split <;> simp

/-- The sign of a numeral is the one of the number. -/
theorem isNegative_of_writtenSign
    {n : Numeral}
    (h : n.sign = x.writtenSign) :
    n.isNegative = x.isNegative := by
  rw [Numeral.isNegative, h, writtenSign]
  cases x.isNegative <;> rfl

/-- The numeral of a finite number other than zero comes from its significant digits. -/
theorem toNumeral_of_magnitude_ne_zero
    (hzero : x.magnitude ≠ 0) :
    x.toNumeral =
      positional x.writtenSign (significant (shortest x.magnitude)).1
        (significant (shortest x.magnitude)).2 ∨
    x.toNumeral =
      withPower x.writtenSign (significant (shortest x.magnitude)).1
        (significant (shortest x.magnitude)).2 := by
  rw [toNumeral, if_neg hzero]
  simp only
  split
  · exact .inl rfl
  · exact .inr rfl

/-- The chosen digits of a finite number other than zero. -/
theorem shortest_ne_zero
    (hfinite : x.isFinite = true)
    (hzero : x.magnitude ≠ 0) :
    (shortest x.magnitude).digits ≠ 0 := by
  intro hdigits
  apply hzero
  rw [← nearestDecimal_shortest (of_decide_eq_true hfinite), nearestDecimal, if_pos hdigits]

theorem printed_toNumeral
    (hfinite : x.isFinite = true) :
    x.toNumeral.Printed := by
  by_cases hzero : x.magnitude = 0
  · rw [toNumeral, if_pos hzero]
    exact printed_of_digits x.writtenSign_minus (allDigits_zeros 1) (by simp) (allDigits_zeros 1)
      (by simp)
  · have hdigits := allDigits_significant (shortest x.magnitude)
    have hne := significant_ne_nil (shortest_ne_zero hfinite hzero)
    rcases toNumeral_of_magnitude_ne_zero hzero with h | h
    · rw [h]
      exact printed_positional x.writtenSign_minus hdigits hne
    · rw [h]
      exact printed_withPower x.writtenSign_minus hdigits hne

theorem sign_toNumeral
    (x : Binary32) :
    x.toNumeral.sign = x.writtenSign := by
  by_cases hzero : x.magnitude = 0
  · rw [toNumeral, if_pos hzero]
  · rcases toNumeral_of_magnitude_ne_zero hzero with h | h
    · rw [h, sign_positional]
    · rw [h, withPower]

/-- The numeral of a finite number rounds to its magnitude. -/
theorem nearestDecimal_toNumeral
    (hfinite : x.isFinite = true) :
    nearestDecimal x.toNumeral.value = x.magnitude := by
  by_cases hzero : x.magnitude = 0
  · rw [toNumeral, if_pos hzero, hzero]
    rfl
  · -- both the numeral and the chosen digits are the significant digits, up to zeros behind them
    obtain ⟨zeros, hshortest⟩ := eq_padded_significant (shortest x.magnitude)
    have hback := nearestDecimal_shortest (of_decide_eq_true hfinite)
    rw [hshortest, nearestDecimal_padded] at hback
    have hne := significant_ne_nil (shortest_ne_zero hfinite hzero)
    rcases toNumeral_of_magnitude_ne_zero hzero with h | h
    · obtain ⟨zeros', hvalue⟩ := value_positional x.writtenSign
        (significant (shortest x.magnitude)).1 (significant (shortest x.magnitude)).2
      rw [h, hvalue, nearestDecimal_padded, hback]
    · rw [h, value_withPower _ _ hne, nearestDecimal_padded, hback]

/-- The numeral of a finite number stands for the number, the sign of zero included. -/
theorem ofNumeral_toNumeral
    (hfinite : x.isFinite = true) :
    ofNumeral x.toNumeral = x := by
  rw [ofNumeral, nearestDecimal_toNumeral hfinite, isNegative_of_writtenSign x.sign_toNumeral,
    ofMagnitude_magnitude]

theorem toList_text
    (hfinite : x.isFinite = true) :
    x.text.toList = x.toNumeral.text := by
  have hlt : x.magnitude < infinityMagnitude := of_decide_eq_true hfinite
  have hnan : x.isNaN = false := decide_eq_false (by omega)
  have hinfinite : x.isInfinite = false := beq_eq_false_iff_ne.2 (by omega)
  rw [text, hnan, hinfinite]
  exact String.toList_ofList

theorem read_text
    (hfinite : x.isFinite = true) :
    read x.text.toList = x := by
  have hn := (printed_toNumeral hfinite).toWellFormed
  rw [toList_text hfinite, read, Numeral.trimStart_text hn, Numeral.scan?_text hn]
  exact ofNumeral_toNumeral hfinite

end Numbers

end Binary32

namespace Argument

/-- **Printed numbers read back.** Every text of the two forms in which finite numbers are written
is taken as a whole by the reader. The text of a finite number has one of these forms, and an
argument with the sigil of a number and this text is that number, bit by bit. -/
theorem parse_printed_float :
    (∀ text, Numeral.IsPrinted text → leadingNumeral text = text) ∧
    ∀ x : Binary32,
      x.isFinite = true →
      Numeral.IsPrinted (Value.float x).display.toList ∧
      parse ('f' :: (Value.float x).display.toList) = .ok (.float x) := by
  constructor
  · intro text htext
    exact Numeral.leadingNumeral_of_isNumeral htext.isNumeral
  · intro x hfinite
    have hdisplay : (Value.float x).display = x.text := by rw [Value.display]
    rw [hdisplay]
    constructor
    · rw [Binary32.toList_text hfinite]
      exact (Binary32.printed_toNumeral hfinite).isPrinted_text
    · have hparse : parse ('f' :: x.text.toList) = .ok (.float (Binary32.read x.text.toList)) := rfl
      rw [hparse, Binary32.read_text hfinite]

/-- The least positive number. -/
def leastPositive : Binary32 := ⟨0x00000001⟩

/-- A number with digits on both sides of the point. -/
def thirdNegative : Binary32 := ⟨0xBEAAAAAB⟩

/-- The zero with a minus. -/
def negativeZero : Binary32 := ⟨0x80000000⟩

theorem parse_printed_float_of_extremes :
    (leastPositive.isFinite = true ∧ parse ('f' :: "1e-45".toList) = .ok (.float leastPositive)) ∧
    (thirdNegative.isFinite = true ∧
      parse ('f' :: "-0.33333334".toList) = .ok (.float thirdNegative)) ∧
    (negativeZero.isFinite = true ∧ parse ('f' :: "-0.0".toList) = .ok (.float negativeZero)) := by
  have hleast : (Value.float leastPositive).display = "1e-45" := by
    rw [Value.display]
    decide +kernel
  have hthird : (Value.float thirdNegative).display = "-0.33333334" := by
    rw [Value.display]
    decide +kernel
  have hzero : (Value.float negativeZero).display = "-0.0" := by
    rw [Value.display]
    decide +kernel
  have hleast' : leastPositive.isFinite = true := by decide +kernel
  have hthird' : thirdNegative.isFinite = true := by decide +kernel
  have hzero' : negativeZero.isFinite = true := by decide +kernel
  obtain ⟨-, hread⟩ := parse_printed_float
  exact ⟨⟨hleast', hleast ▸ (hread leastPositive hleast').2⟩,
    ⟨hthird', hthird ▸ (hread thirdNegative hthird').2⟩,
    ⟨hzero', hzero ▸ (hread negativeZero hzero').2⟩⟩

end Argument
end Trapline
