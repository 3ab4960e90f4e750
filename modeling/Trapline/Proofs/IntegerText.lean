import Mathlib.Algebra.Ring.Int.Defs
import Trapline.Argument

/-!
# The integer at the start of a text

An integer is written as an optional sign and a run of digits, in which an underscore may stand
directly behind a digit (`Integer.IsRun`). Every text starts with exactly one such integer, when the
run is taken as long as possible and may be empty (`Integer.Literal`).

Reading takes the digits one by one and stops as soon as 64 bits do not hold what has been read. The
integers read on the way grow away from zero, so one of them does not fit exactly when the last one
does not.

Main statements:
* `Integer.readDigits?_eq`: reading digits one by one gives the integer of the whole run if that
  fits, and nothing otherwise.
* `Integer.read_of_literal`: reading a text gives the integer at its start.
* `Argument.parse_integer`: the same for an argument.
-/

namespace Trapline

namespace Integer

/-- An integer that 64 bits hold. -/
def Fits (n : Int) : Prop :=
  -2 ^ 63 ≤ n ∧ n < 2 ^ 63

instance (n : Int) : Decidable (Fits n) :=
  inferInstanceAs (Decidable (_ ∧ _))

theorem toInt64?_eq
    (n : Int) :
    toInt64? n = if Fits n then some (Int64.ofInt n) else none := by
  rw [toInt64?, Int64.toInt_minValue, Int64.toInt_maxValue]
  congr 1
  simp only [Fits, eq_iff_iff]
  omega

theorem toInt64?_toInt
    (n : Int64) :
    toInt64? n.toInt = some n := by
  rw [toInt64?, if_pos ⟨n.minValue_le_toInt, n.toInt_le⟩, Int64.ofInt_toInt]

theorem toInt_of_toInt64?
    {n : Int}
    {k : Int64}
    (h : toInt64? n = some k) :
    k.toInt = n := by
  rw [toInt64?_eq] at h
  split at h
  · rename_i hfits
    cases h
    exact Int64.toInt_ofInt_of_le hfits.1 hfits.2
  · cases h

theorem toInt64?_eq_none_iff
    {n : Int} :
    toInt64? n = none ↔ ¬ Fits n := by
  rw [toInt64?_eq]
  split <;> simp [*]

/-- The integer of the given size with a sign. -/
def signed (negative : Bool) (size : Nat) : Int :=
  if negative then -size else size

@[simp] theorem signed_false
    (size : Nat) :
    signed false size = size := by
  rfl

@[simp] theorem signed_true
    (size : Nat) :
    signed true size = -size := by
  rfl

/-- Of two integers with the same sign the one closer to zero fits if the other does. -/
theorem Fits.of_le
    {negative : Bool}
    {a b : Nat}
    (hle : a ≤ b)
    (h : Fits (signed negative b)) :
    Fits (signed negative a) := by
  cases negative with
  | false =>
      rw [Fits, signed_false] at h ⊢
      omega
  | true =>
      rw [Fits, signed_true] at h ⊢
      omega

/-- That the tens of an integer have to fit adds nothing: with a digit more they are no closer to
zero. -/
theorem pushDigit?_eq
    {negative : Bool}
    {n : Int64}
    {size : Nat}
    (hn : n.toInt = signed negative size)
    (c : Char) :
    pushDigit? negative n c =
      toInt64? (signed negative (10 * size + (c.toNat - '0'.toNat))) := by
  generalize hdigit : c.toNat - '0'.toNat = digit
  have htens : n.toInt * 10 = signed negative (10 * size) := by
    rw [hn]
    cases negative with
    | false =>
        rw [signed_false, signed_false]
        omega
    | true =>
        rw [signed_true, signed_true]
        omega
  rw [pushDigit?, htens, hdigit]
  cases hfits : toInt64? (signed negative (10 * size)) with
  | none =>
      rw [toInt64?_eq_none_iff] at hfits
      exact (toInt64?_eq_none_iff.2 fun h => hfits (h.of_le (Nat.le_add_right ..))).symm
  | some tens =>
      have hsum : (if negative then tens.toInt - digit else tens.toInt + digit) =
          signed negative (10 * size + digit) := by
        rw [toInt_of_toInt64? hfits]
        cases negative with
        | false =>
            simp
        | true =>
            simp
            omega
      exact congrArg toInt64? hsum

/-- More digits make an integer no smaller. -/
theorem le_ofDigitChars
    (digits : List Char)
    (size : Nat) :
    size ≤ Nat.ofDigitChars 10 digits size := by
  induction digits generalizing size with
  | nil =>
      exact Nat.le_refl size
  | cons c rest ih =>
      rw [Nat.ofDigitChars_cons]
      exact Nat.le_trans (by omega) (ih _)

/-- The characters at the start of a text that are digits or underscores directly behind a digit.
The flag tells whether a digit comes directly before the text. -/
def takeRun (afterDigit : Bool) : List Char → List Char
  | [] => []
  | c :: rest =>
      if c.isDigit then c :: takeRun true rest
      else if c == '_' && afterDigit then c :: takeRun false rest
      else []

/-- Reading on from an integer gives the integer with all digits of the run if it fits. When it does
not, reading stops at one of the digits. -/
theorem readDigits?_eq
    {negative : Bool}
    {n : Int64}
    {size : Nat}
    (hn : n.toInt = signed negative size)
    (afterDigit : Bool)
    (text : List Char) :
    readDigits? negative n afterDigit text =
      toInt64? (signed negative
        (Nat.ofDigitChars 10 ((takeRun afterDigit text).filter Char.isDigit) size)) := by
  induction text generalizing n size afterDigit with
  | nil =>
      rw [readDigits?, takeRun, List.filter_nil, Nat.ofDigitChars_nil, ← hn, toInt64?_toInt]
  | cons c rest ih =>
      rw [readDigits?, takeRun]
      by_cases hdigit : c.isDigit = true
      · rw [if_pos hdigit, if_pos hdigit, List.filter_cons_of_pos hdigit, Nat.ofDigitChars_cons,
          pushDigit?_eq hn]
        cases hpush : toInt64? (signed negative (10 * size + (c.toNat - '0'.toNat))) with
        | none =>
            -- the digits that are left cannot bring the integer back
            rw [toInt64?_eq_none_iff] at hpush
            exact (toInt64?_eq_none_iff.2 fun h => hpush (h.of_le (le_ofDigitChars ..))).symm
        | some n' =>
            exact ih (toInt_of_toInt64? hpush) true
      · rw [if_neg hdigit, if_neg hdigit]
        by_cases hunderscore : (c == '_' && afterDigit) = true
        · rw [if_pos hunderscore, if_pos hunderscore, List.filter_cons_of_neg hdigit]
          exact ih hn false
        · rw [if_neg hunderscore, if_neg hunderscore, List.filter_nil, Nat.ofDigitChars_nil, ← hn,
            toInt64?_toInt]

/-- The text ends in a digit. -/
def EndsInDigit (text : List Char) : Prop :=
  ∃ d, text.getLast? = some d ∧ d.isDigit = true

/-- A run: every character is a digit, or an underscore directly behind a digit. -/
def IsRun (run : List Char) : Prop :=
  ∀ front c back, run = front ++ c :: back → c.isDigit = true ∨ c = '_' ∧ EndsInDigit front

theorem isRun_nil :
    IsRun [] := by
  intro front c back h
  simp at h

theorem afterDigit_nil :
    false = true ↔ EndsInDigit [] := by
  simp [EndsInDigit]

/-- A run goes on with a digit, or with an underscore if it ends in a digit. -/
theorem IsRun.concat
    {run : List Char}
    {c : Char}
    (hrun : IsRun run)
    (hc : c.isDigit = true ∨ c = '_' ∧ EndsInDigit run) :
    IsRun (run ++ [c]) := by
  intro front d back h
  rcases List.eq_nil_or_concat back with rfl | ⟨back, e, rfl⟩
  · obtain ⟨rfl, hd⟩ := List.append_inj' h rfl
    cases hd
    exact hc
  · rw [List.concat_eq_append, ← List.cons_append, ← List.append_assoc] at h
    exact hrun front d back (List.append_inj' h rfl).1

theorem endsInDigit_concat_iff
    {text : List Char}
    {c : Char} :
    EndsInDigit (text ++ [c]) ↔ c.isDigit = true := by
  simp [EndsInDigit]

/-- What is taken from a text continues a run. -/
theorem isRun_takeRun
    {run : List Char}
    {afterDigit : Bool}
    (hrun : IsRun run)
    (hafter : afterDigit = true ↔ EndsInDigit run)
    (text : List Char) :
    IsRun (run ++ takeRun afterDigit text) := by
  induction text generalizing run afterDigit with
  | nil =>
      rwa [takeRun, List.append_nil]
  | cons c rest ih =>
      rw [takeRun]
      split
      · rename_i hdigit
        rw [List.append_cons]
        exact ih (hrun.concat (.inl hdigit)) (by simp [endsInDigit_concat_iff, hdigit])
      · rename_i hdigit
        split
        · rename_i hunderscore
          rw [Bool.and_eq_true, beq_iff_eq, hafter] at hunderscore
          rw [List.append_cons]
          exact ih (hrun.concat (.inr hunderscore)) (by simp [endsInDigit_concat_iff, hdigit])
        · rwa [List.append_nil]

theorem takeRun_isPrefix
    (afterDigit : Bool)
    (text : List Char) :
    takeRun afterDigit text <+: text := by
  induction text generalizing afterDigit with
  | nil =>
      exact List.nil_prefix
  | cons c rest ih =>
      rw [takeRun]
      split
      · exact (List.prefix_cons_inj c).2 (ih true)
      · split
        · exact (List.prefix_cons_inj c).2 (ih false)
        · exact List.nil_prefix

/-- Nothing longer than what is taken from a text continues a run. -/
theorem prefix_takeRun
    {run more text : List Char}
    {afterDigit : Bool}
    (hafter : afterDigit = true ↔ EndsInDigit run)
    (hmore : IsRun (run ++ more))
    (hstarts : more <+: text) :
    more <+: takeRun afterDigit text := by
  induction text generalizing run more afterDigit with
  | nil =>
      exact hstarts
  | cons c rest ih =>
      cases more with
      | nil =>
          exact List.nil_prefix
      | cons d more =>
          obtain ⟨rfl, hrest⟩ := List.cons_prefix_cons.1 hstarts
          have hd := hmore run d more rfl
          rw [List.append_cons] at hmore
          rw [takeRun]
          by_cases hdigit : d.isDigit = true
          · rw [if_pos hdigit, List.prefix_cons_inj]
            exact ih (by simp [endsInDigit_concat_iff, hdigit]) hmore hrest
          · obtain ⟨rfl, hends⟩ := hd.resolve_left hdigit
            rw [if_neg hdigit, if_pos (by simpa using hafter.2 hends), List.prefix_cons_inj]
            exact ih (by simp [endsInDigit_concat_iff]) hmore hrest

/-- The integer at the start of a text: an optional sign, the longest run behind it, and the rest of
the text. -/
structure Literal (text : List Char) where
  sign : Option Char
  run : List Char
  rest : List Char
  text_eq : text = sign.toList ++ (run ++ rest)
  isSign : ∀ c ∈ sign, c = '-' ∨ c = '+'
  /-- A sign is never left to what follows. -/
  no_sign : sign = none → text.head? ≠ some '-' ∧ text.head? ≠ some '+'
  isRun : IsRun run
  longest : ∀ run', run' <+: run ++ rest → IsRun run' → run'.length ≤ run.length

namespace Literal

variable {text : List Char}

/-- The integer that is written: the one of the digits in the run, with the sign. -/
def value (l : Literal text) : Int :=
  signed (l.sign == some '-') (Nat.ofDigitChars 10 (l.run.filter Char.isDigit) 0)

/-- The integer at the start of any text. -/
def ofText (text : List Char) : Literal text where
  sign := (Numeral.takeSign text).1
  run := takeRun false (Numeral.takeSign text).2
  rest := (Numeral.takeSign text).2.drop (takeRun false (Numeral.takeSign text).2).length
  text_eq := by
    rw [List.prefix_iff_eq_append.1 (takeRun_isPrefix false (Numeral.takeSign text).2)]
    cases text with
    | nil =>
        rfl
    | cons c rest =>
        rw [Numeral.takeSign]
        split <;> rfl
  isSign := by
    intro c hc
    cases text with
    | nil =>
        cases hc
    | cons d rest =>
        rw [Numeral.takeSign] at hc
        split at hc
        · rename_i hsign
          cases hc
          simpa [Numeral.isSign] using hsign
        · cases hc
  no_sign := by
    intro hnone
    cases text with
    | nil =>
        simp
    | cons c rest =>
        rw [Numeral.takeSign] at hnone
        split at hnone
        · cases hnone
        · rename_i hsign
          simpa [Numeral.isSign] using hsign
  isRun := isRun_takeRun isRun_nil afterDigit_nil _
  longest := by
    intro run' hstarts hrun
    rw [List.prefix_iff_eq_append.1 (takeRun_isPrefix false _)] at hstarts
    exact (prefix_takeRun afterDigit_nil hrun hstarts).length_le

theorem takeSign_eq
    (l : Literal text) :
    Numeral.takeSign text = (l.sign, l.run ++ l.rest) := by
  have htext := l.text_eq
  have hsign := l.isSign
  have hnone := l.no_sign
  generalize l.run ++ l.rest = body at htext ⊢
  generalize l.sign = sign at htext hsign hnone ⊢
  cases sign with
  | none =>
      have hbody : text = body := htext
      obtain ⟨hminus, hplus⟩ := hnone rfl
      rw [hbody] at hminus hplus ⊢
      cases body with
      | nil =>
          rfl
      | cons c rest =>
          have hc : Numeral.isSign c = false := by
            simpa [Numeral.isSign] using And.intro hminus hplus
          simp [Numeral.takeSign, hc]
  | some c =>
      have hc : Numeral.isSign c = true := by
        simpa [Numeral.isSign] using hsign c rfl
      rw [htext]
      simp [Numeral.takeSign, hc]

/-- A text has no run but the longest one. -/
theorem takeRun_eq
    (l : Literal text) :
    takeRun false (l.run ++ l.rest) = l.run := by
  have hle : l.run <+: takeRun false (l.run ++ l.rest) :=
    prefix_takeRun afterDigit_nil l.isRun (List.prefix_append ..)
  have hrun : IsRun (takeRun false (l.run ++ l.rest)) :=
    isRun_takeRun isRun_nil afterDigit_nil _
  exact (hle.eq_of_length_le (l.longest _ (takeRun_isPrefix ..) hrun)).symm

end Literal

/-- Reading a text gives the integer at its start, if it fits. -/
theorem read_of_literal
    {text start : List Char}
    (hstart : Text.trimStart text = start)
    (l : Literal start) :
    read text =
      if Fits l.value then .ok (Int64.ofInt l.value)
      else .error (.integerOutOfRange (String.ofList start)) := by
  have hzero : (0 : Int64).toInt = signed (l.sign == some '-') 0 := by
    cases l.sign == some '-' <;> rfl
  have hdigits : readDigits? (l.sign == some '-') 0 false (l.run ++ l.rest) = toInt64? l.value := by
    rw [readDigits?_eq hzero, l.takeRun_eq, Literal.value]
  simp only [read, hstart, l.takeSign_eq, hdigits, toInt64?_eq]
  by_cases hfits : Fits l.value
  · rw [if_pos hfits, if_pos hfits]
  · rw [if_neg hfits, if_neg hfits]

end Integer

namespace Argument

/-- **Integer arguments.** A text without its leading blanks starts with an integer: an optional
sign and, as long as possible, digits and underscores directly behind a digit. An argument with the
sigil of an integer has the value of that integer if 64 bits hold it, and is out of range otherwise.
The integer of no digits is zero, and what follows it is ignored. -/
theorem parse_integer
    (text : List Char) :
    Nonempty (Integer.Literal (Text.trimStart text)) ∧
    ∀ l : Integer.Literal (Text.trimStart text),
      parse ('i' :: text) =
        if -2 ^ 63 ≤ l.value ∧ l.value < 2 ^ 63 then .ok (.int (Int64.ofInt l.value))
        else .error (.integerOutOfRange (String.ofList (Text.trimStart text))) := by
  refine ⟨⟨.ofText _⟩, fun l => ?_⟩
  have hparse : parse ('i' :: text) = (Integer.read text).map .int := rfl
  rw [hparse, Integer.read_of_literal rfl l]
  exact apply_ite (Except.map Value.int) (Integer.Fits l.value) _ _

/-- A blank, the least integer with underscores in it, and more. -/
def leastInteger : List Char := "\t-9_223_372036854775808__1".toList

/-- A blank and the integer behind the greatest one, with a zero in front. -/
def excessInteger : List Char := " +09223372036854775808_ ".toList

theorem parse_integer_at_bounds :
    parse ('i' :: leastInteger) = .ok (.int Int64.minValue) ∧
    parse ('i' :: excessInteger) = .error (.integerOutOfRange "+09223372036854775808_ ") := by
  have hleast :
      (Integer.Literal.ofText (Text.trimStart leastInteger)).value = -9223372036854775808 := by
    decide +kernel
  have hexcess :
      (Integer.Literal.ofText (Text.trimStart excessInteger)).value = 9223372036854775808 := by
    decide +kernel
  have htext : String.ofList (Text.trimStart excessInteger) = "+09223372036854775808_ " := by
    decide +kernel
  constructor
  · rw [(parse_integer leastInteger).2 (.ofText _), hleast, if_pos (by decide)]
    rfl
  · rw [(parse_integer excessInteger).2 (.ofText _), hexcess, if_neg (by decide), htext]

end Argument
end Trapline
