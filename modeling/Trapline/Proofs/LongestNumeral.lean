import Mathlib.Data.List.Basic
import Trapline.Proofs.Pieces

/-!
# The longest numeral at the start of a text

`Numeral.IsNumeral` gives the form of numerals as texts: an optional sign, digits with an optional
fraction or a fraction alone, and an optional power of ten. The scanner gives the parts of a
numeral, and parts that are well formed (`Numeral.WellFormed`) are the same thing as a text of that
form.

The scanner never goes back behind a part that it has taken. It takes a point and the mark of a
power of ten only when it sees that a digit follows, so nothing has to be given back. A numeral at
the start of a text is then found part by part, each part as it is or longer (`Numeral.extended`).

Main statements:
* `Numeral.isNumeral_iff`: the texts of well-formed numerals.
* `Numeral.scan?_text_append`: what is scanned from a text that starts with a numeral.
* `Numeral.wellFormed_of_scan?`, `Numeral.text_of_scan?`: what is scanned from any text.
* `leadingNumeral_longest`: the longest numeral, and the number read from it.
-/

namespace Trapline

namespace Numeral

/-- Digits and nothing else. -/
def AllDigits (text : List Char) : Prop :=
  ∀ c ∈ text, c.isDigit = true

/-- An optional sign. -/
inductive IsSignText : List Char → Prop
  | none : IsSignText []
  | minus : IsSignText ['-']
  | plus : IsSignText ['+']

/-- Digits, or a fraction with or without digits before its point. -/
inductive IsMantissa : List Char → Prop
  | whole {digits : List Char} (hdigits : AllDigits digits) (hne : digits ≠ []) :
      IsMantissa digits
  | fraction {whole digits : List Char} (hwhole : AllDigits whole) (hdigits : AllDigits digits)
      (hne : digits ≠ []) :
      IsMantissa (whole ++ '.' :: digits)

/-- An optional power of ten. -/
inductive IsPowerText : List Char → Prop
  | none : IsPowerText []
  | power {mark : Char} {sign digits : List Char} (hmark : mark = 'e' ∨ mark = 'E')
      (hsign : IsSignText sign) (hdigits : AllDigits digits) (hne : digits ≠ []) :
      IsPowerText (mark :: (sign ++ digits))

/-- A numeral as a text. -/
inductive IsNumeral : List Char → Prop
  | parts {sign mantissa power : List Char} (hsign : IsSignText sign)
      (hmantissa : IsMantissa mantissa) (hpower : IsPowerText power) :
      IsNumeral (sign ++ mantissa ++ power)

end Numeral

/-- A power of ten that can be written: its mark is the letter e and it has digits. -/
structure PowerOfTen.WellFormed (p : PowerOfTen) : Prop where
  mark : Numeral.isPowerMark p.mark = true
  sign : ∀ c ∈ p.sign, Numeral.isSign c = true
  digits : Numeral.AllDigits p.digits
  ne_nil : p.digits ≠ []

namespace Numeral

/-- A numeral that can be written: it has a digit, before the point or behind it. -/
structure WellFormed (n : Numeral) : Prop where
  sign : ∀ c ∈ n.sign, isSign c = true
  whole : AllDigits n.whole
  fraction : AllDigits n.fraction
  ne_nil : n.whole ≠ [] ∨ n.fraction ≠ []
  power : ∀ p ∈ n.power, p.WellFormed

section Forms

/-! The form of the parts and the form of the text. -/

theorem isSignText_iff
    {text : List Char} :
    IsSignText text ↔ ∃ sign : Option Char, (∀ c ∈ sign, isSign c = true) ∧ sign.toList = text := by
  constructor
  · intro h
    cases h with
    | none => exact ⟨none, by simp, rfl⟩
    | minus => exact ⟨some '-', by simp [isSign], rfl⟩
    | plus => exact ⟨some '+', by simp [isSign], rfl⟩
  · rintro ⟨sign, hsign, rfl⟩
    cases sign with
    | none => exact .none
    | some c =>
        have hc : c = '-' ∨ c = '+' := by simpa [isSign] using hsign c rfl
        rcases hc with rfl | rfl
        · exact .minus
        · exact .plus

theorem isPowerText_powerText
    {n : Numeral}
    (h : ∀ p ∈ n.power, p.WellFormed) :
    IsPowerText n.powerText := by
  rw [powerText]
  cases hpower : n.power with
  | none => exact .none
  | some p =>
      obtain ⟨hmark, hsign, hdigits, hne⟩ := h p hpower
      have hmark' : p.mark = 'e' ∨ p.mark = 'E' := by simpa [isPowerMark] using hmark
      exact .power hmark' (isSignText_iff.2 ⟨p.sign, hsign, rfl⟩) hdigits hne

theorem isNumeral_text
    {n : Numeral}
    (h : n.WellFormed) :
    IsNumeral n.text := by
  have hmantissa : IsMantissa (n.whole ++ n.fractionText) := by
    rw [fractionText]
    cases hfraction : n.fraction with
    | nil =>
        rw [List.isEmpty_nil, if_pos rfl, List.append_nil]
        exact .whole h.whole (h.ne_nil.resolve_right (not_not_intro hfraction))
    | cons c digits =>
        rw [← hfraction, if_neg (by simp [hfraction])]
        exact .fraction h.whole h.fraction (by simp [hfraction])
  rw [text, List.append_assoc n.sign.toList]
  exact .parts (isSignText_iff.2 ⟨n.sign, h.sign, rfl⟩) hmantissa (isPowerText_powerText h.power)

theorem exists_power_of_isPowerText
    {text : List Char}
    (h : IsPowerText text) :
    ∃ power : Option PowerOfTen,
      (∀ p ∈ power, p.WellFormed) ∧
      ∀ n : Numeral, n.power = power → n.powerText = text := by
  cases h with
  | none =>
      exact ⟨none, by simp, fun n hn => by rw [powerText, hn]⟩
  | @power mark _ digits hmark hsignText hdigits hne =>
      obtain ⟨sign, hsign, rfl⟩ := isSignText_iff.1 hsignText
      refine ⟨some ⟨mark, sign, digits⟩, ?_, fun n hn => by rw [powerText, hn]; rfl⟩
      rintro p ⟨⟩
      exact ⟨by simpa [isPowerMark] using hmark, hsign, hdigits, hne⟩

/-- The numerals are the texts of the numerals that are well formed. -/
theorem isNumeral_iff
    {text : List Char} :
    IsNumeral text ↔ ∃ n : Numeral, n.WellFormed ∧ n.text = text := by
  constructor
  · rintro @⟨_, mantissa, _, hsignText, hmantissa, hpowerText⟩
    obtain ⟨sign, hsign, rfl⟩ := isSignText_iff.1 hsignText
    obtain ⟨power, hpower, hpowerText⟩ := exists_power_of_isPowerText hpowerText
    cases hmantissa with
    | whole hdigits hne =>
        refine ⟨⟨sign, mantissa, [], power⟩, ⟨hsign, hdigits, nofun, .inl hne, hpower⟩, ?_⟩
        simp [Numeral.text, fractionText, hpowerText]
    | @fraction whole digits hwhole hdigits hne =>
        refine ⟨⟨sign, whole, digits, power⟩, ⟨hsign, hwhole, hdigits, .inr hne, hpower⟩, ?_⟩
        simp [Numeral.text, fractionText, hpowerText, hne]
  · rintro ⟨n, hn, rfl⟩
    exact isNumeral_text hn

end Forms

section Parts

/-! Each part of the scanner, on a text that starts with such a part. -/

theorem isSign_of_isDigit
    {c : Char}
    (h : c.isDigit = true) :
    isSign c = false := by
  rw [isSign, Bool.or_eq_false_iff, beq_eq_false_iff_ne, beq_eq_false_iff_ne]
  constructor <;> rintro rfl <;> simp at h

theorem ne_of_isPowerMark
    {c : Char}
    (h : isPowerMark c = true) :
    c.isDigit = false ∧ c ≠ '.' := by
  have hc : c = 'e' ∨ c = 'E' := by simpa [isPowerMark] using h
  rcases hc with rfl | rfl <;> decide

theorem takeSign_append
    {sign : Option Char}
    {rest : List Char}
    (hsign : ∀ c ∈ sign, isSign c = true)
    (hrest : ∀ c ∈ rest.head?, isSign c = false) :
    takeSign (sign.toList ++ rest) = (sign, rest) := by
  cases sign with
  | some c =>
      simp [takeSign, hsign c rfl]
  | none =>
      cases rest with
      | nil => rfl
      | cons c rest => simp [takeSign, hrest c rfl]

theorem takeDigits_append
    {digits : List Char}
    (hdigits : AllDigits digits)
    (rest : List Char) :
    takeDigits (digits ++ rest) = (digits ++ (takeDigits rest).1, (takeDigits rest).2) := by
  rw [takeDigits, List.takeWhile_append_of_pos hdigits, List.dropWhile_append_of_pos hdigits]
  rfl

theorem takeDigits_append_of_head
    {digits rest : List Char}
    (hdigits : AllDigits digits)
    (hrest : ∀ c ∈ rest.head?, c.isDigit = false) :
    takeDigits (digits ++ rest) = (digits, rest) := by
  have hstop : takeDigits rest = ([], rest) := by
    cases rest with
    | nil => rfl
    | cons c rest =>
        have hc : c.isDigit = false := hrest c rfl
        simp [takeDigits, hc]
  rw [takeDigits_append hdigits, hstop, List.append_nil]

theorem takeFraction_append
    {digits : List Char}
    (hdigits : AllDigits digits)
    (hne : digits ≠ [])
    (rest : List Char) :
    takeFraction ('.' :: (digits ++ rest)) =
      (digits ++ (takeDigits rest).1, (takeDigits rest).2) := by
  obtain ⟨c, more, rfl⟩ := List.exists_cons_of_ne_nil hne
  simp only [takeFraction, takeDigits_append hdigits]
  rfl

theorem takeFraction_of_head
    {text : List Char}
    (h : text.head? ≠ some '.') :
    takeFraction text = ([], text) := by
  unfold takeFraction
  split
  · exact absurd rfl h
  · rfl

theorem takePower_append
    {p : PowerOfTen}
    (h : p.WellFormed)
    (rest : List Char) :
    takePower (p.mark :: (p.sign.toList ++ (p.digits ++ rest))) =
      some { p with digits := p.digits ++ (takeDigits rest).1 } := by
  obtain ⟨c, more, hdigits⟩ := List.exists_cons_of_ne_nil h.ne_nil
  have hsign : takeSign (p.sign.toList ++ (p.digits ++ rest)) = (p.sign, p.digits ++ rest) := by
    apply takeSign_append h.sign
    intro d hd
    obtain rfl : c = d := by simpa [hdigits] using hd
    exact isSign_of_isDigit (h.digits c (by simp [hdigits]))
  rw [takePower, if_pos h.mark, hsign]
  simp only [takeDigits_append h.digits]
  rw [hdigits]
  rfl

/-- The scanner finds a numeral exactly if its parts are found one behind the other. -/
theorem scan?_eq_some_iff
    {text : List Char}
    {n : Numeral} :
    scan? text = some n ↔
      ∃ rest₁ rest₂ rest₃,
        takeSign text = (n.sign, rest₁) ∧
        takeDigits rest₁ = (n.whole, rest₂) ∧
        takeFraction rest₂ = (n.fraction, rest₃) ∧
        takePower rest₃ = n.power ∧
        (n.whole ≠ [] ∨ n.fraction ≠ []) := by
  obtain ⟨sign, whole, fraction, power⟩ := n
  rw [scan?]
  obtain ⟨sign', rest₁⟩ := takeSign text
  rcases hwhole : takeDigits rest₁ with ⟨whole', rest₂⟩
  rcases hfraction : takeFraction rest₂ with ⟨fraction', rest₃⟩
  simp only [hwhole, hfraction]
  constructor
  · intro h
    split at h
    · cases h
    · rename_i hne
      cases h
      exact ⟨rest₁, rest₂, rest₃, rfl, hwhole, hfraction, rfl, by simpa [imp_iff_not_or] using hne⟩
  · rintro ⟨_, _, _, ⟨⟩, hwhole', hfraction', hpower, hne⟩
    cases hwhole.symm.trans hwhole'
    cases hfraction.symm.trans hfraction'
    rw [if_neg (by simpa [imp_iff_not_or] using hne), hpower]

end Parts

section Extension

/-- The numeral at the start of a text that starts with the given one, where the rest of the text
may go on with it. -/
def extended (n : Numeral) (rest : List Char) : Numeral :=
  let (more, rest) := takeDigits rest
  match n.power with
  | some p => { n with power := some { p with digits := p.digits ++ more } }
  | none =>
      if n.fraction.isEmpty then
        let (fraction, rest) := takeFraction rest
        { n with whole := n.whole ++ more, fraction, power := takePower rest }
      else
        { n with fraction := n.fraction ++ more, power := takePower rest }

theorem extended_nil
    (n : Numeral) :
    n.extended [] = n := by
  obtain ⟨sign, whole, fraction, power⟩ := n
  cases power with
  | some p => simp [extended, takeDigits]
  | none => cases fraction <;> simp [extended, takeDigits, takeFraction, takePower]

theorem text_isPrefix_extended
    (n : Numeral)
    (rest : List Char) :
    n.text <+: (n.extended rest).text := by
  obtain ⟨sign, whole, fraction, power⟩ := n
  cases power with
  | some p =>
      refine ⟨(takeDigits rest).1, ?_⟩
      simp [extended, text, fractionText, powerText]
  | none =>
      cases fraction with
      | nil => simp [extended, text, fractionText, powerText]
      | cons c digits => simp [extended, text, fractionText, powerText]

/-- Behind its sign a numeral starts with a digit or a point. -/
theorem head_mantissa
    {n : Numeral}
    (h : n.WellFormed)
    (rest : List Char) :
    ∀ c ∈ (n.whole ++ (n.fractionText ++ rest)).head?, c.isDigit = true ∨ c = '.' := by
  intro c hc
  cases hwhole : n.whole with
  | cons d digits =>
      obtain rfl : d = c := by simpa [hwhole] using hc
      exact .inl (h.whole d (by simp [hwhole]))
  | nil =>
      have hne : n.fraction ≠ [] := h.ne_nil.resolve_left (not_not_intro hwhole)
      obtain rfl : '.' = c := by simpa [hwhole, fractionText, hne] using hc
      exact .inr rfl

theorem takeSign_text_append
    {n : Numeral}
    (h : n.WellFormed)
    (rest : List Char) :
    takeSign (n.sign.toList ++ (n.whole ++ (n.fractionText ++ rest))) =
      (n.sign, n.whole ++ (n.fractionText ++ rest)) := by
  apply takeSign_append h.sign
  intro c hc
  rcases head_mantissa h rest c hc with hdigit | rfl
  · exact isSign_of_isDigit hdigit
  · rfl

/-- A numeral does not start with a blank. -/
theorem trimStart_text
    {n : Numeral}
    (h : n.WellFormed) :
    Text.trimStart n.text = n.text := by
  apply Text.trimStart_of_head
  intro c hc
  rw [text, List.append_assoc, List.append_assoc] at hc
  cases hsign : n.sign with
  | some s =>
      obtain rfl : s = c := by simpa [hsign] using hc
      have hs : s = '-' ∨ s = '+' := by simpa [isSign] using h.sign s hsign
      rcases hs with rfl | rfl <;> decide
  | none =>
      have hc' : c ∈ (n.whole ++ (n.fractionText ++ n.powerText)).head? := by
        simpa [hsign] using hc
      rcases head_mantissa h n.powerText c hc' with hdigit | rfl
      · exact Text.isBlank_of_isDigit hdigit
      · decide

/-- What follows a numeral does not change its digits and its fraction, if it does not start with a
digit or a point. -/
theorem takeMantissa_append
    {n : Numeral}
    (h : n.WellFormed)
    (rest : List Char)
    (hdigit : ∀ c ∈ rest.head?, c.isDigit = false)
    (hpoint : rest.head? ≠ some '.') :
    takeDigits (n.whole ++ (n.fractionText ++ rest)) = (n.whole, n.fractionText ++ rest) ∧
    takeFraction (n.fractionText ++ rest) = (n.fraction, rest) := by
  rw [fractionText]
  cases hfraction : n.fraction with
  | nil =>
      exact ⟨takeDigits_append_of_head h.whole hdigit, takeFraction_of_head hpoint⟩
  | cons c digits =>
      rw [← hfraction, if_neg (by simp [hfraction]), List.cons_append]
      refine ⟨takeDigits_append_of_head h.whole (by simp), ?_⟩
      have hstop : takeDigits rest = ([], rest) :=
        @takeDigits_append_of_head [] rest nofun hdigit
      rw [takeFraction_append h.fraction (by simp [hfraction]), hstop, List.append_nil]

/-- A text that starts with a numeral is scanned as that numeral, or as one that goes on. -/
theorem scan?_text_append
    {n : Numeral}
    (h : n.WellFormed)
    (rest : List Char) :
    scan? (n.text ++ rest) = some (n.extended rest) := by
  have htext :
      n.text ++ rest = n.sign.toList ++ (n.whole ++ (n.fractionText ++ (n.powerText ++ rest))) := by
    simp [text]
  have hsign := takeSign_text_append h (n.powerText ++ rest)
  rw [htext, scan?_eq_some_iff]
  cases hpower : n.power with
  | some p =>
      -- the mark of the power ends the digits before it
      have hp := h.power p hpower
      obtain ⟨hdigit, hpoint⟩ := ne_of_isPowerMark hp.mark
      have hpowerText : n.powerText ++ rest = p.mark :: (p.sign.toList ++ (p.digits ++ rest)) := by
        simp [powerText, hpower]
      obtain ⟨hwhole, hfraction⟩ :=
        takeMantissa_append h (n.powerText ++ rest)
          (by simp [hpowerText, hdigit]) (by simp [hpowerText, hpoint])
      have hextended :
          n.extended rest =
            { n with power := some { p with digits := p.digits ++ (takeDigits rest).1 } } := by
        simp [extended, hpower]
      rw [hextended]
      exact ⟨_, _, _, hsign, hwhole, hfraction, hpowerText ▸ takePower_append hp rest, h.ne_nil⟩
  | none =>
      have hpowerText : n.powerText ++ rest = rest := by simp [powerText, hpower]
      rw [hpowerText] at hsign ⊢
      cases hfraction : n.fraction with
      | nil =>
          -- the digits may go on, and a fraction and a power may follow them
          have hwhole : takeDigits (n.whole ++ (n.fractionText ++ rest)) =
              (n.whole ++ (takeDigits rest).1, (takeDigits rest).2) := by
            simpa [fractionText, hfraction] using takeDigits_append h.whole rest
          have hne : n.whole ≠ [] := h.ne_nil.resolve_right (not_not_intro hfraction)
          simp only [extended, hpower, hfraction, List.isEmpty_nil, if_true]
          exact ⟨_, _, _, hsign, hwhole, rfl, rfl, .inl (List.append_ne_nil_of_left_ne_nil hne _)⟩
      | cons c digits =>
          have hne : n.fraction ≠ [] := by simp [hfraction]
          have hfractionText : n.fractionText ++ rest = '.' :: (n.fraction ++ rest) := by
            simp [fractionText, hne]
          have hwhole : takeDigits (n.whole ++ (n.fractionText ++ rest)) =
              (n.whole, n.fractionText ++ rest) :=
            takeDigits_append_of_head h.whole (by simp [hfractionText])
          have hextended :
              n.extended rest =
                { n with
                  fraction := n.fraction ++ (takeDigits rest).1,
                  power := takePower (takeDigits rest).2 } := by
            simp [extended, hpower, hne]
          rw [hextended]
          exact ⟨_, _, _, hsign, hwhole, hfractionText ▸ takeFraction_append h.fraction hne rest,
            rfl, .inr (List.append_ne_nil_of_left_ne_nil hne _)⟩

/-- The parts of a numeral are read back from its text. -/
theorem scan?_text
    {n : Numeral}
    (h : n.WellFormed) :
    scan? n.text = some n := by
  simpa [extended_nil] using scan?_text_append h []

end Extension

section Scanned

/-! What the scanner takes from any text. -/

theorem takeSign_spec
    (text : List Char) :
    (takeSign text).1.toList ++ (takeSign text).2 = text ∧
    ∀ c ∈ (takeSign text).1, isSign c = true := by
  cases text with
  | nil => simp [takeSign]
  | cons c rest =>
      rw [takeSign]
      split
      · rename_i hc
        simpa using hc
      · simp

theorem takeDigits_spec
    (text : List Char) :
    (takeDigits text).1 ++ (takeDigits text).2 = text ∧ AllDigits (takeDigits text).1 :=
  ⟨List.takeWhile_append_dropWhile, fun _ => List.mem_takeWhile_imp⟩

theorem takeFraction_spec
    (text : List Char) :
    ((if (takeFraction text).1.isEmpty then [] else '.' :: (takeFraction text).1) ++
      (takeFraction text).2 = text) ∧
    AllDigits (takeFraction text).1 := by
  unfold takeFraction
  split
  · rename_i rest
    obtain ⟨htext, hdigits⟩ := takeDigits_spec rest
    split
    · simp [AllDigits]
    · rename_i digits rest' hne htake
      rw [htake] at htext hdigits
      have hempty : digits ≠ [] := hne
      simp_all
  · simp [AllDigits]

theorem takePower_spec
    {text : List Char}
    {p : PowerOfTen}
    (h : takePower text = some p) :
    p.WellFormed ∧ p.mark :: p.sign.toList ++ p.digits <+: text := by
  cases text with
  | nil => cases h
  | cons mark rest =>
      rw [takePower] at h
      split at h
      · rename_i hmark
        obtain ⟨hsignText, hsign⟩ := takeSign_spec rest
        obtain ⟨hdigitsText, hdigits⟩ := takeDigits_spec (takeSign rest).2
        simp only at h
        split at h
        · cases h
        · rename_i digits rest' hne htake
          rw [htake] at hdigitsText hdigits
          cases h
          refine ⟨⟨hmark, hsign, hdigits, hne⟩, rest', ?_⟩
          rw [List.append_assoc, List.cons_append, hdigitsText, hsignText]
      · cases h

/-- What is scanned is a numeral that can be written. -/
theorem wellFormed_of_scan?
    {text : List Char}
    {n : Numeral}
    (h : scan? text = some n) :
    n.WellFormed := by
  obtain ⟨rest₁, rest₂, rest₃, hsign, hwhole, hfraction, hpower, hne⟩ := scan?_eq_some_iff.1 h
  refine ⟨?_, ?_, ?_, hne, ?_⟩
  · simpa [hsign] using (takeSign_spec text).2
  · simpa [hwhole] using (takeDigits_spec rest₁).2
  · simpa [hfraction] using (takeFraction_spec rest₂).2
  · intro p hp
    exact (takePower_spec (hpower.trans hp)).1

/-- What is scanned stands at the start of the text. -/
theorem text_of_scan?
    {text : List Char}
    {n : Numeral}
    (h : scan? text = some n) :
    n.text <+: text := by
  obtain ⟨rest₁, rest₂, rest₃, hsign, hwhole, hfraction, hpower, -⟩ := scan?_eq_some_iff.1 h
  have hsignText : n.sign.toList ++ rest₁ = text := by
    simpa [hsign] using (takeSign_spec text).1
  have hwholeText : n.whole ++ rest₂ = rest₁ := by
    simpa [hwhole] using (takeDigits_spec rest₁).1
  have hfractionText : n.fractionText ++ rest₃ = rest₂ := by
    simpa [hfraction, fractionText] using (takeFraction_spec rest₂).1
  have hpowerText : n.powerText <+: rest₃ := by
    rw [powerText]
    cases hp : n.power with
    | none => exact List.nil_prefix
    | some p => exact (takePower_spec (hpower.trans hp)).2
  obtain ⟨rest, hrest⟩ := hpowerText
  refine ⟨rest, ?_⟩
  rw [Numeral.text, List.append_assoc, List.append_assoc, List.append_assoc, hrest, hfractionText,
    hwholeText, hsignText]

/-- A text that starts with a numeral is scanned as one that is no shorter. -/
theorem exists_scan?_of_isNumeral
    {text start : List Char}
    (hstart : start <+: text)
    (h : IsNumeral start) :
    ∃ n, scan? text = some n ∧ start.length ≤ n.text.length := by
  obtain ⟨n, hn, rfl⟩ := isNumeral_iff.1 h
  obtain ⟨rest, rfl⟩ := hstart
  exact ⟨n.extended rest, scan?_text_append hn rest, (text_isPrefix_extended n rest).length_le⟩

end Scanned

end Numeral

section Leading

variable {text : List Char}

theorem leadingNumeral_of_scan?
    {n : Numeral}
    (h : Numeral.scan? text = some n) :
    leadingNumeral text = n.text := by
  rw [leadingNumeral, h]

theorem leadingNumeral_of_none
    (h : Numeral.scan? text = none) :
    leadingNumeral text = [] := by
  rw [leadingNumeral, h]

theorem leadingNumeral_isPrefix
    (text : List Char) :
    leadingNumeral text <+: text := by
  cases hscan : Numeral.scan? text with
  | none =>
      rw [leadingNumeral_of_none hscan]
      exact List.nil_prefix
  | some n =>
      rw [leadingNumeral_of_scan? hscan]
      exact Numeral.text_of_scan? hscan

/-- The number that is read from a text depends on the numeral at its start alone. -/
theorem Binary32.read_eq_read_leadingNumeral
    (text : List Char) :
    read text = read (leadingNumeral (Text.trimStart text)) := by
  cases hscan : Numeral.scan? (Text.trimStart text) with
  | none =>
      rw [leadingNumeral_of_none hscan, read, hscan]
      rfl
  | some n =>
      have hn := Numeral.wellFormed_of_scan? hscan
      rw [leadingNumeral_of_scan? hscan, read, hscan, read, Numeral.trimStart_text hn,
        Numeral.scan?_text hn]

/-- **The longest numeral.** What is taken from a text stands at its start. If some start of the
text is a numeral, then it is a numeral and no longer start of the text is one. If no start of the
text is a numeral, nothing is taken. The number that is read from an argument is the one of the
numeral that is taken behind its leading blanks, and zero if nothing is taken there. -/
theorem leadingNumeral_longest
    (text : List Char) :
    leadingNumeral text <+: text ∧
    (∀ start,
      start <+: text →
      Numeral.IsNumeral start →
      Numeral.IsNumeral (leadingNumeral text) ∧
      ∀ longer,
        longer <+: text →
        (leadingNumeral text).length < longer.length →
        ¬ Numeral.IsNumeral longer) ∧
    ((∀ start, start <+: text → ¬ Numeral.IsNumeral start) → leadingNumeral text = []) ∧
    ∀ argument,
      Text.trimStart argument = text →
      Binary32.read argument = Binary32.read (leadingNumeral text) ∧
      (leadingNumeral text = [] → Binary32.read argument = .zero) := by
  refine ⟨leadingNumeral_isPrefix text, ?_, ?_, ?_⟩
  · intro start hstart hnumeral
    obtain ⟨n, hscan, -⟩ := Numeral.exists_scan?_of_isNumeral hstart hnumeral
    rw [leadingNumeral_of_scan? hscan]
    refine ⟨Numeral.isNumeral_text (Numeral.wellFormed_of_scan? hscan), ?_⟩
    intro longer hlonger hlength hnumeral'
    obtain ⟨n', hscan', hle⟩ := Numeral.exists_scan?_of_isNumeral hlonger hnumeral'
    cases hscan.symm.trans hscan'
    omega
  · intro hnone
    cases hscan : Numeral.scan? text with
    | none => exact leadingNumeral_of_none hscan
    | some n =>
        exact absurd (Numeral.isNumeral_text (Numeral.wellFormed_of_scan? hscan))
          (hnone _ (Numeral.text_of_scan? hscan))
  · rintro argument rfl
    refine ⟨Binary32.read_eq_read_leadingNumeral argument, fun hempty => ?_⟩
    rw [Binary32.read_eq_read_leadingNumeral, hempty]
    rfl

/-- A fraction without digits before its point, a power of ten, and what looks like a second one. -/
def twoPowers : List Char := "-.5E+07e3".toList

/-- A sign, a point and a power of ten without a digit before it. -/
def barePower : List Char := "+.e5".toList

theorem leadingNumeral_longest_of_twoPowers :
    leadingNumeral twoPowers = "-.5E+07".toList ∧
    Numeral.IsNumeral "-.5E+07".toList ∧
    (∀ longer, longer <+: twoPowers → 7 < longer.length → ¬ Numeral.IsNumeral longer) ∧
    leadingNumeral barePower = [] ∧
    Binary32.read (' ' :: barePower) = .zero := by
  have htwo : leadingNumeral twoPowers = "-.5E+07".toList := by decide
  have hsign : ∀ c ∈ some '-', Numeral.isSign c = true := by
    rintro c ⟨⟩
    rfl
  have hstart : Numeral.IsNumeral "-.5".toList :=
    Numeral.isNumeral_iff.2 ⟨⟨some '-', [], ['5'], none⟩,
      ⟨hsign, nofun, by simp [Numeral.AllDigits], .inr (by simp), nofun⟩, by decide⟩
  have hbare : ∀ start, start <+: barePower → ¬ Numeral.IsNumeral start := by
    intro start hstarts hnumeral
    obtain ⟨n, hscan, -⟩ := Numeral.exists_scan?_of_isNumeral hstarts hnumeral
    cases hscan
  obtain ⟨-, hlongest, -, -⟩ := leadingNumeral_longest twoPowers
  obtain ⟨-, -, hnone, hread⟩ := leadingNumeral_longest barePower
  obtain ⟨hnumeral, hlonger⟩ := hlongest "-.5".toList (by decide) hstart
  rw [htwo] at hnumeral hlonger
  exact ⟨htwo, hnumeral, hlonger, hnone hbare, (hread (' ' :: barePower) rfl).2 (hnone hbare)⟩

end Leading

end Trapline
