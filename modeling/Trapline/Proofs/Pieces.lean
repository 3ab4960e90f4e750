import Mathlib.Data.List.DropRight
import Trapline.Argument

/-!
# Texts without blank ends and the pieces of an argument text

A text is firm when neither end of it is blank (`Text.IsFirm`). Trimming does not change a firm
text, and firm texts can be put behind one another.

The pieces of an argument text are what stands between its commas, up to the last piece that is not
empty.

Main statements:
* `Argument.pieces_append_commas`: commas at the end do not matter.
* `Argument.pieces_intercalate`: texts joined by commas are the pieces of the joined text.
* `Argument.pieces_listed`: the same for texts in a list with a comma and a blank between them.
-/

namespace Trapline

namespace Text

/-- Neither end of the text is blank. -/
structure IsFirm (text : List Char) : Prop where
  head : ∀ c ∈ text.head?, isBlank c = false
  last : ∀ c ∈ text.getLast?, isBlank c = false

namespace IsFirm

theorem nil :
    IsFirm [] where
  head := by simp
  last := by simp

theorem append
    {a b : List Char}
    (ha : IsFirm a)
    (hb : IsFirm b) :
    IsFirm (a ++ b) where
  head := by
    intro c hc
    rw [List.head?_append, Option.mem_def, Option.or_eq_some_iff] at hc
    rcases hc with hc | ⟨-, hc⟩
    · exact ha.head c hc
    · exact hb.head c hc
  last := by
    intro c hc
    rw [List.getLast?_append, Option.mem_def, Option.or_eq_some_iff] at hc
    rcases hc with hc | ⟨-, hc⟩
    · exact hb.last c hc
    · exact ha.last c hc

theorem flatMap
    {α : Type}
    {f : α → List Char}
    {xs : List α}
    (h : ∀ x ∈ xs, IsFirm (f x)) :
    IsFirm (xs.flatMap f) := by
  induction xs with
  | nil =>
      exact nil
  | cons x xs ih =>
      rw [List.flatMap_cons]
      exact (h x List.mem_cons_self).append (ih fun y hy => h y (List.mem_cons_of_mem x hy))

theorem of_forall
    {text : List Char}
    (h : ∀ c ∈ text, isBlank c = false) :
    IsFirm text where
  head c hc := h c (List.mem_of_mem_head? hc)
  last c hc := h c (List.mem_of_mem_getLast? hc)

/-- Behind a character that is not blank only the last character matters. -/
theorem cons
    {c : Char}
    {text : List Char}
    (hc : isBlank c = false)
    (hlast : ∀ d ∈ text.getLast?, isBlank d = false) :
    IsFirm (c :: text) where
  head := by
    intro d hd
    cases hd
    exact hc
  last := by
    intro d hd
    cases text with
    | nil =>
        cases hd
        exact hc
    | cons e rest =>
        rw [List.getLast?_cons_cons] at hd
        exact hlast d hd

end IsFirm

/-- A decimal digit is not blank. -/
theorem isBlank_of_isDigit
    {c : Char}
    (h : c.isDigit = true) :
    isBlank c = false := by
  have hrange : 48 ≤ c.toNat ∧ c.toNat ≤ 57 := Char.isDigit_iff_toNat.1 h
  simp [isBlank, blankRanges]
  omega

theorem isDigit_of_mem_toDigits
    (n : Nat) :
    ∀ c ∈ Nat.toDigits 10 n, c.isDigit = true :=
  fun _ => Nat.isDigit_of_mem_toDigits (by decide) (by decide)

theorem trimStart_of_head
    {text : List Char}
    (h : ∀ c ∈ text.head?, isBlank c = false) :
    trimStart text = text := by
  cases text with
  | nil =>
      rfl
  | cons c rest =>
      exact List.dropWhile_cons_of_neg (by simp [h c rfl])

theorem trim_of_isFirm
    {text : List Char}
    (h : IsFirm text) :
    trim text = text := by
  have hback : trimStart text.reverse = text.reverse := by
    apply trimStart_of_head
    intro c hc
    rw [List.head?_reverse] at hc
    exact h.last c hc
  calc trim text
      = (trimStart text.reverse).reverse := by rw [trim, trimStart_of_head h.head]; rfl
    _ = text := by rw [hback, List.reverse_reverse]

/-- What is left of a text after trimming is firm. -/
theorem isFirm_trim
    (text : List Char) :
    IsFirm (trim text) where
  head := by
    intro c hc
    obtain ⟨blanks, hblanks⟩ : trim text <+: trimStart text :=
      List.rdropWhile_prefix isBlank _
    have hhead : (trimStart text).head? = some c := by
      rw [← hblanks, List.head?_append, Option.mem_def.1 hc, Option.some_or]
    have hnot := List.head?_dropWhile_not isBlank text
    rw [trimStart] at hhead
    rwa [hhead] at hnot
  last := by
    intro c hc
    rw [trim, trimEnd, List.getLast?_reverse, Option.mem_def] at hc
    have hnot := List.head?_dropWhile_not isBlank (trimStart text).reverse
    rwa [hc] at hnot

theorem trim_cons_of_isBlank
    {c : Char}
    (hc : isBlank c = true)
    (text : List Char) :
    trim (c :: text) = trim text := by
  rw [trim, trimStart, List.dropWhile_cons_of_pos hc]
  rfl

end Text

namespace Argument

theorem splitAtCommas_eq_splitOn
    (text : List Char) :
    splitAtCommas text = text.splitOn ',' := by
  induction text with
  | nil =>
      rfl
  | cons c rest ih =>
      simp only [splitAtCommas, ih, List.splitOn_eq_splitOnP, List.splitOnP_cons_eq_if_modifyHead,
        beq_iff_eq]

theorem splitAtCommas_append
    (front back : List Char) :
    splitAtCommas (front ++ ',' :: back) = splitAtCommas front ++ splitAtCommas back := by
  simp only [splitAtCommas_eq_splitOn]
  exact List.splitOnP_append_cons front back (beq_self_eq_true ',')

theorem pieces_eq_rdropWhile
    (text : List Char) :
    pieces text = (splitAtCommas text).rdropWhile List.isEmpty := by
  rfl

theorem pieces_append_commas
    (text : List Char)
    (n : Nat) :
    pieces (text ++ List.replicate n ',') = pieces text := by
  induction n with
  | zero =>
      simp
  | succ n ih =>
      have hsplit : splitAtCommas (text ++ List.replicate (n + 1) ',')
          = splitAtCommas (text ++ List.replicate n ',') ++ [[]] := by
        rw [List.replicate_succ', ← List.append_assoc, splitAtCommas_append]
        rfl
      rw [pieces_eq_rdropWhile, hsplit, List.rdropWhile_concat_pos _ _ _ rfl]
      exact ih

theorem pieces_intercalate
    {texts : List (List Char)}
    (hne : ∀ t ∈ texts, t ≠ [])
    (hcomma : ∀ t ∈ texts, ',' ∉ t) :
    pieces ([','].intercalate texts) = texts := by
  by_cases htexts : texts = []
  · rw [htexts]
    rfl
  · rw [pieces_eq_rdropWhile, splitAtCommas_eq_splitOn,
      List.splitOn_intercalate ',' hcomma htexts, List.rdropWhile_eq_self_iff]
    intro hlast
    have hlastne := hne _ (List.getLast_mem hlast)
    simpa using hlastne

/-- A text that can stand in a list of arguments. -/
structure IsToken (text : List Char) : Prop where
  ne_nil : text ≠ []
  no_comma : ',' ∉ text
  isFirm : Text.IsFirm text

/-- The pieces of a list with a comma and a blank between its texts: every text but the first has a
blank in front. -/
def spaced : List (List Char) → List (List Char)
  | [] => []
  | first :: rest => first :: rest.map (' ' :: ·)

theorem intercalate_cons
    (separator first : List Char)
    (rest : List (List Char)) :
    separator.intercalate (first :: rest) = first ++ rest.flatMap (separator ++ ·) := by
  induction rest generalizing first with
  | nil =>
      simp
  | cons second rest ih =>
      rw [List.intercalate_cons_cons, ih second, List.flatMap_cons]
      simp

theorem intercalate_spaced
    (texts : List (List Char)) :
    [','].intercalate (spaced texts) = [',', ' '].intercalate texts := by
  cases texts with
  | nil =>
      rfl
  | cons first rest =>
      rw [spaced, intercalate_cons, intercalate_cons, List.flatMap_map]
      rfl

theorem map_trim_spaced
    {texts : List (List Char)}
    (h : ∀ t ∈ texts, IsToken t) :
    (spaced texts).map Text.trim = texts := by
  cases texts with
  | nil =>
      rfl
  | cons first rest =>
      have hblank : Text.trim ∘ (' ' :: ·) = Text.trim :=
        funext (Text.trim_cons_of_isBlank (by decide))
      calc (spaced (first :: rest)).map Text.trim
          = (first :: rest).map Text.trim := by
            rw [spaced, List.map_cons, List.map_map, hblank]
            rfl
        _ = (first :: rest).map id :=
              List.map_congr_left fun t ht => Text.trim_of_isFirm (h t ht).isFirm
        _ = first :: rest := List.map_id _

theorem pieces_listed
    {texts : List (List Char)}
    (h : ∀ t ∈ texts, IsToken t)
    (n : Nat) :
    pieces ([',', ' '].intercalate texts ++ List.replicate n ',') = spaced texts := by
  have hspaced : ∀ t ∈ spaced texts, t ≠ [] ∧ ',' ∉ t := by
    cases texts with
    | nil =>
        simp [spaced]
    | cons first rest =>
        have hfirst := h first List.mem_cons_self
        have hrest : ∀ t ∈ rest, ',' ∉ t :=
          fun t ht => (h t (List.mem_cons_of_mem first ht)).no_comma
        simpa [spaced, hfirst.ne_nil, hfirst.no_comma] using hrest
  rw [pieces_append_commas, ← intercalate_spaced]
  exact pieces_intercalate (fun t ht => (hspaced t ht).1) fun t ht => (hspaced t ht).2

theorem isFirm_listed
    {texts : List (List Char)}
    (h : ∀ t ∈ texts, IsToken t)
    (n : Nat) :
    Text.IsFirm ([',', ' '].intercalate texts ++ List.replicate n ',') := by
  have hcommas : Text.IsFirm (List.replicate n ',') := by
    apply Text.IsFirm.of_forall
    intro c hc
    rw [List.eq_of_mem_replicate hc]
    decide
  apply Text.IsFirm.append _ hcommas
  cases texts with
  | nil =>
      exact Text.IsFirm.nil
  | cons first rest =>
      rw [intercalate_cons]
      apply (h first List.mem_cons_self).isFirm.append
      apply Text.IsFirm.flatMap
      intro t ht
      have ht := h t (List.mem_cons_of_mem first ht)
      have hlast : (' ' :: t).getLast? = t.getLast? :=
        List.getLast?_append_of_ne_nil [' '] ht.ne_nil
      exact Text.IsFirm.cons (by decide) fun c hc => ht.isFirm.last c (hlast ▸ hc)

end Argument
end Trapline
