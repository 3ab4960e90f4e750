import Trapline.Proofs.Imports
import Trapline.Proofs.Stages

/-!
# Imports do not nest

Directives are followed in the entry file only. A directive in an imported file is left as it is,
and is then no command, so a file loads only if the files that it imports import nothing. In
particular no file loads that imports itself.

A text by itself can import nothing but itself, so it loads only without directives.

Main statements:
* `Reader.imports_of_load`: what a file imports that loads.
* `Program.ofText_of_directive`: the error of a text whose first directive names another file.
* `Reader.imports_do_not_nest`: both, and that a text with a directive does not load.
-/

namespace Trapline

namespace SourceLine

/-- The text starts with the word of a directive. -/
def IsImport (text : String) : Prop :=
  importWord.toList <+: text.toList

instance (text : String) : Decidable (IsImport text) :=
  inferInstanceAs (Decidable (_ <+: _))

theorem isImport_iff
    {text : String} :
    IsImport text ↔ ∃ path, directive? text = some path := by
  simp only [IsImport, directive?, Option.map_eq_some_iff, List.isPrefixOf?_eq_some_iff_append_eq]
  constructor
  · rintro ⟨rest, hrest⟩
    exact ⟨_, rest, hrest, rfl⟩
  · rintro ⟨_, rest, hrest, -⟩
    exact ⟨rest, hrest⟩

theorem not_isImport_iff
    {text : String} :
    ¬ IsImport text ↔ directive? text = none := by
  rw [isImport_iff, Option.eq_none_iff_forall_ne_some, not_exists]

end SourceLine

open SourceLine (IsImport Imports)

/-- Every directive of a file that loads imports another file, in which no line is a directive. -/
theorem Reader.imports_of_load
    {read : Reader}
    {entry : String}
    {p : Program}
    {texts : List String}
    (hload : read.load entry = .ok p)
    (hentry : read entry = .ok texts)
    {text : String}
    (htext : text ∈ texts)
    (himport : IsImport text) :
    ∃ path imported,
      Imports text path ∧
      path ≠ entry ∧
      read path = .ok imported ∧
      ∀ line ∈ imported, ¬ IsImport line := by
  obtain ⟨texts', parts, hentry', hparts, hreads⟩ := exists_load_iff.1 ⟨p, hload, rfl⟩
  rw [hentry] at hentry'
  cases hentry'
  obtain ⟨path, hdirective⟩ := SourceLine.isImport_iff.1 himport
  obtain ⟨hpath, imported, hread, hnone⟩ := imported_of_directive hparts hreads htext hdirective
  have hplain : ∀ line ∈ imported, ¬ IsImport line :=
    fun line hline => SourceLine.not_isImport_iff.2 (hnone line hline)
  refine ⟨path, imported, ⟨hdirective, hpath⟩, ?_, hread, hplain⟩
  -- the entry file has a directive, so it is none of the files that it imports
  rintro rfl
  rw [hentry] at hread
  cases hread
  exact hplain text htext himport

namespace Program

/-- A text with a directive does not load: what it imports is another file, which is not there, or
the text itself, which has the directive. -/
theorem exists_error_of_directive
    {text line : String}
    (hline : line ∈ Text.lines text)
    (himport : IsImport line)
    (file : String) :
    ∃ e, ofText text file = .error e := by
  cases hload : ofText text file with
  | error e =>
      exact ⟨e, rfl⟩
  | ok p =>
      obtain ⟨path, imported, -, hne, hread, -⟩ :=
        Reader.imports_of_load hload (Reader.ofTexts_self file text) hline himport
      rw [Reader.ofTexts_of_ne hne] at hread
      cases hread

/-- The first directive of a text cannot be followed if it names another file. -/
theorem ofText_of_directive
    {text file line path : String}
    {front back : List String}
    (hlines : Text.lines text = front ++ line :: back)
    (hfront : ∀ l ∈ front, ¬ IsImport l)
    (himports : Imports line path)
    (hne : path ≠ file) :
    ofText text file =
      .error {
        fault := .unreadable path "no such file"
        origin := some { file, line := front.length + 1 } } := by
  let first : SourceLine := ⟨line, ⟨file, front.length + 1⟩⟩
  have hnumber : SourceLine.number file (Text.lines text) =
      SourceLine.numberFrom file 1 front ++
        first :: SourceLine.numberFrom file (front.length + 2) back := by
    rw [hlines, SourceLine.number, SourceLine.numberFrom_append, SourceLine.numberFrom,
      Nat.add_comm 1]
  obtain ⟨rest, hrest, hpath⟩ :=
    (SourceLine.importPath?_eq_some_iff : first.importPath? = some path ↔ _).1 himports.1
  have hblank : Text.trim rest ≠ [] := by
    intro hnil
    have hempty := himports.2
    rw [← hpath, hnil] at hempty
    cases hempty
  have hread := Reader.ofTexts_of_ne hne text
  rw [← hpath] at hread
  have hfails := Reader.DirectiveFails.unreadable hrest hblank hread
  have hplain : ∀ l ∈ SourceLine.numberFrom file 1 front, ∀ e,
      ¬ (Reader.ofTexts [(file, text)]).DirectiveFails l e := by
    intro l hl
    refine Reader.not_fails_iff.2 fun rest hrest => ?_
    exact absurd ⟨rest, hrest.symm⟩ (hfront l.text (SourceLine.text_mem_of_mem_numberFrom hl))
  rw [hpath] at hfails
  have hself := Reader.ofTexts_self file text
  exact Reader.load_eq_error_iff.2 (.directive hself hnumber hplain hfails)

end Program

/-- **Imports do not nest.** When a file loads, each of its directives imports another file that can
be read, and no line of that file starts with the word of a directive. So no file loads that imports
itself, or a file with a directive. A text that counts as a file does not load if one of its lines
starts with the word; if the first such line names another file than the text itself, the error is
that this file cannot be read, and it is placed at the line. -/
theorem Reader.imports_do_not_nest :
    (∀ (read : Reader) (entry : String) (p : Program) (texts : List String),
      read.load entry = .ok p →
      read entry = .ok texts →
      ∀ text ∈ texts, IsImport text →
        ∃ path imported,
          Imports text path ∧
          path ≠ entry ∧
          read path = .ok imported ∧
          ∀ line ∈ imported, ¬ IsImport line) ∧
    (∀ text file : String,
      (∃ line ∈ Text.lines text, IsImport line) →
      ∃ e, Program.ofText text file = .error e) ∧
    ∀ (text file line path : String) (front back : List String),
      Text.lines text = front ++ line :: back →
      (∀ l ∈ front, ¬ IsImport l) →
      Imports line path →
      path ≠ file →
      Program.ofText text file =
        .error {
          fault := .unreadable path "no such file"
          origin := some { file, line := front.length + 1 } } := by
  refine ⟨?_, ?_, ?_⟩
  · intro read entry p texts hload hentry text htext himport
    exact imports_of_load hload hentry htext himport
  · rintro text file ⟨line, hline, himport⟩
    exact Program.exists_error_of_directive hline himport file
  · intro text file line path front back hlines hfront himports hne
    exact Program.ofText_of_directive hlines hfront himports hne

/-- The script with a library loads. A text that imports itself does not, nor does one that imports
another file; the faults of the other lines of the latter do not come to light. -/
theorem Reader.imports_do_not_nest_of_texts :
    (∃ p path imported,
      Machine.withLibrary.load "main" = .ok p ∧
      Imports "!import  library " path ∧
      path ≠ "main" ∧
      Machine.withLibrary path = .ok imported ∧
      ∀ line ∈ imported, ¬ IsImport line) ∧
    (∃ e, Program.ofText "put: i1\n!import main" "main" = .error e) ∧
    Program.ofText "put: x\n!importother\n!import" "main" =
      .error {
        fault := .unreadable "other" "no such file"
        origin := some { file := "main", line := 2 } } := by
  obtain ⟨hload, htext, hfirst⟩ := imports_do_not_nest
  refine ⟨?_, ?_, ?_⟩
  · have hok : (Machine.withLibrary.load "main").isOk = true := by
      decide +kernel
    obtain ⟨p, hp⟩ := exists_of_isOk hok
    obtain ⟨path, imported, h⟩ :=
      hload _ _ p _ hp rfl "!import  library " (by simp) (by decide +kernel)
    exact ⟨p, path, imported, hp, h⟩
  · exact htext _ _ ⟨"!import main", by decide +kernel, by decide +kernel⟩
  · exact hfirst _ "main" "!importother" "other" ["put: x"] ["!import"] (by decide +kernel)
      (by decide +kernel) ⟨by decide +kernel, by decide +kernel⟩ (by decide)

end Trapline
