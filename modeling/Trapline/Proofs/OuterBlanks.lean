import Trapline.Proofs.Pieces
import Trapline.Proofs.Reading
import Trapline.Proofs.Stages

/-!
# Blanks at the ends of lines

Blanks behind a line never matter: a line without them is the same command or the same directive. So
files that differ in such blanks only, in the carriage returns of their line ends for instance, load
alike. Blanks in front of a line do not matter to its command either, unless they hide that the line
looks like a comment, which has to start with its mark.

Main statements:
* `Command.parse_trimEnd`, `Command.parse_trim`: lines without the blanks at their ends.
* `Reader.load_trimmed`: files without the blanks behind their lines.
* `Text.splitLines_addReturns`: a carriage return before each line feed is a blank behind a line.
* `Reader.load_ignores_outer_blanks`: all of this together.
-/

namespace Trapline

namespace Text

/-- The text consists of blanks. -/
def AllBlank (text : List Char) : Prop :=
  ∀ c ∈ text, isBlank c = true

theorem allBlank_takeWhile
    (text : List Char) :
    AllBlank (text.takeWhile isBlank) :=
  fun _ => List.mem_takeWhile_imp

theorem exists_eq_append_trimStart
    (text : List Char) :
    ∃ blanks, AllBlank blanks ∧ text = blanks ++ trimStart text :=
  ⟨text.takeWhile isBlank, allBlank_takeWhile text, List.takeWhile_append_dropWhile.symm⟩

theorem exists_eq_trimEnd_append
    (text : List Char) :
    ∃ blanks, AllBlank blanks ∧ text = trimEnd text ++ blanks := by
  refine ⟨(text.reverse.takeWhile isBlank).reverse, ?_, ?_⟩
  · intro c hc
    exact allBlank_takeWhile _ c (List.mem_reverse.1 hc)
  · rw [trimEnd, ← List.reverse_append, List.takeWhile_append_dropWhile, List.reverse_reverse]

theorem trimStart_of_allBlank
    {text : List Char}
    (h : AllBlank text) :
    trimStart text = [] :=
  List.dropWhile_eq_nil_iff.2 h

theorem trimEnd_append_of_allBlank
    (text : List Char)
    {blanks : List Char}
    (h : AllBlank blanks) :
    trimEnd (text ++ blanks) = trimEnd text := by
  have hreverse : ∀ c ∈ blanks.reverse, isBlank c = true :=
    fun c hc => h c (List.mem_reverse.1 hc)
  rw [trimEnd, List.reverse_append, List.dropWhile_append_of_pos hreverse, trimEnd]

theorem trim_append_of_allBlank
    (text : List Char)
    {blanks : List Char}
    (h : AllBlank blanks) :
    trim (text ++ blanks) = trim text := by
  rw [trim, trimStart, List.dropWhile_append]
  split
  · rename_i hempty
    have htext : trimStart text = [] := List.isEmpty_iff.1 hempty
    have hblanks : blanks.dropWhile isBlank = [] := trimStart_of_allBlank h
    rw [hblanks, trim, htext]
  · exact trimEnd_append_of_allBlank (trimStart text) h

theorem trim_allBlank_append
    {blanks : List Char}
    (h : AllBlank blanks)
    (text : List Char) :
    trim (blanks ++ text) = trim text := by
  rw [trim, trimStart, List.dropWhile_append_of_pos h]
  rfl

theorem trim_trimEnd
    (text : List Char) :
    trim (trimEnd text) = trim text := by
  obtain ⟨blanks, hblanks, htext⟩ := exists_eq_trimEnd_append text
  calc trim (trimEnd text)
      = trim (trimEnd text ++ blanks) := (trim_append_of_allBlank _ hblanks).symm
    _ = trim text := by rw [← htext]

theorem trim_trimStart
    (text : List Char) :
    trim (trimStart text) = trim text := by
  obtain ⟨blanks, hblanks, htext⟩ := exists_eq_append_trimStart text
  calc trim (trimStart text)
      = trim (blanks ++ trimStart text) := (trim_allBlank_append hblanks _).symm
    _ = trim text := by rw [← htext]

/-- Trimming stops at a character that is not blank. -/
theorem trimEnd_append_of_last
    {front : List Char}
    (h : ∀ c ∈ front.getLast?, isBlank c = false)
    (back : List Char) :
    trimEnd (front ++ back) = front ++ trimEnd back := by
  have hfront : front.reverse.dropWhile isBlank = front.reverse := by
    apply trimStart_of_head
    intro c hc
    rw [List.head?_reverse] at hc
    exact h c hc
  rw [trimEnd, List.reverse_append, List.dropWhile_append]
  split
  · rename_i hempty
    rw [hfront, List.reverse_reverse, trimEnd, List.isEmpty_iff.1 hempty, List.reverse_nil,
      List.append_nil]
  · rw [List.reverse_append, List.reverse_reverse, trimEnd]

/-- A colon is no blank. -/
theorem ne_colon_of_allBlank
    {blanks : List Char}
    (h : AllBlank blanks) :
    ∀ c ∈ blanks, (c != ':') = true := by
  intro c hc
  rw [bne_iff_ne]
  rintro rfl
  exact absurd (h ':' hc) (by decide)

/-- No mark of a comment is a blank. -/
theorem head?_ne_of_allBlank
    {blanks : List Char}
    (h : AllBlank blanks) :
    blanks.head? ≠ some '#' := by
  intro hhead
  exact absurd (h '#' (List.mem_of_mem_head? hhead)) (by decide)

end Text

namespace Command

open Text (AllBlank)

variable {blanks : List Char}

/-- A line is read by whether it is idle, by its keyword and by the text of its arguments. -/
theorem parse_congr
    {text text' : String}
    (hidle : isIdle text'.toList = isIdle text.toList)
    (hkeyword : keyword text'.toList = keyword text.toList)
    (harguments : argumentText text'.toList = argumentText text.toList)
    (l : Location) :
    parse text' l = parse text l := by
  simp only [parse, parseArguments, hidle, hkeyword, harguments]

theorem isIdle_append_blanks
    (text : List Char)
    (h : AllBlank blanks) :
    isIdle (text ++ blanks) = isIdle text := by
  rw [isIdle, isIdle, Text.trim_append_of_allBlank text h]
  cases text with
  | nil =>
      rfl
  | cons c rest =>
      rfl

theorem keyword_append_blanks
    (text : List Char)
    (h : AllBlank blanks) :
    keyword (text ++ blanks) = keyword text := by
  rw [keyword, keyword, List.takeWhile_append]
  split
  · rename_i hlength
    have hstart : text.takeWhile (· != ':') <+: text := List.takeWhile_prefix _
    have htext : text.takeWhile (· != ':') = text := hstart.eq_of_length hlength
    have hblanks : blanks.takeWhile (· != ':') = blanks :=
      List.takeWhile_eq_self_iff.2 (Text.ne_colon_of_allBlank h)
    rw [htext, hblanks, Text.trim_append_of_allBlank text h]
  · rfl

theorem argumentText_append_blanks
    (text : List Char)
    (h : AllBlank blanks) :
    argumentText (text ++ blanks) = argumentText text := by
  rw [argumentText, argumentText, List.dropWhile_append]
  split
  · rename_i hempty
    have hblanks : blanks.dropWhile (· != ':') = [] :=
      List.dropWhile_eq_nil_iff.2 (Text.ne_colon_of_allBlank h)
    rw [hblanks, List.isEmpty_iff.1 hempty]
  · rename_i hcolon
    rw [List.tail_append_of_ne_nil (by simpa using hcolon), Text.trim_append_of_allBlank _ h]

/-- Blanks in front of a line make it no comment. -/
theorem isIdle_blanks_append
    {text : List Char}
    (h : AllBlank blanks)
    (hcomment : text.head? ≠ some '#') :
    isIdle (blanks ++ text) = isIdle text := by
  have hhead : (blanks ++ text).head? ≠ some '#' := by
    rw [List.head?_append, ne_eq, Option.or_eq_some_iff, not_or, not_and]
    exact ⟨Text.head?_ne_of_allBlank h, fun _ => hcomment⟩
  rw [isIdle, isIdle, Text.trim_allBlank_append h, beq_eq_false_iff_ne.2 hhead,
    beq_eq_false_iff_ne.2 hcomment]

theorem keyword_blanks_append
    (h : AllBlank blanks)
    (text : List Char) :
    keyword (blanks ++ text) = keyword text := by
  rw [keyword, keyword, List.takeWhile_append_of_pos (Text.ne_colon_of_allBlank h),
    Text.trim_allBlank_append h]

theorem argumentText_blanks_append
    (h : AllBlank blanks)
    (text : List Char) :
    argumentText (blanks ++ text) = argumentText text := by
  rw [argumentText, argumentText, List.dropWhile_append_of_pos (Text.ne_colon_of_allBlank h)]

/-- Blanks behind a line do not matter. -/
theorem parse_trimEnd
    (text : String)
    (l : Location) :
    parse (String.ofList (Text.trimEnd text.toList)) l = parse text l := by
  obtain ⟨blanks, hblanks, htext⟩ := Text.exists_eq_trimEnd_append text.toList
  have hline : (String.ofList (Text.trimEnd text.toList)).toList = Text.trimEnd text.toList :=
    String.toList_ofList
  apply parse_congr
  · rw [hline, ← isIdle_append_blanks _ hblanks, ← htext]
  · rw [hline, ← keyword_append_blanks _ hblanks, ← htext]
  · rw [hline, ← argumentText_append_blanks _ hblanks, ← htext]

/-- Blanks in front of a line do not matter if no comment stands behind them. -/
theorem parse_trimStart
    {text : String}
    (h : (Text.trimStart text.toList).head? ≠ some '#')
    (l : Location) :
    parse (String.ofList (Text.trimStart text.toList)) l = parse text l := by
  obtain ⟨blanks, hblanks, htext⟩ := Text.exists_eq_append_trimStart text.toList
  have hline : (String.ofList (Text.trimStart text.toList)).toList = Text.trimStart text.toList :=
    String.toList_ofList
  apply parse_congr
  · rw [hline, ← isIdle_blanks_append hblanks h, ← htext]
  · rw [hline, ← keyword_blanks_append hblanks, ← htext]
  · rw [hline, ← argumentText_blanks_append hblanks, ← htext]

/-- Blanks at the ends of a line do not matter if no comment stands between them. -/
theorem parse_trim
    {text : String}
    (h : (Text.trim text.toList).head? ≠ some '#')
    (l : Location) :
    parse (String.ofList (Text.trim text.toList)) l = parse text l := by
  have hstart : (Text.trimStart text.toList).head? ≠ some '#' := by
    intro hhead
    apply h
    rw [← Text.trim_trimStart]
    exact Text.head?_trim (by decide) hhead
  calc parse (String.ofList (Text.trim text.toList)) l
      = parse (String.ofList (Text.trimStart text.toList)) l := by
        rw [← parse_trimEnd (String.ofList (Text.trimStart text.toList)), String.toList_ofList]
        rfl
    _ = parse text l := parse_trimStart hstart l

end Command

/-- A line without the blanks behind it. -/
def Text.trimLine (line : String) : String :=
  String.ofList (trimEnd line.toList)

namespace SourceLine

/-- The line without the blanks behind it, at the same place. -/
def trimmed (line : SourceLine) : SourceLine :=
  { line with text := Text.trimLine line.text }

theorem toList_text_trimmed
    (line : SourceLine) :
    line.trimmed.text.toList = Text.trimEnd line.text.toList :=
  String.toList_ofList

theorem parse_trimmed
    (line : SourceLine) :
    Command.parse line.trimmed.text line.trimmed.location =
      Command.parse line.text line.location := by
  rw [trimmed, Text.trimLine, Command.parse_trimEnd]

theorem numberFrom_trimmed
    (file : String)
    (line : Nat)
    (texts : List String) :
    numberFrom file line (texts.map Text.trimLine) = (numberFrom file line texts).map trimmed := by
  induction texts generalizing line with
  | nil =>
      rfl
  | cons text rest ih =>
      rw [List.map_cons, numberFrom, numberFrom, List.map_cons, ih]
      rfl

/-- Blanks behind a directive do not matter: its word ends in no blank, and its path is trimmed. -/
theorem importPath?_trimmed
    (line : SourceLine) :
    line.trimmed.importPath? = line.importPath? := by
  have hlast : ∀ c ∈ importWord.toList.getLast?, Text.isBlank c = false := by
    rintro c ⟨⟩
    decide
  ext path
  simp only [importPath?_eq_some_iff, IsDirective, toList_text_trimmed]
  constructor
  · rintro ⟨rest, hline, rfl⟩
    obtain ⟨blanks, hblanks, htext⟩ := Text.exists_eq_trimEnd_append line.text.toList
    refine ⟨rest ++ blanks, ?_, by rw [Text.trim_append_of_allBlank rest hblanks]⟩
    rw [htext, hline, List.append_assoc]
  · rintro ⟨rest, hline, rfl⟩
    refine ⟨Text.trimEnd rest, ?_, by rw [Text.trim_trimEnd]⟩
    rw [hline, Text.trimEnd_append_of_last hlast]

end SourceLine

namespace Reader

open SourceLine (number)

/-- The reader of the same files without the blanks behind their lines. -/
def trimmed (read : Reader) : Reader := fun path =>
  (read path).map (List.map Text.trimLine)

variable (read : Reader)

theorem splice_trimmed
    (line : SourceLine) :
    read.trimmed.splice line.trimmed = (read.splice line).map (List.map SourceLine.trimmed) := by
  rw [splice, splice, SourceLine.importPath?_trimmed]
  cases line.importPath? with
  | none =>
      rfl
  | some path =>
      dsimp only
      cases path.isEmpty with
      | true =>
          rfl
      | false =>
          rw [trimmed]
          cases read path with
          | error e =>
              rfl
          | ok texts =>
              exact congrArg Except.ok (SourceLine.numberFrom_trimmed path 1 texts)

theorem loadLines_trimmed
    (entry : String) :
    read.trimmed.loadLines entry = (read.loadLines entry).map (List.map SourceLine.trimmed) := by
  have hread : read.trimmed entry = (read entry).map (List.map Text.trimLine) := rfl
  rw [loadLines, loadLines, hread]
  cases read entry with
  | error e =>
      rfl
  | ok texts =>
      have hparts :
          (number entry (texts.map Text.trimLine)).mapM read.trimmed.splice =
            ((number entry texts).mapM read.splice).map
              (List.map (List.map SourceLine.trimmed)) := by
        rw [number, number, SourceLine.numberFrom_trimmed]
        exact mapM_map_of_comm read.splice_trimmed _
      simp only [Except.map, bind, Except.bind, hparts]
      cases (number entry texts).mapM read.splice with
      | error e =>
          rfl
      | ok parts =>
          exact congrArg Except.ok List.map_flatten.symm

theorem loadCommands_trimmed
    (entry : String) :
    read.trimmed.loadCommands entry = read.loadCommands entry := by
  rw [loadCommands, loadCommands, loadLines_trimmed]
  cases read.loadLines entry with
  | error e =>
      rfl
  | ok lines =>
      simp only [Except.map, bind, Except.bind, List.mapM_map, Function.comp_def,
        SourceLine.parse_trimmed]

/-- Files load alike without the blanks behind their lines. -/
theorem load_trimmed
    (entry : String) :
    read.trimmed.load entry = read.load entry := by
  rw [load, load, loadCommands_trimmed]

end Reader

namespace Text

/-- The characters of a text with a carriage return before each line feed. -/
def addReturns (text : List Char) : List Char :=
  text.flatMap fun c => if c = '\n' then ['\r', '\n'] else [c]

/-- The text with a carriage return before each line feed. -/
def withReturns (text : String) : String :=
  String.ofList (addReturns text.toList)

@[simp] theorem addReturns_lineFeed
    (text : List Char) :
    addReturns ('\n' :: text) = '\r' :: '\n' :: addReturns text := by
  rfl

theorem addReturns_cons
    {c : Char}
    (h : c ≠ '\n')
    (text : List Char) :
    addReturns (c :: text) = c :: addReturns text := by
  simp [addReturns, h]

theorem head?_addReturns
    (text : List Char) :
    (addReturns text).head? ≠ some '\n' := by
  cases text with
  | nil =>
      simp [addReturns]
  | cons c rest =>
      by_cases hc : c = '\n'
      · simp [hc]
      · simp [addReturns_cons hc, hc]

theorem trimEnd_cons_trimEnd
    (c : Char)
    (text : List Char) :
    trimEnd (c :: trimEnd text) = trimEnd (c :: text) := by
  obtain ⟨blanks, hblanks, htext⟩ := exists_eq_trimEnd_append text
  calc trimEnd (c :: trimEnd text)
      = trimEnd (c :: trimEnd text ++ blanks) := (trimEnd_append_of_allBlank _ hblanks).symm
    _ = trimEnd (c :: text) := by rw [List.cons_append, ← htext]

theorem map_trimEnd_prepend
    (c : Char)
    {lines lines' : List (List Char)}
    (h : lines'.map trimEnd = lines.map trimEnd) :
    (prepend c lines').map trimEnd = (prepend c lines).map trimEnd := by
  cases lines with
  | nil =>
      rw [List.map_eq_nil_iff.1 h]
  | cons line lines =>
      obtain ⟨line', lines', rfl, hline, hlines⟩ := List.map_eq_cons_iff.1 h
      simp only [prepend, List.map_cons, hlines]
      rw [← trimEnd_cons_trimEnd, hline, trimEnd_cons_trimEnd]

/-- A carriage return before each line feed makes at most a blank behind a line. -/
theorem splitLines_addReturns
    (text : List Char) :
    (splitLines (addReturns text)).map trimEnd = (splitLines text).map trimEnd := by
  induction text with
  | nil =>
      rfl
  | cons c rest ih =>
      by_cases hfeed : c = '\n'
      · rw [hfeed, addReturns_lineFeed, splitLines, splitLines_lineFeed, List.map_cons, ih,
          List.map_cons]
      have hadded :
          splitLines (addReturns (c :: rest)) = prepend c (splitLines (addReturns rest)) := by
        rw [addReturns_cons hfeed]
        exact splitLines_cons_eq hfeed fun _ => head?_addReturns rest
      rw [hadded, map_trimEnd_prepend c ih]
      by_cases hreturn : c = '\r' → rest.head? ≠ some '\n'
      · rw [splitLines_cons_eq hfeed hreturn]
      · -- the return that was there is left on the line
        simp only [Classical.not_imp, ne_eq, not_not] at hreturn
        obtain ⟨rfl, hrest⟩ := hreturn
        obtain ⟨rest, rfl⟩ := List.head?_eq_some_iff.1 hrest
        rw [splitLines_lineFeed, splitLines]
        rfl

/-- The lines of a text without the blanks behind them are the same with carriage returns. -/
theorem lines_withReturns
    (text : String) :
    (lines (withReturns text)).map trimLine = (lines text).map trimLine := by
  have hmap : ∀ chars : List (List Char),
      (chars.map String.ofList).map trimLine = (chars.map trimEnd).map String.ofList := by
    intro chars
    simp [trimLine, Function.comp_def]
  rw [lines, lines, hmap, hmap, withReturns, String.toList_ofList, splitLines_addReturns]

end Text

namespace Reader

/-- Readers of the same files up to the blanks behind the lines load alike. -/
theorem load_of_trimmed
    {read read' : Reader}
    (h : ∀ path,
      (read' path).map (List.map Text.trimLine) = (read path).map (List.map Text.trimLine))
    (entry : String) :
    read'.load entry = read.load entry := by
  have htrimmed : read'.trimmed = read.trimmed := funext h
  rw [← load_trimmed, htrimmed, load_trimmed]

/-- **Line ends and outer blanks.** Take two readers that read the same paths, where each file has
the same lines in the one and the other once the blanks behind the lines are removed. Whatever the
entry file, they load the same program, its places included, or fail with the same error. So a
carriage return before each line feed of a text changes nothing. And a line is the same command
without the blanks at its ends, unless it starts with the mark of a comment then. -/
theorem load_ignores_outer_blanks :
    (∀ read read' : Reader,
      (∀ path,
        (read' path).map (List.map Text.trimLine) = (read path).map (List.map Text.trimLine)) →
      ∀ entry, read'.load entry = read.load entry) ∧
    (∀ text file, Program.ofText (Text.withReturns text) file = Program.ofText text file) ∧
    ∀ (text : String) (l : Location),
      (Text.trim text.toList).head? ≠ some '#' →
      Command.parse (String.ofList (Text.trim text.toList)) l = Command.parse text l := by
  refine ⟨?_, ?_, fun text l h => Command.parse_trim h l⟩
  · intro read read' h entry
    exact load_of_trimmed h entry
  · intro text file
    apply load_of_trimmed
    intro path
    by_cases hpath : path = file
    · rw [hpath, ofTexts_self, ofTexts_self]
      exact congrArg Except.ok (Text.lines_withReturns text)
    · rw [ofTexts_of_ne hpath, ofTexts_of_ne hpath]

/-- A script and a part of it with blanks of all kinds behind their lines. -/
def ragged : Reader := fun path =>
  if path = "main" then .ok ["!import lib \t", "  put : :x \r"]
  else .ok ["set: :x, i5\u3000", ""]

/-- The same files without most of these blanks. -/
def tidy : Reader := fun path =>
  if path = "main" then .ok ["!import lib", "  put : :x"] else .ok ["set: :x, i5", "\t"]

theorem load_ignores_outer_blanks_of_ragged :
    (∃ p, tidy.load "main" = .ok p ∧ ragged.load "main" = .ok p) ∧
    Program.ofText "put: i1\r\r\n\r\n  exit \r\n" "main" =
      Program.ofText "put: i1\r\n\n  exit \n" "main" ∧
    Command.parse "put : i1" { file := "main", line := 1 } =
      Command.parse "\t put : i1\u3000" { file := "main", line := 1 } := by
  obtain ⟨hload, hreturns, hparse⟩ := load_ignores_outer_blanks
  refine ⟨?_, ?_, ?_⟩
  · have hsame : ∀ path,
        (ragged path).map (List.map Text.trimLine) = (tidy path).map (List.map Text.trimLine) := by
      intro path
      by_cases hpath : path = "main"
      · rw [ragged, tidy, if_pos hpath, if_pos hpath]
        decide +kernel
      · rw [ragged, tidy, if_neg hpath, if_neg hpath]
        decide +kernel
    have htidy : (tidy.load "main").isOk = true := by
      decide +kernel
    obtain ⟨p, hp⟩ := exists_of_isOk htidy
    exact ⟨p, hp, (hload tidy ragged hsame "main").trans hp⟩
  · have htext : Text.withReturns "put: i1\r\n\n  exit \n" = "put: i1\r\r\n\r\n  exit \r\n" := by
      decide +kernel
    rw [← htext, hreturns]
  · have htrim :
        String.ofList (Text.trim "\t put : i1\u3000".toList) = "put : i1" := by
      decide +kernel
    rw [← htrim]
    exact hparse _ _ (by decide +kernel)

end Reader
end Trapline
