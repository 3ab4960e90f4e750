import Trapline.Proofs.Loading

/-!
# The stages of loading

Loading reads the entry file, follows its directives, reads the lines as commands and checks the
commands. Each stage goes through the whole program before the next one begins, and stops at the
first failure. So the error of a load is that of the first stage that fails, and within the stage
that of the first line, even when an earlier line would fail at a later stage.

Here each stage is described without the computation: which directives fail (`DirectiveFails`), what
lines stand for (`StandsFor`), and how a load fails (`LoadFails`).

Main statements:
* `Reader.splice_eq_ok_iff`, `Reader.splice_eq_error_iff`: the two outcomes of a line.
* `Reader.load_eq_error_iff`: the error of a load.
* `Reader.load_outcome`: when a load succeeds, and with which error it fails otherwise.
-/

namespace Trapline

theorem SourceLine.getElem?_numberFrom
    (file : String)
    (line : Nat)
    (texts : List String)
    (i : Nat) :
    (numberFrom file line texts)[i]? =
      texts[i]?.map fun text => { text, location := { file, line := line + i } } := by
  induction texts generalizing line i with
  | nil =>
      rfl
  | cons text texts ih =>
      cases i with
      | zero =>
          rfl
      | succ i =>
          rw [numberFrom, List.getElem?_cons_succ, List.getElem?_cons_succ, ih, Nat.add_assoc,
            Nat.add_comm 1 i]

/-- The lines of a file are its texts, and they are numbered from one on. -/
theorem SourceLine.getElem?_number
    (file : String)
    (texts : List String)
    (i : Nat) :
    (number file texts)[i]? =
      texts[i]?.map fun text => { text, location := { file, line := i + 1 } } := by
  rw [number, getElem?_numberFrom, Nat.add_comm 1 i]

/-- A line is a directive when it starts with the word of one. The rest stands behind the word. -/
def SourceLine.IsDirective (line : SourceLine) (rest : List Char) : Prop :=
  line.text.toList = importWord.toList ++ rest

theorem SourceLine.importPath?_eq_some_iff
    {line : SourceLine}
    {path : String} :
    line.importPath? = some path ↔
      ∃ rest, line.IsDirective rest ∧ String.ofList (Text.trim rest) = path := by
  simp only [importPath?, Option.map_eq_some_iff, List.isPrefixOf?_eq_some_iff_append_eq,
    IsDirective]
  constructor
  · rintro ⟨rest, hline, hpath⟩
    exact ⟨rest, hline.symm, hpath⟩
  · rintro ⟨rest, hline, hpath⟩
    exact ⟨rest, hline.symm, hpath⟩

theorem SourceLine.importPath?_eq_none_iff
    {line : SourceLine} :
    line.importPath? = none ↔ ∀ rest, ¬ line.IsDirective rest := by
  rw [Option.eq_none_iff_forall_ne_some]
  constructor
  · intro h rest hline
    exact h _ (importPath?_eq_some_iff.2 ⟨rest, hline, rfl⟩)
  · intro h path hpath
    obtain ⟨rest, hline, -⟩ := importPath?_eq_some_iff.1 hpath
    exact h rest hline

/-- A line that cannot be read as a command is where the error says. -/
theorem Command.origin_of_parse
    {text : String}
    {l : Location}
    {e : Error}
    (h : parse text l = .error e) :
    e.origin = some l := by
  simp only [parse] at h
  split at h
  · cases h
  · split at h
    · cases h
    · cases h
      rfl

theorem Command.location_of_parse
    {text : String}
    {l : Location}
    {c : Command}
    (h : parse text l = .ok c) :
    c.location = l := by
  simp only [parse] at h
  split at h
  · cases h
    rfl
  · split at h
    · cases h
      rfl
    · cases h

/-- What is wrong with a command: no operation has its name, or the operation does not take its
arguments. -/
inductive Command.HasFault (c : Command) : Fault → Prop
  | unknown
      (hop : Op.ofName? c.name = none) :
      HasFault c (.unknownCommand c.name)
  | mismatch
      {op : Op}
      (hop : Op.ofName? c.name = some op)
      (hkinds : op.accepts c.kinds = false) :
      HasFault c
        (.shapeMismatch c.name op.describeShapes (", ".intercalate (c.kinds.map Kind.name)))

theorem Statement.ofCommand_eq_error_iff_hasFault
    {c : Command}
    {e : Error} :
    ofCommand c = .error e ↔ c.HasFault e.fault ∧ e.origin = some c.location := by
  rw [ofCommand_eq_error_iff]
  constructor
  · rintro (⟨hop, rfl⟩ | ⟨op, hop, hkinds, rfl⟩)
    · exact ⟨.unknown hop, rfl⟩
    · exact ⟨.mismatch hop hkinds, rfl⟩
  · obtain ⟨fault, origin⟩ := e
    rintro ⟨hfault, rfl⟩
    cases hfault with
    | unknown hop => exact Or.inl ⟨hop, rfl⟩
    | mismatch hop hkinds => exact Or.inr ⟨_, hop, hkinds, rfl⟩

namespace Reader

open SourceLine (number)

/-- A directive cannot be followed, for it names no file, or the file cannot be read. The error is
placed at the directive. -/
inductive DirectiveFails (read : Reader) (line : SourceLine) : Error → Prop
  | blank
      {rest : List Char}
      (hline : line.IsDirective rest)
      (hrest : Text.trim rest = []) :
      DirectiveFails read line { fault := .missingImportPath, origin := some line.location }
  | unreadable
      {rest : List Char} {e : Error}
      (hline : line.IsDirective rest)
      (hrest : Text.trim rest ≠ [])
      (hread : read (String.ofList (Text.trim rest)) = .error e) :
      DirectiveFails read line (e.locate line.location)

/-- A line stands for lines: for itself if it is no directive, else for those of the file that it
names, each at its own place in that file. -/
inductive StandsFor (read : Reader) (line : SourceLine) : List SourceLine → Prop
  | itself
      (hline : ∀ rest, ¬ line.IsDirective rest) :
      StandsFor read line [line]
  | file
      {rest : List Char} {texts : List String}
      (hline : line.IsDirective rest)
      (hrest : Text.trim rest ≠ [])
      (hread : read (String.ofList (Text.trim rest)) = .ok texts) :
      StandsFor read line (number (String.ofList (Text.trim rest)) texts)

/-- The lines that the texts of an entry file stand for, in order. -/
def Spliced (read : Reader) (entry : String) (texts : List String) (lines : List SourceLine) :
    Prop :=
  ∃ parts, List.Forall₂ read.StandsFor (number entry texts) parts ∧ parts.flatten = lines

/-- A line reads as a command. -/
def Parses (line : SourceLine) (c : Command) : Prop :=
  Command.parse line.text line.location = .ok c

/-- A line reads as a command that is well formed. -/
def IsValid (line : SourceLine) : Prop :=
  ∃ c s, Parses line c ∧ Statement.ofCommand c = .ok s

/-- How a load fails. In turn: the entry file cannot be read; a directive fails, and none before it;
all directives can be followed, and a line cannot be read, but those before it; all lines can be
read, and a command is not well formed, but those before it. -/
inductive LoadFails (read : Reader) (entry : String) : Error → Prop
  | entry
      {e : Error}
      (h : read entry = .error e) :
      LoadFails read entry e
  | directive
      {texts : List String} {front back : List SourceLine} {line : SourceLine} {e : Error}
      (hentry : read entry = .ok texts)
      (hlines : number entry texts = front ++ line :: back)
      (hfront : ∀ l ∈ front, ∀ e', ¬ read.DirectiveFails l e')
      (hline : read.DirectiveFails line e) :
      LoadFails read entry e
  | text
      {texts : List String} {front back : List SourceLine} {line : SourceLine} {e : Error}
      (hentry : read entry = .ok texts)
      (hlines : read.Spliced entry texts (front ++ line :: back))
      (hfront : ∀ l ∈ front, ∃ c, Parses l c)
      (hline : Command.parse line.text line.location = .error e)
      (horigin : e.origin = some line.location) :
      LoadFails read entry e
  | command
      {texts : List String} {front back : List SourceLine} {line : SourceLine} {c : Command}
      {e : Error}
      (hentry : read entry = .ok texts)
      (hlines : read.Spliced entry texts (front ++ line :: back))
      (hparses : ∀ l ∈ front ++ line :: back, ∃ c, Parses l c)
      (hfront : ∀ l ∈ front, IsValid l)
      (hline : Parses line c)
      (hfault : c.HasFault e.fault)
      (horigin : e.origin = some line.location) :
      LoadFails read entry e

variable {read : Reader} {entry : String}

theorem StandsFor.splice
    {line : SourceLine}
    {part : List SourceLine}
    (h : read.StandsFor line part) :
    read.splice line = .ok part := by
  cases h with
  | itself hline =>
      rw [Reader.splice, SourceLine.importPath?_eq_none_iff.2 hline]
  | @file rest texts hline hrest hread =>
      have hpath := SourceLine.importPath?_eq_some_iff.2 ⟨rest, hline, rfl⟩
      simp [Reader.splice, hpath, hrest, hread]

theorem DirectiveFails.splice
    {line : SourceLine}
    {e : Error}
    (h : read.DirectiveFails line e) :
    read.splice line = .error e := by
  cases h with
  | @blank rest hline hrest =>
      have hpath := SourceLine.importPath?_eq_some_iff.2 ⟨rest, hline, rfl⟩
      simp [Reader.splice, hpath, hrest]
  | @unreadable rest e hline hrest hread =>
      have hpath := SourceLine.importPath?_eq_some_iff.2 ⟨rest, hline, rfl⟩
      simp [Reader.splice, hpath, hrest, hread]

/-- A line stands for lines or is a directive that fails. -/
theorem standsFor_or_fails
    (read : Reader)
    (line : SourceLine) :
    (∃ part, read.StandsFor line part) ∨ ∃ e, read.DirectiveFails line e := by
  by_cases hline : ∃ rest, line.IsDirective rest
  · obtain ⟨rest, hline⟩ := hline
    by_cases hrest : Text.trim rest = []
    · exact Or.inr ⟨_, .blank hline hrest⟩
    · cases hread : read (String.ofList (Text.trim rest)) with
      | ok texts => exact Or.inl ⟨_, .file hline hrest hread⟩
      | error e => exact Or.inr ⟨_, .unreadable hline hrest hread⟩
  · exact Or.inl ⟨_, .itself (not_exists.1 hline)⟩

theorem splice_eq_ok_iff
    {line : SourceLine}
    {part : List SourceLine} :
    read.splice line = .ok part ↔ read.StandsFor line part := by
  refine ⟨fun h => ?_, StandsFor.splice⟩
  rcases standsFor_or_fails read line with ⟨part', hpart⟩ | ⟨e, he⟩
  · rw [hpart.splice] at h
    cases h
    exact hpart
  · rw [he.splice] at h
    cases h

theorem splice_eq_error_iff
    {line : SourceLine}
    {e : Error} :
    read.splice line = .error e ↔ read.DirectiveFails line e := by
  refine ⟨fun h => ?_, DirectiveFails.splice⟩
  rcases standsFor_or_fails read line with ⟨part, hpart⟩ | ⟨e', he⟩
  · rw [hpart.splice] at h
    cases h
  · rw [he.splice] at h
    cases h
    exact he

/-- A line can be spliced when it is no directive that fails. -/
theorem exists_splice_iff
    {line : SourceLine} :
    (∃ part, read.splice line = .ok part) ↔ ∀ e, ¬ read.DirectiveFails line e := by
  constructor
  · rintro ⟨part, hpart⟩ e he
    rw [he.splice] at hpart
    cases hpart
  · intro h
    rcases standsFor_or_fails read line with ⟨part, hpart⟩ | ⟨e, he⟩
    · exact ⟨part, hpart.splice⟩
    · exact absurd he (h e)

/-- The first two stages give the spliced lines. -/
theorem loadLines_eq_ok_iff
    {lines : List SourceLine} :
    read.loadLines entry = .ok lines ↔
      ∃ texts, read entry = .ok texts ∧ read.Spliced entry texts lines := by
  constructor
  · intro h
    obtain ⟨texts, hentry, h⟩ := bind_eq_ok_iff.1 h
    obtain ⟨parts, hparts, h⟩ := bind_eq_ok_iff.1 h
    cases h
    refine ⟨texts, hentry, parts, ?_, rfl⟩
    exact (forall₂_of_mapM hparts).imp fun line part => splice_eq_ok_iff.1
  · rintro ⟨texts, hentry, parts, hparts, rfl⟩
    have hsplice : (number entry texts).mapM read.splice = .ok parts :=
      mapM_of_forall₂ (hparts.imp fun line part => splice_eq_ok_iff.2)
    exact bind_eq_ok_iff.2 ⟨texts, hentry, bind_eq_ok_iff.2 ⟨parts, hsplice, rfl⟩⟩

/-- The first two stages fail on the entry file or on its first directive that fails. -/
theorem loadLines_eq_error_iff
    {e : Error} :
    read.loadLines entry = .error e ↔
      read entry = .error e ∨
      ∃ texts front line back,
        read entry = .ok texts ∧
        number entry texts = front ++ line :: back ∧
        (∀ l ∈ front, ∀ e', ¬ read.DirectiveFails l e') ∧
        read.DirectiveFails line e := by
  simp only [loadLines, bind_eq_error_iff, mapM_eq_error_iff, exists_splice_iff,
    splice_eq_error_iff]
  constructor
  · rintro (h | ⟨texts, hentry, ⟨front, line, back, h⟩ | ⟨parts, -, h⟩⟩)
    · exact Or.inl h
    · exact Or.inr ⟨texts, front, line, back, hentry, h⟩
    · cases h
  · rintro (h | ⟨texts, front, line, back, hentry, h⟩)
    · exact Or.inl h
    · exact Or.inr ⟨texts, hentry, Or.inl ⟨front, line, back, h⟩⟩

/-- The third stage fails after the first two, on the first line that cannot be read. -/
theorem loadCommands_eq_error_iff
    {e : Error} :
    read.loadCommands entry = .error e ↔
      read.loadLines entry = .error e ∨
      ∃ front line back,
        read.loadLines entry = .ok (front ++ line :: back) ∧
        (∀ l ∈ front, ∃ c, Parses l c) ∧
        Command.parse line.text line.location = .error e := by
  simp only [loadCommands, bind_eq_error_iff, mapM_eq_error_iff]
  constructor
  · rintro (h | ⟨lines, hlines, front, line, back, rfl, h⟩)
    · exact Or.inl h
    · exact Or.inr ⟨front, line, back, hlines, h⟩
  · rintro (h | ⟨front, line, back, hlines, h⟩)
    · exact Or.inl h
    · exact Or.inr ⟨_, hlines, front, line, back, rfl, h⟩

/-- A line is no directive that fails when a file can be read that it names, if it is a
directive. -/
theorem not_fails_iff
    {line : SourceLine} :
    (∀ e, ¬ read.DirectiveFails line e) ↔
      ∀ rest, line.IsDirective rest →
        Text.trim rest ≠ [] ∧ ∃ texts, read (String.ofList (Text.trim rest)) = .ok texts := by
  constructor
  · intro h rest hline
    have hrest : Text.trim rest ≠ [] := fun hrest => h _ (.blank hline hrest)
    refine ⟨hrest, ?_⟩
    cases hread : read (String.ofList (Text.trim rest)) with
    | ok texts => exact ⟨texts, rfl⟩
    | error e => exact absurd (.unreadable hline hrest hread) (h _)
  · intro h e he
    cases he with
    | blank hline hrest => exact (h _ hline).1 hrest
    | unreadable hline hrest hread =>
        obtain ⟨-, texts, htexts⟩ := h _ hline
        rw [hread] at htexts
        cases htexts

/-- The last two stages, on lines that can all be read: a load fails on the first command that is
not well formed. -/
theorem load_eq_error_of_parsed
    {lines : List SourceLine}
    {commands : List Command}
    {e : Error}
    (h : lines.mapM (fun line => Command.parse line.text line.location) = .ok commands) :
    Program.ofCommands commands = .error e ↔
      ∃ front line back c,
        lines = front ++ line :: back ∧
        (∀ l ∈ front, IsValid l) ∧
        Parses line c ∧
        Statement.ofCommand c = .error e := by
  have hcheck : Program.ofCommands commands = .error e ↔
      commands.mapM Statement.ofCommand = .error e := by
    rw [Program.ofCommands, bind_eq_error_iff]
    constructor
    · rintro (h | ⟨code, -, h⟩)
      · exact h
      · cases h
    · exact Or.inl
  rw [hcheck, mapM_of_mapM_eq_ok h, mapM_eq_error_iff]
  constructor
  · rintro ⟨front, line, back, rfl, hfront, hline⟩
    refine ⟨front, line, back, ?_⟩
    obtain ⟨c, hc⟩ := exists_mapM_eq_ok_iff.1 ⟨commands, h⟩ line (by simp)
    rw [hc] at hline
    refine ⟨c, rfl, fun l hl => ?_, hc, hline⟩
    obtain ⟨s, hs⟩ := hfront l hl
    obtain ⟨d, hd, hs⟩ := bind_eq_ok_iff.1 hs
    exact ⟨d, s, hd, hs⟩
  · rintro ⟨front, line, back, c, rfl, hfront, hline, hc⟩
    refine ⟨front, line, back, rfl, fun l hl => ?_, ?_⟩
    · obtain ⟨d, s, hd, hs⟩ := hfront l hl
      exact ⟨s, bind_eq_ok_iff.2 ⟨d, hd, hs⟩⟩
    · exact bind_eq_error_iff.2 (Or.inr ⟨c, hline, hc⟩)

/-- **A load fails as described**: with the error of the first stage that fails. -/
theorem load_eq_error_iff
    {e : Error} :
    read.load entry = .error e ↔ read.LoadFails entry e := by
  constructor
  · intro h
    rcases bind_eq_error_iff.1 h with h | ⟨commands, hcommands, h⟩
    · rcases loadCommands_eq_error_iff.1 h with h | ⟨front, line, back, hlines, hfront, hline⟩
      · rcases loadLines_eq_error_iff.1 h with
          h | ⟨texts, front, line, back, hentry, hnumber, hfront, hline⟩
        · exact .entry h
        · exact .directive hentry hnumber hfront hline
      · obtain ⟨texts, hentry, hspliced⟩ := loadLines_eq_ok_iff.1 hlines
        exact .text hentry hspliced hfront hline (Command.origin_of_parse hline)
    · obtain ⟨lines, hlines, hparse⟩ := bind_eq_ok_iff.1 hcommands
      obtain ⟨front, line, back, c, rfl, hfront, hline, hc⟩ :=
        (load_eq_error_of_parsed hparse).1 h
      obtain ⟨texts, hentry, hspliced⟩ := loadLines_eq_ok_iff.1 hlines
      have hparses := exists_mapM_eq_ok_iff.1 ⟨commands, hparse⟩
      obtain ⟨hfault, horigin⟩ := Statement.ofCommand_eq_error_iff_hasFault.1 hc
      rw [Command.location_of_parse hline] at horigin
      exact .command hentry hspliced hparses hfront hline hfault horigin
  · intro h
    cases h with
    | entry h =>
        have hlines := loadLines_eq_error_iff.2 (Or.inl h)
        exact bind_eq_error_iff.2 (Or.inl (loadCommands_eq_error_iff.2 (Or.inl hlines)))
    | directive hentry hnumber hfront hline =>
        have hlines :=
          loadLines_eq_error_iff.2 (Or.inr ⟨_, _, _, _, hentry, hnumber, hfront, hline⟩)
        exact bind_eq_error_iff.2 (Or.inl (loadCommands_eq_error_iff.2 (Or.inl hlines)))
    | text hentry hspliced hfront hline horigin =>
        have hlines := loadLines_eq_ok_iff.2 ⟨_, hentry, hspliced⟩
        have hcommands :=
          loadCommands_eq_error_iff.2 (Or.inr ⟨_, _, _, hlines, hfront, hline⟩)
        exact bind_eq_error_iff.2 (Or.inl hcommands)
    | command hentry hspliced hparses hfront hline hfault horigin =>
        have hlines := loadLines_eq_ok_iff.2 ⟨_, hentry, hspliced⟩
        obtain ⟨commands, hparse⟩ := exists_mapM_eq_ok_iff.2 hparses
        have hcommands : read.loadCommands entry = .ok commands :=
          bind_eq_ok_iff.2 ⟨_, hlines, hparse⟩
        rw [← Command.location_of_parse hline] at horigin
        have hc := Statement.ofCommand_eq_error_iff_hasFault.2 ⟨hfault, horigin⟩
        refine bind_eq_error_iff.2 (Or.inr ⟨commands, hcommands, ?_⟩)
        exact (load_eq_error_of_parsed hparse).2 ⟨_, _, _, _, rfl, hfront, hline, hc⟩

/-- A load succeeds when the entry file stands for lines that all read as well formed commands. -/
theorem exists_load_iff_valid :
    (∃ p, read.load entry = .ok p) ↔
      ∃ texts lines,
        read entry = .ok texts ∧
        read.Spliced entry texts lines ∧
        ∀ line ∈ lines, IsValid line := by
  constructor
  · rintro ⟨p, hp⟩
    obtain ⟨commands, hcommands, hp⟩ := bind_eq_ok_iff.1 hp
    obtain ⟨lines, hlines, hparse⟩ := bind_eq_ok_iff.1 hcommands
    obtain ⟨texts, hentry, hspliced⟩ := loadLines_eq_ok_iff.1 hlines
    have hcheck := Program.code_of_ofCommands hp
    rw [mapM_of_mapM_eq_ok hparse] at hcheck
    refine ⟨texts, lines, hentry, hspliced, fun line hline => ?_⟩
    obtain ⟨s, hs⟩ := exists_mapM_eq_ok_iff.1 ⟨_, hcheck⟩ line hline
    obtain ⟨c, hc, hs⟩ := bind_eq_ok_iff.1 hs
    exact ⟨c, s, hc, hs⟩
  · rintro ⟨texts, lines, hentry, hspliced, hvalid⟩
    have hlines := loadLines_eq_ok_iff.2 ⟨texts, hentry, hspliced⟩
    obtain ⟨commands, hparse⟩ := exists_mapM_eq_ok_iff.2 fun line hline =>
      let ⟨c, _, hc, _⟩ := hvalid line hline
      ⟨c, hc⟩
    obtain ⟨code, hcode⟩ : ∃ code, commands.mapM Statement.ofCommand = .ok code := by
      rw [mapM_of_mapM_eq_ok hparse]
      refine exists_mapM_eq_ok_iff.2 fun line hline => ?_
      obtain ⟨c, s, hc, hs⟩ := hvalid line hline
      exact ⟨s, bind_eq_ok_iff.2 ⟨c, hc, hs⟩⟩
    have hcommands : read.loadCommands entry = .ok commands :=
      bind_eq_ok_iff.2 ⟨lines, hlines, hparse⟩
    exact ⟨.ofCode code.toArray,
      bind_eq_ok_iff.2 ⟨commands, hcommands, bind_eq_ok_iff.2 ⟨code, hcode, rfl⟩⟩⟩

/-- **The outcome of a load.** An entry file loads exactly when it can be read, every line of it
that starts with the word of a directive names a file behind the word and that file can be read, and
every line that the entry file then stands for reads as a command that is well formed. Otherwise the
load fails as `LoadFails` says, which is one stage after the other, and it fails in no other way.
The places in its errors are those of the lines in their files, counted from one on. -/
theorem load_outcome
    (read : Reader)
    (entry : String) :
    ((∃ p, read.load entry = .ok p) ↔
      ∃ texts,
        read entry = .ok texts ∧
        (∀ line ∈ number entry texts, ∀ rest, line.IsDirective rest →
          Text.trim rest ≠ [] ∧ ∃ imported, read (String.ofList (Text.trim rest)) = .ok imported) ∧
        ∃ lines, read.Spliced entry texts lines ∧ ∀ line ∈ lines, IsValid line) ∧
    (∀ e, read.load entry = .error e ↔ read.LoadFails entry e) ∧
    ∀ (file : String) (texts : List String) (i : Nat),
      (number file texts)[i]? =
        texts[i]?.map fun text => { text, location := { file, line := i + 1 } } := by
  refine ⟨?_, fun e => load_eq_error_iff, SourceLine.getElem?_number⟩
  rw [exists_load_iff_valid]
  constructor
  · rintro ⟨texts, lines, hentry, hspliced, hvalid⟩
    refine ⟨texts, hentry, fun line hline => ?_, lines, hspliced, hvalid⟩
    obtain ⟨parts, hparts, -⟩ := hspliced
    obtain ⟨part, -, hpart⟩ := exists_of_mem_forall₂ hparts hline
    exact not_fails_iff.1 (exists_splice_iff.1 ⟨part, hpart.splice⟩)
  · rintro ⟨texts, hentry, -, lines, hspliced, hvalid⟩
    exact ⟨texts, lines, hentry, hspliced, hvalid⟩

/-- An unknown command, then an argument without a sigil, then an import of a missing file. -/
def threeFaults : List String :=
  ["frobnicate", "put: x", "!import gone"]

/-- The reader of an entry file with the first lines of `threeFaults`. -/
def readingFaults (n : Nat) : Reader :=
  fun path =>
    if path = "main" then .ok (threeFaults.take n)
    else .error { fault := .unreadable path "no such file" }

/-- The faults come to light from the last line to the first, as the later stages are reached. -/
theorem load_outcome_of_threeFaults :
    (readingFaults 3).LoadFails "main"
      { fault := .unreadable "gone" "no such file", origin := some { file := "main", line := 3 } } ∧
    (readingFaults 2).LoadFails "main"
      { fault := .unrecognizedSigil 'x', origin := some { file := "main", line := 2 } } ∧
    (readingFaults 1).LoadFails "main"
      { fault := .unknownCommand "frobnicate", origin := some { file := "main", line := 1 } } ∧
    ∃ p, (readingFaults 0).load "main" = .ok p := by
  refine ⟨((load_outcome _ _).2.1 _).1 ?_, ((load_outcome _ _).2.1 _).1 ?_,
    ((load_outcome _ _).2.1 _).1 ?_, ?_⟩
  · rfl
  · rfl
  · rfl
  · refine (load_outcome _ _).1.2 ⟨[], rfl, nofun, [], ⟨[], .nil, rfl⟩, nofun⟩

end Reader
end Trapline
