import Trapline.Proofs.Faults
import Trapline.Proofs.Reading
import Trapline.Proofs.Run
import Trapline.Proofs.Stages

/-!
# Where errors are placed

A message names a line of a file. It has to be the line that the trouble comes from, although lines
are moved by imports, and although a step may have set the position elsewhere by the time it fails.
Loading and running fail with faults of two separate sorts, so that the fault alone tells which of
the two went wrong.

Main statements:
* `Reader.hasLine_of_loadLines`: the lines that are loaded stand where they say.
* `Reader.rejects_of_load`: which line an error of loading is about.
* `Machine.origin_of_step`: an error of a step is placed at the statement that was executed.
* `Machine.diagnostics_of_load`: all of it for one entry file.
-/

namespace Trapline

theorem Error.locateIfUnplaced_of_none
    {e : Error}
    {l : Location}
    (h : e.origin = none) :
    e.locateIfUnplaced l = e.locate l := by
  rw [locateIfUnplaced, locate, h, Option.none_or]

namespace Fault

/-- A fault of a run is no fault of loading. -/
theorem isLoadFault_eq_false_of_isRunFault
    {fault : Fault}
    (h : fault.isRunFault = true) :
    fault.isLoadFault = false := by
  cases fault with
  | unrecognizedSigil _ | emptyArgument | missingCharacter | integerOutOfRange _
  | missingImportPath | unreadable _ _ | unknownCommand _ | shapeMismatch _ _ _ =>
      cases h
  | _ =>
      rfl

end Fault

theorem Integer.isLoadFault_of_read
    {text : List Char}
    {fault : Fault}
    (h : read text = .error fault) :
    fault.isLoadFault = true := by
  simp only [read] at h
  split at h
  · cases h
  · cases h
    rfl

namespace Argument

variable {text : List Char} {fault : Fault}

theorem isLoadFault_of_parse
    (h : parse text = .error fault) :
    fault.isLoadFault = true := by
  unfold parse at h
  split at h
  · cases h
    rfl
  · rename_i sigil rest
    split at h
    · cases hread : Integer.read rest with
      | ok n =>
          rw [hread] at h
          cases h
      | error fault' =>
          rw [hread] at h
          cases h
          exact Integer.isLoadFault_of_read hread
    · split at h
      · cases h
      · split at h
        · split at h
          · cases h
            rfl
          · cases h
        · split at h
          · cases h
          · split at h
            · cases h
            · cases h
              rfl

theorem isLoadFault_of_parseLabel
    (h : parseLabel text = .error fault) :
    fault.isLoadFault = true := by
  simp only [parseLabel] at h
  generalize (if text.head? = some ':' then text.tail else text) = name at h
  by_cases hempty : name.isEmpty = true
  · rw [if_pos hempty] at h
    cases h
    rfl
  · rw [if_neg hempty] at h
    cases h

end Argument

namespace Command

variable {text : String} {l : Location} {e : Error}

/-- A line that cannot be read is where the error says, and the fault is one of loading. -/
theorem error_of_parse
    (h : parse text l = .error e) :
    e.origin = some l ∧ e.fault.isLoadFault = true := by
  simp only [parse] at h
  split at h
  · cases h
  · split at h
    · cases h
    · rename_i fault hfault
      cases h
      refine ⟨rfl, ?_⟩
      unfold parseArguments at hfault
      split at hfault
      · obtain ⟨-, piece, -, -, -, hpiece⟩ := exists_of_mapM_eq_error hfault
        exact Argument.isLoadFault_of_parseLabel hpiece
      · obtain ⟨-, piece, -, -, -, hpiece⟩ := exists_of_mapM_eq_error hfault
        exact Argument.isLoadFault_of_parse hpiece

end Command

theorem Statement.error_of_ofCommand
    {c : Command}
    {e : Error}
    (h : ofCommand c = .error e) :
    e.origin = some c.location ∧ e.fault.isLoadFault = true := by
  rcases ofCommand_eq_error_iff.1 h with ⟨-, rfl⟩ | ⟨op, -, -, rfl⟩
  · exact ⟨rfl, rfl⟩
  · exact ⟨rfl, rfl⟩

namespace Reader

variable {read : Reader} {entry : String}

/-- The line with the given text stands in a file of the reader, at the given place. -/
def HasLine (read : Reader) (text : String) (l : Location) : Prop :=
  ∃ texts,
    read l.file = .ok texts ∧
    1 ≤ l.line ∧
    l.line ≤ texts.length ∧
    texts[l.line - 1]? = some text

/-- The numbered lines of a file stand in it. -/
theorem hasLine_of_number
    {path : String}
    {texts : List String}
    {line : SourceLine}
    (hpath : read path = .ok texts)
    (h : line ∈ SourceLine.number path texts) :
    read.HasLine line.text line.location := by
  obtain ⟨i, hi⟩ := List.mem_iff_getElem?.1 h
  rw [SourceLine.getElem?_number, Option.map_eq_some_iff] at hi
  obtain ⟨text, htext, rfl⟩ := hi
  have hlt := (List.getElem?_eq_some_iff.1 htext).1
  exact ⟨texts, hpath, Nat.le_add_left 1 i, hlt, htext⟩

/-- The lines that a line stands for stand where they say. -/
theorem hasLine_of_splice
    {line line' : SourceLine}
    {part : List SourceLine}
    (hline : read.HasLine line.text line.location)
    (h : read.splice line = .ok part)
    (hline' : line' ∈ part) :
    read.HasLine line'.text line'.location := by
  unfold splice at h
  split at h
  · cases h
    rw [List.mem_singleton.1 hline']
    exact hline
  · split at h
    · cases h
    · split at h
      · rename_i texts hpath
        cases h
        exact hasLine_of_number hpath hline'
      · cases h

/-- The lines of a loaded file, its imports included, stand where they say. -/
theorem hasLine_of_loadLines
    {lines : List SourceLine}
    {line : SourceLine}
    (h : read.loadLines entry = .ok lines)
    (hline : line ∈ lines) :
    read.HasLine line.text line.location := by
  obtain ⟨texts, hentry, h⟩ := bind_eq_ok_iff.1 h
  obtain ⟨parts, hparts, h⟩ := bind_eq_ok_iff.1 h
  cases h
  obtain ⟨part, hpart, hline⟩ := List.mem_flatten.1 hline
  obtain ⟨line₀, hline₀, hsplice⟩ := exists_of_mem_mapM hparts hpart
  exact hasLine_of_splice (hasLine_of_number hentry hline₀) hsplice hline

/-- A directive that cannot be followed is where the error says. It names no file, or the file
cannot be read. -/
theorem error_of_splice
    {line : SourceLine}
    {e : Error}
    (h : read.splice line = .error e) :
    e.origin = some line.location ∧
    (e.fault = .missingImportPath ∨ ∃ path e₀, read path = .error e₀ ∧ e.fault = e₀.fault) := by
  cases splice_eq_error_iff.1 h with
  | blank =>
      exact ⟨rfl, Or.inl rfl⟩
  | unreadable hline hrest hread =>
      exact ⟨rfl, Or.inr ⟨_, _, hread, rfl⟩⟩

/-- How a line makes loading fail: as a directive, by its text, or by the command on it. -/
inductive Rejects (read : Reader) (line : SourceLine) (e : Error) : Prop
  | directive
      (h : read.splice line = .error e)
  | text
      (h : Command.parse line.text line.location = .error e)
  | command
      {c : Command}
      (hc : Command.parse line.text line.location = .ok c)
      (h : Statement.ofCommand c = .error e)

/-- An error is placed at the line that was rejected. -/
theorem Rejects.origin
    {line : SourceLine}
    {e : Error}
    (h : read.Rejects line e) :
    e.origin = some line.location := by
  cases h with
  | directive h =>
      exact (error_of_splice h).1
  | text h =>
      exact (Command.error_of_parse h).1
  | command hc h =>
      rw [(Statement.error_of_ofCommand h).1, Command.location_of_parse hc]

/-- A rejected line has a fault of loading, as soon as the reader has no others. -/
theorem Rejects.isLoadFault
    {line : SourceLine}
    {e : Error}
    (hread : ∀ path e, read path = .error e → e.fault.isLoadFault = true)
    (h : read.Rejects line e) :
    e.fault.isLoadFault = true := by
  cases h with
  | directive h =>
      obtain ⟨-, hfault | ⟨path, e₀, hpath, hfault⟩⟩ := error_of_splice h
      · rw [hfault]
        rfl
      · rw [hfault]
        exact hread path e₀ hpath
  | text h =>
      exact (Command.error_of_parse h).2
  | command hc h =>
      exact (Statement.error_of_ofCommand h).2

/-- Loading fails because the entry file cannot be read, or because of a line that stands in one of
the files. -/
theorem rejects_of_load
    {e : Error}
    (h : read.load entry = .error e) :
    read entry = .error e ∨
    ∃ line : SourceLine, read.HasLine line.text line.location ∧ read.Rejects line e := by
  cases load_eq_error_iff.1 h with
  | entry h =>
      exact Or.inl h
  | @directive texts front back line _ hentry hnumber _ hline =>
      have hmem : line ∈ SourceLine.number entry texts := by simp [hnumber]
      exact Or.inr ⟨line, hasLine_of_number hentry hmem, .directive hline.splice⟩
  | @text texts front back line _ hentry hspliced _ hline _ =>
      have hlines := loadLines_eq_ok_iff.2 ⟨texts, hentry, hspliced⟩
      exact Or.inr ⟨line, hasLine_of_loadLines hlines (by simp), .text hline⟩
  | @command texts front back line c _ hentry hspliced _ _ hline hfault horigin =>
      have hlines := loadLines_eq_ok_iff.2 ⟨texts, hentry, hspliced⟩
      rw [← Command.location_of_parse hline] at horigin
      have hc := Statement.ofCommand_eq_error_iff_hasFault.2 ⟨hfault, horigin⟩
      exact Or.inr ⟨line, hasLine_of_loadLines hlines (by simp), .command hline hc⟩

/-- A statement of a loaded program is that of the line where it says it stands. -/
theorem hasLine_of_load
    {p : Program}
    {position : Nat}
    {s : Statement}
    (h : read.load entry = .ok p)
    (hs : p.get? position = some s) :
    ∃ text c,
      read.HasLine text s.location ∧
      Command.parse text s.location = .ok c ∧
      Statement.ofCommand c = .ok s := by
  obtain ⟨lines, line, c, hlines, hline, hc, hs⟩ := line_of_load h hs
  have hlocation : s.location = line.location := by
    rw [(Statement.eq_of_ofCommand hs).2.2, Command.location_of_parse hc]
  rw [hlocation]
  exact ⟨line.text, c, hasLine_of_loadLines hlines (List.mem_of_getElem? hline), hc, hs⟩

end Reader

namespace Machine

variable {σ : Type} [Sink σ]

/-- An error of a step is placed at the statement that was executed and has a fault of a run, or it
is the error of the sink. The latter is placed there unless it has a place of its own. -/
theorem origin_of_step
    {p : Program}
    {limit : Option Nat}
    {m m' : Machine σ}
    {e : Error}
    (h : m.step p limit = .failed e m') :
    ∃ s,
      p.get? m.position = some s ∧
      ((e.origin = some s.location ∧ e.fault.isRunFault = true) ∨
        ∃ e₀, Refused m s.action e₀ ∧ e = e₀.locateIfUnplaced s.location) := by
  cases hget : p.get? m.position with
  | none =>
      rw [step_of_end hget] at h
      cases h
  | some s =>
      refine ⟨s, rfl, ?_⟩
      cases hlimit : limit.filter (· < m.steps + 1) with
      | some n =>
          rw [step_of_limit hget hlimit] at h
          cases h
          exact Or.inl ⟨rfl, rfl⟩
      | none =>
          rw [step_eq_exec hget hlimit] at h
          cases hexec : m.count.exec p s.action with
          | running m₁ =>
              simp [hexec, finish] at h
          | halted status m₁ =>
              simp [hexec, finish] at h
          | failed e₀ m₁ =>
              simp only [hexec, finish, Progress.failed.injEq] at h
              obtain ⟨rfl, rfl⟩ := h
              rcases raises_of_exec hexec with hrefused | ⟨fault, rfl, hraises⟩
              · exact Or.inr ⟨e₀, hrefused, rfl⟩
              · exact Or.inl ⟨rfl, hraises.isRunFault⟩

/-- **Every message names the line it is about, and tells loading from running.** When an entry file
loads, every statement stands at a line of a file that the reader gives, and that line reads as the
statement. When a step of the program then fails, whatever the machine, the error is placed at the
statement at the position where the step began, and its fault is none of loading unless it is the
sink's own; the sink has to leave the place of its errors open. When the entry file does not load,
the error is that of reading it, or it is placed at a line of a file that was rejected. Its fault is
one of loading if the reader fails with nothing else than unreadable files. -/
theorem diagnostics_of_load
    (read : Reader)
    (entry : String) :
    (∀ p, read.load entry = .ok p →
      (∀ position s, p.get? position = some s →
        ∃ texts text c,
          read s.location.file = .ok texts ∧
          1 ≤ s.location.line ∧
          s.location.line ≤ texts.length ∧
          texts[s.location.line - 1]? = some text ∧
          Command.parse text s.location = .ok c ∧
          Statement.ofCommand c = .ok s) ∧
      ((∀ (out out' : σ) (line : String) (e : Error),
          Sink.write out line = (.error e, out') → e.origin = none) →
        ∀ (limit : Option Nat) (m m' : Machine σ) (e : Error),
          m.step p limit = .failed e m' →
          ∃ s,
            p.get? m.position = some s ∧
            e.origin = some s.location ∧
            (e.fault.isLoadFault = false ∨
              ∃ e₀, Refused m s.action e₀ ∧ e = e₀.locate s.location))) ∧
    ∀ e, read.load entry = .error e →
      (read entry = .error e ∨
        ∃ line : SourceLine,
          read.HasLine line.text line.location ∧
          read.Rejects line e ∧
          e.origin = some line.location) ∧
      ((∀ path e, read path = .error e →
          ∃ path' message, e.fault = .unreadable path' message) →
        e.fault.isLoadFault = true) := by
  constructor
  · intro p hload
    constructor
    · intro position s hs
      obtain ⟨text, c, ⟨texts, hfile, hone, hle, htext⟩, hc, hs⟩ := Reader.hasLine_of_load hload hs
      exact ⟨texts, text, c, hfile, hone, hle, htext, hc, hs⟩
    · intro hsink limit m m' e h
      obtain ⟨s, hget, ⟨horigin, hfault⟩ | ⟨e₀, hrefused, rfl⟩⟩ := origin_of_step h
      · exact ⟨s, hget, horigin, Or.inl (Fault.isLoadFault_eq_false_of_isRunFault hfault)⟩
      · have hunplaced : e₀.origin = none := by
          obtain ⟨value, v, out', -, -, hwrite⟩ := hrefused
          exact hsink _ _ _ _ hwrite
        rw [Error.locateIfUnplaced_of_none hunplaced]
        exact ⟨s, hget, rfl, Or.inr ⟨e₀, hrefused, rfl⟩⟩
  · intro e hload
    constructor
    · rcases Reader.rejects_of_load hload with hentry | ⟨line, hline, hrejects⟩
      · exact Or.inl hentry
      · exact Or.inr ⟨line, hline, hrejects, hrejects.origin⟩
    · intro hread
      have hreader : ∀ path e, read path = .error e → e.fault.isLoadFault = true := by
        intro path e hpath
        obtain ⟨path', message, hfault⟩ := hread path e hpath
        rw [hfault]
        rfl
      rcases Reader.rejects_of_load hload with hentry | ⟨line, -, hrejects⟩
      · exact hreader entry e hentry
      · exact hrejects.isLoadFault hreader

/-- A script that imports a loop which drops the frame of the loop in its body. -/
def importedLoop : List (String × String) :=
  [("main", "put: 'a\n!import loop"),
    ("loop", "each: :x, \"a, :body, :end\nlabel: :body\npopframe\nreturn_to_trap: :each\nlabel: :end")]

/-- The loop goes on only after the position was moved to behind the loop, and fails there for want
of a frame. The error is placed at the fourth line of the imported file all the same, where the
return stands. A script that imports a missing file fails with a fault of loading. -/
theorem diagnostics_of_importedLoop :
    (∃ p m m' e,
      (Reader.ofTexts importedLoop).load "main" = .ok p ∧
      (start p (#[] : Array String)).run p none 4 = .running m ∧
      m.step p none = .failed e m' ∧
      m'.position = 2 ∧
      e.origin = some { file := "loop", line := 4 } ∧
      e.fault.isLoadFault = false) ∧
    ∃ e,
      (Reader.ofTexts [("main", "!import gone")]).load "main" = .error e ∧
      e.fault.isLoadFault = true := by
  have hrun :
      ((Reader.ofTexts importedLoop).load "main").toOption.map (fun p =>
        let x := (start p (#[] : Array String)).run p none 4
        let y := x.machine.step p none
        (x.isRunning, (p.get? x.machine.position).map (·.location), y.error?.isSome,
          y.machine.position)) =
        some (true, some { file := "loop", line := 4 }, true, 2) := by
    decide +kernel
  have hsink : ∀ (out out' : Array String) (line : String) (e : Error),
      Sink.write out line = (.error e, out') → e.origin = none := by
    intro out out' line e hwrite
    cases hwrite
  have hreader : ∀ files path e, Reader.ofTexts files path = .error e →
      ∃ path' message, e.fault = .unreadable path' message := by
    intro files path e hpath
    unfold Reader.ofTexts at hpath
    split at hpath
    · cases hpath
    · cases hpath
      exact ⟨path, "no such file", rfl⟩
  constructor
  · obtain ⟨hloaded, -⟩ := diagnostics_of_load (σ := Array String) (.ofTexts importedLoop) "main"
    generalize (Reader.ofTexts importedLoop).load "main" = x at hrun hloaded ⊢
    cases x with
    | error e =>
        cases hrun
    | ok p =>
        simp only [Except.toOption, Option.map_some, Option.some.injEq, Prod.mk.injEq] at hrun
        obtain ⟨hrunning, hlocation, herror, hposition⟩ := hrun
        obtain ⟨e, herror⟩ := Option.isSome_iff_exists.1 herror
        have hm := Progress.isRunning_iff.1 hrunning
        have h := Progress.error?_eq_some_iff.1 herror
        obtain ⟨s, hget, horigin, hfault⟩ := (hloaded p rfl).2 hsink none _ _ e h
        refine ⟨p, _, _, e, rfl, hm, h, hposition, ?_, ?_⟩
        · rw [horigin, ← hlocation, hget]
          rfl
        · rcases hfault with hfault | ⟨e₀, ⟨value, v, out, -, -, hwrite⟩, -⟩
          · exact hfault
          · cases hwrite
  · obtain ⟨-, hfailed⟩ :=
      diagnostics_of_load (σ := Array String) (.ofTexts [("main", "!import gone")]) "main"
    have hgone :
        ((Reader.ofTexts [("main", "!import gone")]).load "main").toOption.isNone = true := by
      decide +kernel
    generalize (Reader.ofTexts [("main", "!import gone")]).load "main" = x at hgone hfailed ⊢
    cases x with
    | ok p =>
        cases hgone
    | error e =>
        exact ⟨e, rfl, (hfailed e rfl).2 (hreader _)⟩

end Machine
end Trapline
