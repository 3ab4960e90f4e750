import Mathlib.Logic.Function.Basic
import Trapline.Proofs.Relocation

/-!
# Imports stand for the lines of a file

Replacing an import directive by the lines of the file that it names moves lines to other places and
does nothing else. The lines behind the directive get new numbers, and the imported lines belong to
the entry file. The rest of the entry file has to go on meaning the same, so none of it may import
the entry file, and the imported lines may be no directives themselves: in their own file they would
not be followed.

Main statements:
* `Reader.agree_loadLines_of_inline`: the lines that are loaded have the same texts.
* `Machine.run_inline_import`: loading agrees, and so do the runs.
-/

namespace Trapline

namespace SourceLine

/-- A line imports a file when it is a directive with the path of the file. -/
def Imports (text path : String) : Prop :=
  directive? text = some path ∧ path.isEmpty = false

theorem numberFrom_append
    (file : String)
    (line : Nat)
    (texts texts' : List String) :
    numberFrom file line (texts ++ texts') =
      numberFrom file line texts ++ numberFrom file (line + texts.length) texts' := by
  induction texts generalizing line with
  | nil =>
      rfl
  | cons text texts ih =>
      rw [List.cons_append, numberFrom, numberFrom, ih, List.cons_append, List.length_cons,
        show line + 1 + texts.length = line + (texts.length + 1) by omega]

theorem text_mem_of_mem_numberFrom
    {file : String}
    {line : Nat}
    {texts : List String}
    {l : SourceLine}
    (h : l ∈ numberFrom file line texts) :
    l.text ∈ texts := by
  rw [← map_text_numberFrom file line texts]
  exact List.mem_map_of_mem h

end SourceLine

namespace Reader

open SourceLine (directive? numberFrom Imports SameTexts)

variable {read : Reader}

/-- The lines that a list of lines of the entry file stands for. -/
def spliceAll (read : Reader) (lines : List SourceLine) : Except Error (List SourceLine) := do
  let parts ← lines.mapM read.splice
  return parts.flatten

theorem loadLines_eq
    {entry : String}
    {texts : List String}
    (h : read entry = .ok texts) :
    read.loadLines entry = read.spliceAll (numberFrom entry 1 texts) := by
  rw [loadLines, h]
  rfl

/-- Splicing goes through a list of lines from front to back. -/
theorem spliceAll_append
    (front back : List SourceLine) :
    read.spliceAll (front ++ back) = do
      let lines ← read.spliceAll front
      let lines' ← read.spliceAll back
      return lines ++ lines' := by
  simp [spliceAll, List.mapM_append, List.flatten_append]

/-- Two lists of lines stand for the same texts when their parts do. -/
theorem agree_spliceAll_append
    {read' : Reader}
    {front front' back back' : List SourceLine}
    (hfront : Agree SameTexts (read.spliceAll front) (read'.spliceAll front'))
    (hback : Agree SameTexts (read.spliceAll back) (read'.spliceAll back')) :
    Agree SameTexts (read.spliceAll (front ++ back)) (read'.spliceAll (front' ++ back')) := by
  rw [spliceAll_append, spliceAll_append]
  refine hfront.bind fun lines₁ lines₁' h₁ => hback.bind fun lines₂ lines₂' h₂ => .ok ?_
  rw [SameTexts, List.map_append, List.map_append, h₁, h₂]

/-- Lines that are no directives stand for themselves. -/
theorem spliceAll_of_plain
    {lines : List SourceLine}
    (h : ∀ line ∈ lines, directive? line.text = none) :
    read.spliceAll lines = .ok lines := by
  have hparts : lines.mapM read.splice = .ok (lines.map fun line => [line]) := by
    apply mapM_of_forall₂
    rw [List.forall₂_map_right_iff, List.forall₂_same]
    intro line hline
    have hdirective : line.importPath? = none := h line hline
    rw [splice, hdirective]
  rw [spliceAll, hparts]
  simp [bind, Except.bind, pure, Except.pure, ← List.flatMap_def]

/-- A directive stands for the lines of the file. -/
theorem spliceAll_of_imports
    {text path : String}
    {texts : List String}
    (htext : Imports text path)
    (hpath : read path = .ok texts)
    (file : String)
    (line : Nat) :
    read.spliceAll (numberFrom file line [text]) = .ok (numberFrom path 1 texts) := by
  have hdirective : SourceLine.importPath? ⟨text, ⟨file, line⟩⟩ = some path := htext.1
  have hpart : read.splice ⟨text, ⟨file, line⟩⟩ = .ok (numberFrom path 1 texts) := by
    simp [splice, hdirective, htext.2, hpath, SourceLine.number]
  simp [numberFrom, spliceAll, hpart, bind, Except.bind, pure, Except.pure]

theorem sameTexts_numberFrom
    (file file' : String)
    (line line' : Nat)
    (texts : List String) :
    SameTexts (numberFrom file line texts) (numberFrom file' line' texts) := by
  rw [SameTexts, SourceLine.map_text_numberFrom, SourceLine.map_text_numberFrom]

/-- A line stands for the same texts in another place, and after a change to a file that it does not
import. -/
theorem agree_splice
    {entry : String}
    {line line' : SourceLine}
    (htext : line'.text = line.text)
    (hline : ¬ Imports line.text entry)
    (result : Except Error (List String)) :
    Agree SameTexts (read.splice line) (splice (Function.update read entry result) line') := by
  have hdirective : line'.importPath? = line.importPath? := by
    rw [SourceLine.importPath?, SourceLine.importPath?, htext]
  rw [splice, splice, hdirective]
  cases himport : line.importPath? with
  | none =>
      exact .ok (by simp [SameTexts, htext])
  | some path =>
      dsimp only
      cases hempty : path.isEmpty with
      | true =>
          exact .error rfl
      | false =>
          have hne : path ≠ entry := by
            rintro rfl
            exact hline ⟨himport, hempty⟩
          rw [Function.update_of_ne hne]
          cases read path with
          | ok texts =>
              exact .ok (sameTexts_numberFrom path path 1 1 texts)
          | error e =>
              exact .error rfl

theorem agree_spliceAll
    {entry : String}
    {lines lines' : List SourceLine}
    (htexts : SameTexts lines lines')
    (hlines : ∀ line ∈ lines, ¬ Imports line.text entry)
    (result : Except Error (List String)) :
    Agree SameTexts (read.spliceAll lines)
      (spliceAll (Function.update read entry result) lines') := by
  have hpaired := (List.forall₂_and_left _ _).2 ⟨hlines, map_eq_map_iff_forall₂.1 htexts⟩
  refine (Agree.mapM hpaired fun line line' h => agree_splice h.2 h.1 result).bind ?_
  intro parts parts' hparts
  refine .ok ?_
  rw [SameTexts, List.map_flatten, List.map_flatten, map_eq_map_iff_forall₂.2 hparts]

/-- The entry file with the lines of an imported file in place of the directive stands for lines of
the same texts. -/
theorem agree_loadLines_of_inline
    {entry path directive : String}
    {before texts after : List String}
    (hentry : read entry = .ok (before ++ directive :: after))
    (hdirective : Imports directive path)
    (hpath : read path = .ok texts)
    (htexts : ∀ text ∈ texts, directive? text = none)
    (hothers : ∀ text ∈ before ++ after, ¬ Imports text entry) :
    Agree SameTexts (read.loadLines entry)
      (loadLines (Function.update read entry (.ok (before ++ texts ++ after))) entry) := by
  have hothers' : ∀ {texts' line}, texts' ⊆ before ++ after →
      ∀ l ∈ numberFrom entry line texts', ¬ Imports l.text entry := by
    intro texts' line hsubset l hl
    exact hothers l.text (hsubset (SourceLine.text_mem_of_mem_numberFrom hl))
  rw [loadLines_eq hentry, loadLines_eq (Function.update_self ..), List.append_assoc,
    ← List.singleton_append, SourceLine.numberFrom_append, SourceLine.numberFrom_append,
    SourceLine.numberFrom_append, SourceLine.numberFrom_append]
  apply agree_spliceAll_append
  · exact agree_spliceAll rfl (hothers' (List.subset_append_left ..)) _
  apply agree_spliceAll_append
  · have hplain : ∀ line ∈ numberFrom entry (1 + before.length) texts,
        directive? line.text = none :=
      fun line hline => htexts line.text (SourceLine.text_mem_of_mem_numberFrom hline)
    rw [spliceAll_of_imports hdirective hpath, spliceAll_of_plain hplain]
    exact .ok (sameTexts_numberFrom ..)
  · exact agree_spliceAll (sameTexts_numberFrom ..) (hothers' (List.subset_append_right ..)) _

/-- Loading the entry file with the lines of an imported file in place of the directive gives the
same commands, up to their places. -/
theorem agree_loadCommands_of_inline
    {entry path directive : String}
    {before texts after : List String}
    (hentry : read entry = .ok (before ++ directive :: after))
    (hdirective : Imports directive path)
    (hpath : read path = .ok texts)
    (htexts : ∀ text ∈ texts, directive? text = none)
    (hothers : ∀ text ∈ before ++ after, ¬ Imports text entry) :
    Agree (List.Forall₂ Command.SameText) (read.loadCommands entry)
      (loadCommands (Function.update read entry (.ok (before ++ texts ++ after))) entry) :=
  (agree_loadLines_of_inline hentry hdirective hpath htexts hothers).bind
    fun _ _ => agree_parseAll

end Reader

namespace Machine

open SourceLine (directive? Imports)

/-- **An import directive stands for the lines of the file.** Take an entry file with a directive
that imports a readable file in which no line is a directive, where no other line imports the entry
file. Put the lines of that file in place of the directive. Loading then fails with the same fault,
or succeeds with the same commands, up to their places. The two programs have the same operations,
arguments and labels, and whatever the limit and the sink, their runs go through the same machines
step by step and end with the same status or the same fault. -/
theorem run_inline_import
    {read : Reader}
    {entry path directive : String}
    {before texts after : List String}
    (hentry : read entry = .ok (before ++ directive :: after))
    (hdirective : Imports directive path)
    (hpath : read path = .ok texts)
    (htexts : ∀ text ∈ texts, directive? text = none)
    (hothers : ∀ text ∈ before ++ after, ¬ Imports text entry) :
    Agree (List.Forall₂ fun c c' : Command => c'.name = c.name ∧ c'.args = c.args)
      (read.loadCommands entry)
      (Reader.loadCommands (Function.update read entry (.ok (before ++ texts ++ after))) entry) ∧
    Agree
      (fun p p' =>
        (∀ position,
          (p'.get? position).map (fun s => (s.op, s.args)) =
            (p.get? position).map (fun s => (s.op, s.args))) ∧
        (∀ name, p'.label? name = p.label? name) ∧
        ∀ (σ : Type) [Sink σ] (limit : Option Nat) (out : σ) (n : Nat),
          Progress.Related (fun m m' => m' = m) (fun m m' => m' = m)
            (fun e e' => e'.fault = e.fault)
            ((start p out).run p limit n) ((start p' out).run p' limit n))
      (read.load entry)
      (Reader.load (Function.update read entry (.ok (before ++ texts ++ after))) entry) := by
  have hcommands :=
    Reader.agree_loadCommands_of_inline hentry hdirective hpath htexts hothers
  refine ⟨hcommands.imp fun _ _ h => h.imp fun _ _ hc => ⟨hc.name, hc.args⟩, ?_⟩
  refine (hcommands.bind fun _ _ => agree_ofCommands).imp ?_
  intro p p' hactions
  refine ⟨Program.get?_of_actions hactions, congrFun (Program.label?_of_actions hactions), ?_⟩
  intro σ _ limit out n
  exact sameProgress_run hactions limit out n

/-- The lines in front of the import in `withLibrary`. -/
def frontLines : List String := ["jmp: :main", "label: :end", "exit"]

/-- The lines behind the import in `withLibrary`. -/
def backLines : List String := ["put: :x", "jmp: :end"]

/-- The lines of the file that `withLibrary` imports. -/
def libraryLines : List String := ["label: :main", "set: :x, 'a", "put: :x", "put: :y"]

/-- A script that imports the part with its label `main` and fails there. -/
def withLibrary : Reader := fun path =>
  if path = "main" then .ok (frontLines ++ "!import  library " :: backLines)
  else .ok libraryLines

/-- With the lines of the library in the script itself the run comes to the same machine and fails
with the same fault. Only the place of the error is another one. -/
theorem run_inline_import_of_withLibrary :
    ∃ p p' m e e',
      withLibrary.load "main" = .ok p ∧
      Reader.load
        (Function.update withLibrary "main" (.ok (frontLines ++ libraryLines ++ backLines)))
        "main" = .ok p' ∧
      (start p (#[] : Array String)).run p none 4 = .failed e m ∧
      (start p' (#[] : Array String)).run p' none 4 = .failed e' m ∧
      m.out = #["a"] ∧
      e = { fault := .invalidReference "y", origin := some { file := "library", line := 4 } } ∧
      e'.fault = .invalidReference "y" := by
  have hrun :
      ((withLibrary.load "main").toOption.map fun p =>
        let x := (start p (#[] : Array String)).run p none 4
        (x.error?, x.machine.out)) =
        some
          (some { fault := .invalidReference "y", origin := some { file := "library", line := 4 } },
            #["a"]) := by
    decide +kernel
  have hentry : withLibrary "main" = .ok (frontLines ++ "!import  library " :: backLines) := rfl
  have hdirective : Imports "!import  library " "library" :=
    ⟨by decide +kernel, by decide +kernel⟩
  have hpath : withLibrary "library" = .ok libraryLines := rfl
  have htexts : ∀ text ∈ libraryLines, directive? text = none := by
    decide +kernel
  have hothers : ∀ text ∈ frontLines ++ backLines, ¬ Imports text "main" := by
    have hnone : ∀ text ∈ frontLines ++ backLines, directive? text = none := by
      decide +kernel
    rintro text htext ⟨himport, -⟩
    rw [hnone text htext] at himport
    cases himport
  obtain ⟨-, hagree⟩ := run_inline_import hentry hdirective hpath htexts hothers
  generalize withLibrary.load "main" = x at hrun hagree ⊢
  generalize Reader.load _ _ = x' at hagree ⊢
  cases hagree with
  | error h =>
      cases hrun
  | @ok p p' h =>
      have hruns := h.2.2 (Array String) none #[] 4
      simp only [Except.toOption, Option.map_some, Option.some.injEq, Prod.mk.injEq] at hrun
      generalize hx : (start p (#[] : Array String)).run p none 4 = x at hrun hruns
      generalize hx' : (start p' (#[] : Array String)).run p' none 4 = x' at hruns
      cases hruns with
      | running h | halted status h =>
          cases hrun.1
      | @failed e e' m m' hfault hm =>
          subst hm
          obtain ⟨herror, hout⟩ := hrun
          cases herror
          exact ⟨p, p', m', _, e', rfl, rfl, hx, hx', hout, rfl, hfault⟩

end Machine
end Trapline
