import Mathlib.Data.List.TakeWhile
import Mathlib.Logic.Function.Basic
import Trapline.Proofs.Padding
import Trapline.Proofs.Reading

/-!
# Blank lines and comments

A line that is blank or a comment can be put in anywhere in the entry file. The file still loads,
since none of its other lines can import the entry file, and its program is the former one, padded
with a statement that does nothing. Hence the two runs stop both or neither, and in the same way.

Main statements:
* `Reader.exists_paddedAt_of_insert`: what a file with such a line loads to.
* `Machine.run_insert_idle_line`: the line changes nothing that a run shows at its end.
-/

namespace Trapline

/-- A line of nothing but blanks, or one that starts as a comment. -/
def IsIdleLine (text : String) : Prop :=
  (∀ c ∈ text.toList, Text.isBlank c = true) ∨ text.toList.head? = some '#'

namespace IsIdleLine

variable {text : String}

theorem isIdle
    (h : IsIdleLine text) :
    Command.isIdle text.toList = true := by
  rcases h with hblank | hcomment
  · have hstart : Text.trimStart text.toList = [] :=
      List.dropWhile_eq_nil_iff.2 hblank
    simp [Command.isIdle, Text.trim, hstart]
  · simp [Command.isIdle, hcomment]

theorem reads
    (h : IsIdleLine text) :
    Reads text .noop := by
  let l : Location := { file := "", line := 1 }
  let s : Statement := { op := .noop, args := [], location := l, accepted := by decide }
  refine ⟨l, { name := Command.noopName, args := [], location := l }, ?_, s, rfl, rfl⟩
  simp [Command.parse, h.isIdle]

theorem directive?_eq_none
    (h : IsIdleLine text) :
    SourceLine.directive? text = none := by
  cases hdirective : SourceLine.directive? text with
  | none =>
      rfl
  | some path =>
      have hidle := Command.isIdle_of_head? (by decide) (by decide)
        (SourceLine.head?_of_directive hdirective)
      rw [h.isIdle] at hidle
      cases hidle

end IsIdleLine

/-- Positions in a list with an element put in. -/
theorem getElem?_shift
    {α : Type}
    (xs ys : List α)
    (y : α)
    (i : Nat) :
    (xs ++ y :: ys)[shift xs.length i]? = (xs ++ ys)[i]? := by
  unfold shift
  split
  · rename_i hi
    rw [List.getElem?_append_left hi, List.getElem?_append_left hi]
  · rename_i hi
    rw [List.getElem?_append_right (by omega), List.getElem?_append_right (by omega),
      Nat.sub_add_comm (by omega), List.getElem?_cons_succ]

/-- A program with the actions of another one and one more that does nothing is padded. -/
theorem Program.paddedAt_of_actions
    {p p' : Program}
    {front back : List Action}
    (h : p.actions = front ++ back)
    (h' : p'.actions = front ++ .noop :: back) :
    p.PaddedAt p' front.length := by
  constructor
  · intro position
    rw [← getElem?_actions, ← getElem?_actions, h, h', getElem?_shift]
  · rw [← getElem?_actions, h']
    simp

namespace Reader

variable {read : Reader} {entry : String}

/-- No line of an entry file that loads imports the entry file: its own directive would come back as
a command. -/
theorem ne_entry_of_directive
    {texts : List String}
    {parts : List (List String)}
    {actions : List Action}
    (hentry : read entry = .ok texts)
    (hparts : List.Forall₂ read.Splices texts parts)
    (hreads : List.Forall₂ Reads parts.flatten actions)
    {text path : String}
    (htext : text ∈ texts)
    (hdirective : SourceLine.directive? text = some path) :
    path ≠ entry := by
  rintro rfl
  obtain ⟨-, imported, hread, hnone⟩ := imported_of_directive hparts hreads htext hdirective
  rw [hentry] at hread
  cases hread
  rw [hnone text htext] at hdirective
  cases hdirective

/-- A line stands for the same texts after a change to a file that it does not import. -/
theorem Splices.update
    {text : String}
    {part : List String}
    (h : read.Splices text part)
    (hne : ∀ path, SourceLine.directive? text = some path → path ≠ entry)
    (result : Except Error (List String)) :
    Splices (Function.update read entry result) text part := by
  cases h with
  | line h =>
      exact .line h
  | file h hpath hread =>
      refine .file h hpath ?_
      rw [Function.update_of_ne (hne _ h), hread]

/-- An entry file with a blank line or a comment put in loads to the padded program. -/
theorem exists_paddedAt_of_insert
    {before after : List String}
    {line : String}
    {p : Program}
    (hread : read entry = .ok (before ++ after))
    (hload : read.load entry = .ok p)
    (hline : IsIdleLine line) :
    ∃ p' gap,
      load (Function.update read entry (.ok (before ++ line :: after))) entry = .ok p' ∧
      p.PaddedAt p' gap := by
  obtain ⟨texts, parts, htexts, hparts, hreads⟩ := exists_load_iff.1 ⟨p, hload, rfl⟩
  cases hread.symm.trans htexts
  have hne : ∀ text ∈ before ++ after, ∀ path,
      SourceLine.directive? text = some path → path ≠ entry :=
    fun text htext path hpath => ne_entry_of_directive hread hparts hreads htext hpath
  have hparts' :
      List.Forall₂ (Splices (Function.update read entry (.ok (before ++ line :: after))))
        (before ++ after) parts :=
    ((List.forall₂_and_left _ _).2 ⟨hne, hparts⟩).imp fun _ _ h => h.2.update h.1 _
  obtain ⟨front, back, rfl, hfront, hback⟩ := forall₂_append_left_iff.1 hparts'
  rw [List.flatten_append] at hreads
  obtain ⟨actions, actions', hactions, hreads, hreads'⟩ := forall₂_append_left_iff.1 hreads
  have hinserted :=
    forall₂_append_left_iff.2
      ⟨front, [line] :: back, rfl, hfront, .cons (.line hline.directive?_eq_none) hback⟩
  have hall : List.Forall₂ Reads (front ++ [line] :: back).flatten (actions ++ .noop :: actions') := by
    rw [List.flatten_append, List.flatten_cons, List.singleton_append]
    exact forall₂_append_left_iff.2 ⟨_, _, rfl, hreads, .cons hline.reads hreads'⟩
  obtain ⟨p', hload', hactions'⟩ :=
    exists_load_iff.2 ⟨_, _, Function.update_self .., hinserted, hall⟩
  exact ⟨p', actions.length, hload', Program.paddedAt_of_actions hactions hactions'⟩

end Reader

/-- How a run ended: with a status, or with a fault. -/
def Progress.ending? {σ : Type} : Progress σ → Option (Except Fault Nat)
  | running _ => none
  | halted status _ => some (.ok status)
  | failed e _ => some (.error e.fault)

namespace Machine

variable {σ : Type}

/-- Runs of a program and of the padded one that both stopped ended in the same way. -/
theorem Matches.ending
    {gap : Nat}
    {x x' : Progress σ}
    (h : Matches gap x x')
    (hx : x.isRunning = false) :
    x'.ending? = x.ending? ∧ Alike gap x.machine x'.machine := by
  cases h with
  | running h =>
      cases hx
  | halted status h =>
      exact ⟨rfl, h⟩
  | failed he h =>
      refine ⟨?_, h⟩
      rw [Progress.ending?, Progress.ending?, he]

/-- A blank line or a comment put into an entry file changes nothing that a run shows at its end.
The file still loads, and whatever the sink, the two runs stop both or neither. When they stop, they
end with the same status or the same fault, and with the same output, memory and labels of pending
traps. -/
theorem run_insert_idle_line
    {read : Reader}
    {entry : String}
    {before after : List String}
    {line : String}
    {p : Program}
    (hread : read entry = .ok (before ++ after))
    (hload : read.load entry = .ok p)
    (hline : IsIdleLine line) :
    ∃ p',
      Reader.load (Function.update read entry (.ok (before ++ line :: after))) entry = .ok p' ∧
      ∀ (σ : Type) [Sink σ] (out : σ),
        ((∃ n, ((start p out).run p none n).isRunning = false) ↔
          ∃ n', ((start p' out).run p' none n').isRunning = false) ∧
        ∀ n n',
          ((start p out).run p none n).isRunning = false →
          ((start p' out).run p' none n').isRunning = false →
          ((start p' out).run p' none n').ending? = ((start p out).run p none n).ending? ∧
          ((start p' out).run p' none n').machine.out =
            ((start p out).run p none n).machine.out ∧
          ((start p' out).run p' none n').machine.memory =
            ((start p out).run p none n).machine.memory ∧
          ((start p' out).run p' none n').machine.traps.map Trap.label =
            ((start p out).run p none n).machine.traps.map Trap.label := by
  obtain ⟨p', gap, hload', hp⟩ := Reader.exists_paddedAt_of_insert hread hload hline
  refine ⟨p', hload', ?_⟩
  intro σ _ out
  have hruns := exists_matches_run hp out
  refine ⟨Progress.Related.exists_stop_iff hruns, ?_⟩
  intro n n' hn hn'
  obtain ⟨hending, halike⟩ := Matches.ending (Progress.Related.of_stopped hruns hn hn') hn
  exact ⟨hending, halike.out, halike.memory, halike.traps.map_label⟩

/-- The lines behind the call of `callThenFail`. -/
def behindCall : List String :=
  ["put: 'b", "set_trap: :left", "popframe", "label: :part", "put: 'a", "return_to_trap: :part"]

/-- A script that calls a part of itself and fails once it is back behind the call. -/
def callThenFail : Reader := fun _ =>
  .ok (["trapped_jmp: :part"] ++ behindCall)

/-- A comment right behind the call, where its trap returns to: the script still puts the two
characters, leaves a trap and fails for want of a frame. -/
theorem run_insert_idle_line_of_callThenFail :
    ∃ p',
      Reader.load
        (Function.update callThenFail "main" (.ok (["trapped_jmp: :part"] ++ "# back" :: behindCall)))
        "main" = .ok p' ∧
      ∃ n',
        ((start p' (#[] : Array String)).run p' none n').ending? = some (.error .popRootFrame) ∧
        ((start p' (#[] : Array String)).run p' none n').machine.out = #["a", "b"] ∧
        ((start p' (#[] : Array String)).run p' none n').machine.traps.map Trap.label =
          ["left"] := by
  have hrun :
      ((callThenFail.load "main").toOption.map fun p =>
        let x := (start p (#[] : Array String)).run p none 7
        (x.isRunning, x.ending?, x.machine.out, x.machine.traps.map Trap.label)) =
        some (false, some (.error .popRootFrame), #["a", "b"], ["left"]) := by
    decide +kernel
  cases hload : callThenFail.load "main" with
  | error e =>
      rw [hload] at hrun
      cases hrun
  | ok p =>
      rw [hload] at hrun
      simp only [Except.toOption, Option.map_some, Option.some.injEq, Prod.mk.injEq] at hrun
      obtain ⟨hstopped, hending, hout, htraps⟩ := hrun
      have hline : IsIdleLine "# back" := Or.inr rfl
      obtain ⟨p', hload', hruns⟩ := run_insert_idle_line rfl hload hline
      obtain ⟨hstops, hsame⟩ := hruns (Array String) #[]
      obtain ⟨n', hstopped'⟩ := hstops.1 ⟨7, hstopped⟩
      obtain ⟨hending', hout', -, htraps'⟩ := hsame 7 n' hstopped hstopped'
      exact ⟨p', hload', n', hending'.trans hending, hout'.trans hout, htraps'.trans htraps⟩

end Machine
end Trapline
