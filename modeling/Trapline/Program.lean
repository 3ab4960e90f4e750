import Trapline.Bindings
import Trapline.Statement

/-!
# Programs

A program is a sequence of statements together with the positions of its labels. A label that is
declared more than once stands for the last of its declarations. A run starts at the label `main`,
or at the first statement when there is no such label.
-/

namespace Trapline

namespace Program

/-- The positions of the labels in a list of statements that starts at a position, added to the
labels before it. -/
def indexFrom (labels : Bindings Nat) (position : Nat) : List Statement → Bindings Nat
  | [] => labels
  | statement :: rest =>
      match statement.label? with
      | some name => indexFrom (labels.insert name position) (position + 1) rest
      | none => indexFrom labels (position + 1) rest

/-- The positions of the labels in a sequence of statements. -/
def indexLabels (code : Array Statement) : Bindings Nat :=
  indexFrom .empty 0 code.toList

end Program

/-- Statements and the positions of their labels. -/
structure Program where
  code : Array Statement
  labels : Bindings Nat := Program.indexLabels code
  labels_eq : labels = Program.indexLabels code := by rfl

namespace Program

/-- The name of the label where a run starts. -/
def entryLabel : Name := "main"

/-- The program of a sequence of statements. -/
def ofCode (code : Array Statement) : Program :=
  { code }

/-- The program of a list of commands, each of which has to be well formed. -/
def ofCommands (commands : List Command) : Except Error Program := do
  let code ← commands.mapM Statement.ofCommand
  return ofCode code.toArray

/-- The number of statements. -/
def size (p : Program) : Nat :=
  p.code.size

/-- The statement at a position. -/
def get? (p : Program) (position : Nat) : Option Statement :=
  p.code[position]?

/-- The position of a label. -/
def label? (p : Program) (name : Name) : Option Nat :=
  p.labels.get? name

/-- The position where a run starts. -/
def entry (p : Program) : Nat :=
  (p.label? entryLabel).getD 0

@[ext] theorem ext
    {p q : Program}
    (h : p.code = q.code) :
    p = q := by
  obtain ⟨code, labels, hlabels⟩ := p
  obtain ⟨code', labels', hlabels'⟩ := q
  obtain rfl : code = code' := h
  subst hlabels
  subst hlabels'
  rfl

end Program
end Trapline
