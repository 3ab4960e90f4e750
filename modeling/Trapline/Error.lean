import Trapline.Value.Basic

/-!
# Errors

A fault is the cause of a failure, with what its message needs. An error is a fault together with
the source line it belongs to, where that is known. Faults that arise before a program runs are
told apart from those of a run.
-/

namespace Trapline

/-- A line of a source file, counted from one. -/
structure Location where
  file : String
  line : Nat
deriving DecidableEq, Repr, Inhabited

namespace Location

/-- The location as text. -/
def text (l : Location) : String :=
  l.file ++ ":" ++ toString l.line

end Location

/-- The cause of a failure. -/
inductive Fault where
  /-- An argument starts with a character that is no sigil. -/
  | unrecognizedSigil (sigil : Char)
  /-- An argument is empty. -/
  | emptyArgument
  /-- A character argument ends after its sigil. -/
  | missingCharacter
  /-- An integer argument does not fit into 64 bits. -/
  | integerOutOfRange (literal : String)
  /-- An import directive names no file. -/
  | missingImportPath
  /-- A file cannot be read, or a line cannot be written. -/
  | unreadable (path message : String)
  /-- No operation has the name of the command. -/
  | unknownCommand (name : Name)
  /-- The arguments of a command have kinds that its operation does not take. -/
  | shapeMismatch (command : Name) (expected actual : String)
  /-- No frame binds a variable. -/
  | invalidReference (name : Name)
  /-- An identifier is about to be stored in a variable. -/
  | storeIdentifier (name : Name)
  /-- The root frame is about to be popped. -/
  | popRootFrame
  /-- Two values of different kinds are about to be added. -/
  | operandMismatch (left right : Kind)
  /-- Two values of a kind without addition are about to be added. -/
  | unsupportedOperands (kind : Kind)
  /-- A sum of integers does not fit into 64 bits. -/
  | integerOverflow
  /-- A vector is needed and another value was found. -/
  | notAVector (name : String) (actual : Kind)
  /-- No pending trap has the label. -/
  | trapNotFound (label : Name)
  /-- A run takes more steps than it may. -/
  | stepLimitExceeded (limit : Nat)
  /-- Something that cannot happen happened. -/
  | internal (message : String)
deriving DecidableEq, Repr, Inhabited

namespace Fault

/-- The text of a fault. -/
def message : Fault → String
  | unrecognizedSigil sigil => s!"unrecognised sigil `{sigil}`"
  | emptyArgument => "empty argument"
  | missingCharacter => "missing character after `'`"
  | integerOutOfRange literal => s!"integer literal out of range: {literal}"
  | missingImportPath => "import directive requires a path"
  | unreadable path message => s!"cannot read {path}: {message}"
  | unknownCommand name => s!"unknown command `{name}`"
  | shapeMismatch command expected actual =>
      s!"mismatched type arguments for {command}: expected {expected}, got ({actual})"
  | invalidReference name => s!"invalid reference {name}"
  | storeIdentifier name => s!"unable to store identifier {name}"
  | popRootFrame => "unable to pop root frame"
  | operandMismatch left right =>
      s!"both operands must be of same type: got {left.name} and {right.name}"
  | unsupportedOperands kind => s!"cannot add values of type {kind.name}"
  | integerOverflow => "integer overflow"
  | notAVector name actual => s!"{name} is not a vector (found {actual.name})"
  | trapNotFound label => s!"trap {label} not found"
  | stepLimitExceeded limit => s!"limit exceeded: max steps ({limit}) exceeded"
  | internal message => s!"internal error: {message}"

/-- Whether a fault arises while a program is loaded. -/
def isLoadFault : Fault → Bool
  | unrecognizedSigil _ | emptyArgument | missingCharacter | integerOutOfRange _
  | missingImportPath | unreadable _ _ | unknownCommand _ | shapeMismatch _ _ _ => true
  | _ => false

end Fault

/-- A fault and the line it belongs to, where that is known. -/
structure Error where
  fault : Fault
  origin : Option Location := none
deriving DecidableEq, Repr, Inhabited

namespace Error

/-- The error at the given line, wherever it was placed before. -/
def locate (e : Error) (l : Location) : Error :=
  { e with origin := some l }

/-- The error at the given line unless it has a place already. -/
def locateIfUnplaced (e : Error) (l : Location) : Error :=
  { e with origin := e.origin.or (some l) }

/-- The error as it is reported to the user. -/
def report (e : Error) : String :=
  match e.origin with
  | none => s!"Error: {e.fault.message}"
  | some l => s!"Error: {e.fault.message}\n  at {l.text}"

@[simp] theorem fault_locate
    (e : Error)
    (l : Location) :
    (e.locate l).fault = e.fault := by
  rfl

@[simp] theorem fault_locateIfUnplaced
    (e : Error)
    (l : Location) :
    (e.locateIfUnplaced l).fault = e.fault := by
  rfl

end Error
end Trapline
