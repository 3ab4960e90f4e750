import Trapline.Text.Quoted

/-!
# Log events

An event has a level, the part of the program that it comes from, a message, and fields. Events of
loading a program also name the file being loaded. An event is one line of the log.
-/

namespace Trapline
namespace Log

/-- How much an event matters. -/
inductive Level where
  | error
  | warn
  | info
  | debug
  | trace
deriving DecidableEq, Repr

namespace Level

/-- Every level, the most important one first. -/
def all : List Level := [error, warn, info, debug, trace]

/-- The place of a level among all of them, counted from one. -/
def rank : Level → Nat
  | error => 1
  | warn => 2
  | info => 3
  | debug => 4
  | trace => 5

/-- The name of a level at the start of a log line. -/
def name : Level → String
  | error => "ERROR"
  | warn => "WARN"
  | info => "INFO"
  | debug => "DEBUG"
  | trace => "TRACE"

end Level

/-- The parts of the program that events come from. -/
inductive Target where
  | loader
  | validator
  | memory
  | interpreter
  | trap
  | runner
deriving DecidableEq, Repr

namespace Target

/-- The name of a part, by which log filters select it. -/
def name : Target → String
  | loader => "weird_language::loader"
  | validator => "weird_language::validator"
  | memory => "weird_language::memory"
  | interpreter => "weird_language::interpreter"
  | trap => "weird_language::interpreter::trap"
  | runner => "weird_runtime::runner"

end Target

/-- A field of an event: its name and its value as text. -/
structure Field where
  key : String
  value : String
deriving DecidableEq, Repr

namespace Field

/-- A field with a number. -/
def ofNat (key : String) (n : Nat) : Field := ⟨key, toString n⟩

/-- A field with a text between quotes. -/
def quoted (key text : String) : Field := ⟨key, Text.quoteText text⟩

/-- The field as it stands on a log line. -/
def text (f : Field) : String := f.key ++ "=" ++ f.value

end Field

/-- Something worth a line in the log. -/
structure Event where
  level : Level
  target : Target
  message : String
  fields : List Field
  /-- The file being loaded when the event happened. -/
  loading : Option String := none
deriving DecidableEq, Repr

namespace Event

/-- The part of a log line that names the file being loaded. -/
def loadingText (path : String) : String :=
  "load\x7b" ++ (Field.quoted "path" path).text ++ "\x7d: "

/-- The event as a line of the log, with or without the file being loaded. -/
def line (e : Event) (showLoading : Bool) : String :=
  let loading := if showLoading then (e.loading.map loadingText).getD "" else ""
  let words := e.message :: e.fields.map Field.text
  e.level.name ++ " " ++ loading ++ e.target.name ++ ": " ++ " ".intercalate words

end Event
end Log
end Trapline
