/-!
# Command line options

The arguments are flags, a step limit with its value, and at most one program file. They may come
in any order. The leftmost argument that does not fit decides the error.
-/

namespace Trapline
namespace Cli

/-- What a command line asks for. -/
structure Options where
  file : Option String := none
  checkOnly : Bool := false
  trace : Bool := false
  maxSteps : Option Nat := none
  showHelp : Bool := false
  showVersion : Bool := false
deriving DecidableEq, Repr, Inhabited

/-- Why a command line is refused. -/
inductive UsageError where
  | missingValue (option : String)
  | invalidValue (option value : String)
  | unknownOption (option : String)
  | extraArgument (argument : String)
deriving DecidableEq, Repr

namespace UsageError

/-- The text of a usage error. -/
def message : UsageError → String
  | missingValue option => s!"{option} requires a value"
  | invalidValue option value => s!"invalid {option} value: {value}"
  | unknownOption option => s!"unknown option: {option}"
  | extraArgument argument => s!"unexpected argument: {argument}"

end UsageError

/-- Options without a value. -/
inductive Flag where
  | help
  | version
  | check
  | trace
deriving DecidableEq, Repr

namespace Flag

/-- The flag that an argument is. -/
def ofArgument? (argument : String) : Option Flag :=
  if argument = "-h" ∨ argument = "--help" then some help
  else if argument = "-V" ∨ argument = "--version" then some version
  else if argument = "-c" ∨ argument = "--check" then some check
  else if argument = "--trace" then some trace
  else none

end Flag

namespace Options

/-- The program that is run when none is named. -/
def defaultFile : String := "main.weird"

/-- The option that limits the number of steps. -/
def maxStepsOption : String := "--max-steps"

/-- The options with a flag set. -/
def withFlag (o : Options) : Flag → Options
  | .help => { o with showHelp := true }
  | .version => { o with showVersion := true }
  | .check => { o with checkOnly := true }
  | .trace => { o with trace := true }

/-- The number that a text stands for: an optional plus and digits, of less than 64 bits. -/
def readCount? (text : String) : Option Nat :=
  let digits := if text.toList.head? = some '+' then text.toList.tail else text.toList
  let n := Nat.ofDigitChars 10 digits 0
  if !digits.isEmpty && digits.all Char.isDigit && n < UInt64.size then some n else none

/-- Whether an argument is an option: a minus with something behind it. -/
def isOption (argument : String) : Bool :=
  argument.toList.head? == some '-' && argument != "-"

/-- Reads arguments on top of the options read so far. -/
def parseFrom (o : Options) : List String → Except UsageError Options
  | [] => .ok o
  | argument :: rest =>
      match Flag.ofArgument? argument with
      | some flag => parseFrom (o.withFlag flag) rest
      | none =>
          if argument = maxStepsOption then
            match rest with
            | [] => .error (.missingValue maxStepsOption)
            | value :: rest =>
                match readCount? value with
                | some n => parseFrom { o with maxSteps := some n } rest
                | none => .error (.invalidValue maxStepsOption value)
          else if isOption argument then
            .error (.unknownOption argument)
          else if o.file.isSome then
            .error (.extraArgument argument)
          else
            parseFrom { o with file := some argument } rest

/-- Reads the arguments of a command line. -/
def parse (arguments : List String) : Except UsageError Options :=
  parseFrom {} arguments

end Options
end Cli
end Trapline
