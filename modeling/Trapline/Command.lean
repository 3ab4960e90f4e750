import Trapline.Argument

/-!
# Commands

A command is one line of a script: a keyword and, behind a colon, its arguments. Blank lines and
lines that start with `#` are commands that do nothing.
-/

namespace Trapline

/-- A keyword with its arguments and the line they stand on. -/
structure Command where
  name : Name
  args : List Value
  location : Location
deriving DecidableEq, Repr, Inhabited

namespace Command

/-- The kinds of the arguments. -/
def kinds (c : Command) : List Kind :=
  c.args.map Value.kind

/-- The keyword of commands that do nothing. -/
def noopName : Name := "noop"

/-- The keyword of commands that declare a label. -/
def labelName : Name := "label"

/-- Whether a line is blank or a comment. -/
def isIdle (text : List Char) : Bool :=
  (Text.trim text).isEmpty || text.head? == some '#'

/-- The keyword of a line: what stands before the first colon. -/
def keyword (text : List Char) : Name :=
  String.ofList (Text.trim (text.takeWhile (· != ':')))

/-- The argument text of a line: what stands behind the first colon. -/
def argumentText (text : List Char) : List Char :=
  Text.trim (text.dropWhile (· != ':')).tail

/-- The arguments of a line with the given keyword. -/
def parseArguments (keyword : Name) (text : List Char) : Except Fault (List Value) :=
  if keyword = labelName then
    Argument.parseLabels (argumentText text)
  else
    Argument.parseAll (argumentText text)

/-- The command on a line. A fault in its arguments is placed at the line. -/
def parse (text : String) (location : Location) : Except Error Command :=
  let chars := text.toList
  if isIdle chars then
    .ok { name := noopName, args := [], location }
  else
    let name := keyword chars
    match parseArguments name chars with
    | .ok args => .ok { name, args, location }
    | .error fault => .error { fault, origin := some location }

end Command
end Trapline
