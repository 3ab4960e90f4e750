import Trapline.Binary32.Decimal
import Trapline.Integer

/-!
# Arguments

An argument is a sigil and a text: `i` an integer, `f` a floating point number, `'` one character,
`"` a string, and `:` an identifier. Numbers are read from the start of their text and what follows
them is ignored; a text without a number reads as zero.

Arguments are separated by commas. Blanks around an argument do not count. The argument of a label
is its name, with or without the sigil of an identifier.
-/

namespace Trapline

namespace Argument

/-- The value of an argument. -/
def parse : List Char → Except Fault Value
  | [] => .error .emptyArgument
  | sigil :: rest =>
      if sigil = 'i' then (Integer.read rest).map .int
      else if sigil = 'f' then .ok (.float (Binary32.read rest))
      else if sigil = '\x27' then
        match rest with
        | [] => .error .missingCharacter
        | c :: _ => .ok (.char c)
      else if sigil = '\x22' then .ok (.ofChars rest)
      else if sigil = ':' then .ok (.ident (String.ofList rest))
      else .error (.unrecognizedSigil sigil)

/-- The argument of a label: its name, behind one optional colon. -/
def parseLabel (text : List Char) : Except Fault Value :=
  let name := if text.head? = some ':' then text.tail else text
  if name.isEmpty then .error .emptyArgument else .ok (.ident (String.ofList name))

/-- The pieces of a text between its commas. -/
def splitAtCommas : List Char → List (List Char)
  | [] => [[]]
  | c :: rest =>
      if c = ',' then [] :: splitAtCommas rest
      else (splitAtCommas rest).modifyHead (c :: ·)

/-- The pieces of an argument text. Empty pieces at the end are dropped. -/
def pieces (text : List Char) : List (List Char) :=
  ((splitAtCommas text).reverse.dropWhile List.isEmpty).reverse

/-- The values of a list of arguments. -/
def parseAll (text : List Char) : Except Fault (List Value) :=
  (pieces text).mapM fun piece => parse (Text.trim piece)

/-- The values of the arguments of a label. -/
def parseLabels (text : List Char) : Except Fault (List Value) :=
  (pieces text).mapM fun piece => parseLabel (Text.trim piece)

end Argument
end Trapline
