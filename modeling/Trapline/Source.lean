import Trapline.Program
import Trapline.Text.Lines

/-!
# Source files

A program is loaded from an entry file. An import directive in the entry file stands for the lines
of another file; directives in imported files are not followed. Each line keeps the file and the
number it comes from.

Loading goes through the stages read, splice, parse and check, each over the whole program, so a
failure of an earlier stage is reported even when an earlier line fails at a later stage.
-/

namespace Trapline

/-- Gives the lines of the file at a path. -/
abbrev Reader := String → Except Error (List String)

/-- A line and where it comes from. -/
structure SourceLine where
  text : String
  location : Location
deriving DecidableEq, Repr, Inhabited

namespace SourceLine

/-- The word that starts an import directive. -/
def importWord : String := "!import"

/-- Lines of a file, numbered from the given number on. -/
def numberFrom (file : String) (line : Nat) : List String → List SourceLine
  | [] => []
  | text :: rest => { text, location := { file, line } } :: numberFrom file (line + 1) rest

/-- The lines of a file with their numbers. -/
def number (file : String) (texts : List String) : List SourceLine :=
  numberFrom file 1 texts

/-- The path behind the word of an import directive; none when the line is no directive. -/
def importPath? (line : SourceLine) : Option String :=
  (importWord.toList.isPrefixOf? line.text.toList).map fun rest => String.ofList (Text.trim rest)

end SourceLine

namespace Reader

/-- The reader of files whose texts are given. -/
def ofTexts (files : List (String × String)) : Reader := fun path =>
  match files.lookup path with
  | some text => .ok (Text.lines text)
  | none => .error { fault := .unreadable path "no such file" }

/-- The lines that a line of the entry file stands for. -/
def splice (read : Reader) (line : SourceLine) : Except Error (List SourceLine) :=
  match line.importPath? with
  | none => .ok [line]
  | some path =>
      if path.isEmpty then
        .error { fault := .missingImportPath, origin := some line.location }
      else
        match read path with
        | .ok texts => .ok (SourceLine.number path texts)
        | .error e => .error (e.locate line.location)

/-- The lines of an entry file with its imports spliced in. -/
def loadLines (read : Reader) (entry : String) : Except Error (List SourceLine) := do
  let texts ← read entry
  let parts ← (SourceLine.number entry texts).mapM read.splice
  return parts.flatten

/-- The commands of an entry file with its imports spliced in. -/
def loadCommands (read : Reader) (entry : String) : Except Error (List Command) := do
  let lines ← read.loadLines entry
  lines.mapM fun line => Command.parse line.text line.location

/-- The program of an entry file with its imports spliced in. -/
def load (read : Reader) (entry : String) : Except Error Program := do
  let commands ← read.loadCommands entry
  Program.ofCommands commands

end Reader

namespace Program

/-- The program of a text that counts as the file of the given name. Nothing but that file can be
imported. -/
def ofText (text file : String) : Except Error Program :=
  (Reader.ofTexts [(file, text)]).load file

end Program
end Trapline
