import Trapline.Cli.Session
import Trapline.FileTree

/-!
# The command line tool

Reads the files that a program needs, runs it, and writes its lines and the log as they come.
-/

namespace Trapline
namespace Cli

/-- Whether an error code of the operating system is the given one, with either sign. -/
def isCode (code expected : UInt32) : Bool :=
  code == expected || code == 0 - expected

/-- The failure that an error of the operating system stands for, if there is one. -/
def failureOf? : IO.Error → Option FileFailure
  | .noFileOrDirectory .. => some .notFound
  | .inappropriateType _ code _ =>
      if isCode code 20 then some .notADirectory else some .isADirectory
  | .invalidArgument _ code _ => if isCode code 36 then some .nameTooLong else none
  | _ => none

/-- Reads the lines of a file. -/
def readLines (path : String) : IO (Except Error (List String)) := do
  let fail (message : String) : Except Error (List String) :=
    .error { fault := .unreadable path message }
  if path.contains '\x00' then
    return fail FileFailure.nulInName.message
  try
    let content ← IO.FS.readBinFile path
    match String.fromUTF8? content with
    | some text => return .ok (Text.lines text)
    | none => return fail FileFailure.notUnicode.message
  catch e =>
    return fail (((failureOf? e).map FileFailure.message).getD (toString e))

/-- Reads a program file and the files that it imports. -/
def prefetch (file : String) : IO Reader := do
  let entry ← readLines file
  let texts := entry.toOption.getD []
  let paths := (SourceLine.number file texts).filterMap SourceLine.importPath?
  let mut files := [(file, entry)]
  for path in paths do
    if !path.isEmpty && (files.lookup path).isNone then
      files := (path, ← readLines path) :: files
  return fun path =>
    (files.lookup path).getD (.error { fault := .unreadable path FileFailure.notFound.message })

/-- Writes the answer to a job that has ended, and gives its exit status. -/
def conclude (result : Except Error Nat) : IO UInt32 := do
  let answer := resultAnswer result
  IO.eprint answer.stderr
  return UInt32.ofNat answer.status

/-- Runs a session to its end, writing as it goes. -/
partial def drive (s : Session (Array String)) : IO UInt32 := do
  for line in s.log do
    IO.eprintln line
  match s.stage with
  | .ended result _ => conclude result
  | .active _ _ =>
      let next := { s with log := #[] }.step
      try
        IO.print (linesText next.stage.out.toList)
        (← IO.getStdout).flush
      catch e =>
        return ← conclude (.error {
          fault := .unreadable "<stdout>" (toString e)
          origin := s.stage.location? })
      drive { next with stage := next.stage.withOut #[] }

/-- Carries out a command line. -/
def carryOut (arguments : List String) : IO UInt32 := do
  match plan arguments with
  | .answer a =>
      IO.print a.stdout
      IO.eprint a.stderr
      return UInt32.ofNat a.status
  | .run job trace =>
      let filter := logFilter (← IO.getEnv "RUST_LOG") trace
      let read ← prefetch job.file
      drive (Session.start job filter read #[])

end Cli
end Trapline

/-- Runs the command line tool. -/
def main (arguments : List String) : IO UInt32 :=
  Trapline.Cli.carryOut arguments
