import Trapline.Log.Event

/-!
# Log filters

A filter is a list of directives. A directive applies to every event whose target starts with the
directive's, and admits the events up to its level. Of the directives that apply to an event the
one with the longest target decides; without one the event is not logged.
-/

namespace Trapline
namespace Log

/-- Admits the events up to a level from the targets that start with a text. No level admits
nothing. -/
structure Directive where
  target : String
  level : Option Level
deriving DecidableEq, Repr

/-- Directives with different targets. -/
abbrev Filter := List Directive

namespace Filter

/-- The level that a word stands for: its name in any case, or its rank. The inner value is none
for the word that admits nothing. -/
def readLevel? (word : String) : Option (Option Level) :=
  if word.toLower == "off" || word == "0" then some none
  else
    (Level.all.find? fun level =>
      word.toLower == level.name.toLower || word == toString level.rank).map some

/-- The directive of a word: a level for all targets, a target, or both around an equals sign. A
target without a level admits every level. -/
def readDirective? (word : String) : Option Directive :=
  let target := String.ofList (word.toList.takeWhile (· != '='))
  match word.toList.dropWhile (· != '=') with
  | [] =>
      match readLevel? word with
      | some level => some { target := "", level }
      | none => some { target, level := some .trace }
  | _ :: level =>
      if level.isEmpty then some { target, level := some .trace }
      else (readLevel? (String.ofList level)).map fun level => { target, level }

/-- Adds a directive in place of one with the same target. -/
def add (filter : Filter) (d : Directive) : Filter :=
  d :: filter.filter (·.target != d.target)

/-- The words of a list between commas. -/
def splitWords (text : String) : List String :=
  ((text.split (· == ',')).toList.map (·.toString)).filter (· != "")

/-- The filter of a list of directives between commas. Words that are no directives are skipped. -/
def parse (text : String) : Filter :=
  ((splitWords text).filterMap readDirective?).foldl add []

/-- The more specific of two directives. -/
def moreSpecific : Option Directive → Directive → Option Directive
  | none, d => some d
  | some c, d => if c.target.utf8ByteSize < d.target.utf8ByteSize then some d else some c

/-- The directive that decides about a target. -/
def deciding? (filter : Filter) (target : Target) : Option Directive :=
  (filter.filter fun d => d.target.toList.isPrefixOf target.name.toList).foldl moreSpecific none

/-- Whether events of a level from a target are logged. -/
def admits (filter : Filter) (level : Level) (target : Target) : Bool :=
  match filter.deciding? target with
  | none => false
  | some d => d.level.any fun most => level.rank ≤ most.rank

/-- The log line of an event, if the event is logged. It names the file being loaded if the loader
is logged in detail. -/
def line? (filter : Filter) (e : Event) : Option String :=
  if filter.admits e.level e.target then some (e.line (filter.admits .debug .loader)) else none

end Filter
end Log
end Trapline
