import Trapline.Error

/-!
# Sinks

A sink takes the lines that a program writes. It may refuse a line, and it says what it is like
afterwards in either case.
-/

namespace Trapline

/-- Where output lines go. -/
class Sink (σ : Type) where
  /-- Writes a line. The sink after the attempt is given also when it failed. -/
  write : σ → String → Except Error Unit × σ

/-- A list of lines takes every line. -/
instance : Sink (Array String) where
  write lines line := (.ok (), lines.push line)

/-- A sink with room for so many lines, which refuses any further one with the given error. -/
structure BoundedSink where
  room : Nat
  refusal : Error
  lines : Array String := #[]
deriving Repr

namespace BoundedSink

/-- Writes a line if there is room for it. -/
def write (sink : BoundedSink) (line : String) : Except Error Unit × BoundedSink :=
  if sink.lines.size < sink.room then
    (.ok (), { sink with lines := sink.lines.push line })
  else
    (.error sink.refusal, sink)

end BoundedSink

instance : Sink BoundedSink where
  write := BoundedSink.write

end Trapline
