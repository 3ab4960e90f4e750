/-!
# Lines of a text

A line ends at a line feed. A carriage return directly before the line feed belongs to the line end.
What follows the last line feed is a line of its own unless it is empty.
-/

namespace Trapline
namespace Text

/-- The lines of a list of characters. -/
def splitLines : List Char → List (List Char)
  | [] => []
  | '\r' :: '\n' :: rest => [] :: splitLines rest
  | '\n' :: rest => [] :: splitLines rest
  | c :: rest =>
      match splitLines rest with
      | [] => [[c]]
      | line :: lines => (c :: line) :: lines

/-- The lines of a text. -/
def lines (text : String) : List String :=
  (splitLines text.toList).map String.ofList

@[simp] theorem splitLines_nil :
    splitLines [] = [] := by
  rfl

@[simp] theorem splitLines_lineFeed
    (rest : List Char) :
    splitLines ('\n' :: rest) = [] :: splitLines rest := by
  rw [splitLines]

/-- Lines with a character put in front of the first one. -/
def prepend (c : Char) : List (List Char) → List (List Char)
  | [] => [[c]]
  | line :: lines => (c :: line) :: lines

/-- A character that ends no line belongs to the first one. -/
theorem splitLines_cons_eq
    {c : Char}
    {text : List Char}
    (hc : c ≠ '\n')
    (hreturn : c = '\r' → text.head? ≠ some '\n') :
    splitLines (c :: text) = prepend c (splitLines text) := by
  rw [splitLines]
  · cases splitLines text <;> rfl
  · rintro rest rfl rfl
    exact hreturn rfl rfl
  · exact hc

end Text
end Trapline
