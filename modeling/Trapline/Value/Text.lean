import Trapline.Value.Basic
import Trapline.Binary32.Text
import Trapline.Text.Quoted

/-!
# Values as text

A value has a text for output, in which a string is its bare characters, and a text for diagnosis,
in which every vector is a bracketed list and every character a literal.
-/

namespace Trapline
namespace Value

/-- Texts between brackets. -/
def bracketed (texts : List String) : String :=
  "[" ++ ", ".intercalate texts ++ "]"

mutual

/-- The text of a value in output. -/
def display : Value → String
  | int n => toString n.toInt
  | float x => x.text
  | char c => c.toString
  | vector items =>
      if items.all isChar then String.join (displayAll items) else bracketed (displayAll items)
  | ident name => ":" ++ name

/-- The texts of the elements of a vector in output. -/
def displayAll : List Value → List String
  | [] => []
  | v :: vs => v.display :: displayAll vs

end

mutual

/-- The text of a value in a diagnosis. -/
def describe : Value → String
  | int n => toString n.toInt
  | float x => x.text
  | char c => Text.quoteChar c
  | vector items => bracketed (describeAll items)
  | ident name => ":" ++ name

/-- The texts of the elements of a vector in a diagnosis. -/
def describeAll : List Value → List String
  | [] => []
  | v :: vs => v.describe :: describeAll vs

end

theorem displayAll_eq_map
    (items : List Value) :
    displayAll items = items.map display := by
  induction items with
  | nil => rfl
  | cons v vs ih => rw [displayAll, ih, List.map_cons]

end Value
end Trapline
