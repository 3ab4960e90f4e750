import Trapline.Integer

/-!
# Sums of values

Integers and floating point numbers are added, and vectors are joined. A sum of integers that does
not fit into 64 bits is a fault, as is a sum of characters, of identifiers, or of two kinds.
-/

namespace Trapline
namespace Value

/-- The sum of two values. -/
def add : Value → Value → Except Fault Value
  | int m, int n =>
      match Integer.toInt64? (m.toInt + n.toInt) with
      | some sum => .ok (int sum)
      | none => .error .integerOverflow
  | float x, float y => .ok (float (x.add y))
  | vector vs, vector ws => .ok (vector (vs ++ ws))
  | v, w =>
      if v.kind = w.kind then .error (.unsupportedOperands v.kind)
      else .error (.operandMismatch v.kind w.kind)

end Value
end Trapline
