import Trapline.Value.Basic

/-!
# Operations

The fifteen operations of the language, each with its name and the shapes of arguments that it
takes. A shape gives for each argument the kinds that may stand there. An identifier may stand
wherever a value is needed: it stands for the value of the variable that it names.
-/

namespace Trapline

/-- For each argument the kinds that may stand there. -/
abbrev Shape := List (List Kind)

/-- What a command can do. -/
inductive Op where
  | noop
  | label
  | put
  | pushFrame
  | popFrame
  | set
  | localSet
  | jump
  | exit
  | setTrap
  | returnToTrap
  | trappedJump
  | vecPush
  | each
  | add
deriving DecidableEq, Repr, Inhabited

namespace Op

/-- Every operation, in the order in which they are listed. -/
def all : List Op :=
  [noop, label, put, pushFrame, popFrame, set, localSet, jump, exit, setTrap, returnToTrap,
    trappedJump, vecPush, each, add]

/-- The keyword of an operation. -/
def name : Op → Name
  | noop => "noop"
  | label => "label"
  | put => "put"
  | pushFrame => "pushframe"
  | popFrame => "popframe"
  | set => "set"
  | localSet => "local_set"
  | jump => "jmp"
  | exit => "exit"
  | setTrap => "set_trap"
  | returnToTrap => "return_to_trap"
  | trappedJump => "trapped_jmp"
  | vecPush => "vec_push"
  | each => "each"
  | add => "add"

/-- The operation with the given keyword. -/
def ofName? (name : Name) : Option Op :=
  all.find? fun op => op.name == name

/-- An argument that names a variable or a label. -/
def anIdent : List Kind := [.ident]

/-- An argument of any kind. -/
def anyValue : List Kind := [.ident, .int, .float, .vector, .char]

/-- An argument that is a number or names one. -/
def aNumber : List Kind := [.ident, .int, .float]

/-- An argument that is a vector or names one. -/
def aVector : List Kind := [.ident, .vector]

/-- The shapes of arguments that an operation takes. -/
def shapes : Op → List Shape
  | noop | pushFrame | popFrame | exit => [[]]
  | label | jump | setTrap | returnToTrap | trappedJump => [[anIdent]]
  | put => [[anyValue]]
  | set | localSet | vecPush => [[anIdent, anyValue]]
  | each => [[anIdent, aVector, anIdent, anIdent]]
  | add => [[aNumber, aNumber, anIdent]]

/-- Whether a list of kinds has a shape. -/
def fits : Shape → List Kind → Bool
  | [], [] => true
  | kinds :: shape, kind :: rest => kinds.contains kind && fits shape rest
  | _, _ => false

/-- Whether an operation takes arguments of the given kinds. -/
def accepts (op : Op) (kinds : List Kind) : Bool :=
  op.shapes.any (fits · kinds)

/-- A shape as text. -/
def describeShape (shape : Shape) : String :=
  "(" ++ ", ".intercalate (shape.map fun kinds => "|".intercalate (kinds.map Kind.name)) ++ ")"

/-- The shapes of an operation as text. -/
def describeShapes (op : Op) : String :=
  " or ".intercalate (op.shapes.map describeShape)

@[simp] theorem ofName?_name
    (op : Op) :
    ofName? op.name = some op := by
  cases op <;> decide

theorem ofName?_eq_some_iff
    {name : Name}
    {op : Op} :
    ofName? name = some op ↔ op.name = name := by
  constructor
  · intro h
    simpa using List.find?_some h
  · rintro rfl
    exact ofName?_name op

end Op
end Trapline
