import Trapline.Action
import Trapline.Command

/-!
# Statements

A statement is a checked command: an operation with arguments whose kinds fit one of its shapes.
The machine takes the arguments one by one, and an argument that is missing or is no identifier
where one is needed is an internal fault. The action of a statement has them all at once.
-/

namespace Trapline

/-- An operation with arguments that it takes, and the line they stand on. -/
structure Statement where
  op : Op
  args : List Value
  location : Location
  /-- The kinds of the arguments fit a shape of the operation. -/
  accepted : op.accepts (args.map Value.kind) = true
deriving DecidableEq, Repr

namespace Statement

/-- The statement of a command. The command has to name an operation that takes its arguments. -/
def ofCommand (c : Command) : Except Error Statement :=
  match Op.ofName? c.name with
  | none => .error { fault := .unknownCommand c.name, origin := some c.location }
  | some op =>
      if accepted : op.accepts c.kinds = true then
        .ok { op, args := c.args, location := c.location, accepted }
      else
        let actual := ", ".intercalate (c.kinds.map Kind.name)
        .error {
          fault := .shapeMismatch c.name op.describeShapes actual
          origin := some c.location }

/-- The label that a statement declares. -/
def label? (s : Statement) : Option Name :=
  if s.op = .label then s.args.head?.bind Value.name? else none

theorem isSome_decode?
    (s : Statement) :
    (s.op.decode? s.args).isSome = true := by
  rw [Op.isSome_decode?, s.accepted]

/-- The action of a statement. -/
def action (s : Statement) : Action :=
  (s.op.decode? s.args).get s.isSome_decode?

theorem decode?_eq_action
    (s : Statement) :
    s.op.decode? s.args = some s.action := by
  simp [action]

@[simp] theorem op_action
    (s : Statement) :
    s.action.op = s.op :=
  (Op.op_args_of_decode? s.decode?_eq_action).1

@[simp] theorem args_action
    (s : Statement) :
    s.action.args = s.args :=
  (Op.op_args_of_decode? s.decode?_eq_action).2

end Statement

namespace Operand

/-- The argument at an index. -/
def value (args : List Value) (index : Nat) : Except Fault Value :=
  match args[index]? with
  | some v => .ok v
  | none => .error (.internal s!"missing argument {index}")

/-- The name that the argument at an index is. -/
def name (args : List Value) (index : Nat) : Except Fault Name := do
  match (← value args index).name? with
  | some name => .ok name
  | none => .error (.internal s!"argument {index} is not an identifier")

end Operand
end Trapline
