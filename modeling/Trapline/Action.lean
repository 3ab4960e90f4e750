import Trapline.Operation

/-!
# Actions

An action is an operation together with its arguments, each of the type that the operation needs.
The arguments of an operation decode to an action exactly when their kinds fit one of its shapes
(`isSome_decode?`), and the action then says nothing else than the operation and the arguments.
-/

namespace Trapline

/-- An operation with its arguments. A value that is an identifier stands for the value of the
variable that it names. -/
inductive Action where
  | noop
  | label (name : Name)
  | put (value : Value)
  | pushFrame
  | popFrame
  | set (name : Name) (value : Value)
  | localSet (name : Name) (value : Value)
  | jump (label : Name)
  | exit
  | setTrap (label : Name)
  | returnToTrap (label : Name)
  | trappedJump (label : Name)
  | vecPush (name : Name) (value : Value)
  | each (item : Name) (target : Value) (body escape : Name)
  | add (left right : Value) (out : Name)
deriving DecidableEq, Repr, Inhabited

namespace Action

/-- The operation of an action. -/
def op : Action → Op
  | noop => .noop
  | label _ => .label
  | put _ => .put
  | pushFrame => .pushFrame
  | popFrame => .popFrame
  | set _ _ => .set
  | localSet _ _ => .localSet
  | jump _ => .jump
  | exit => .exit
  | setTrap _ => .setTrap
  | returnToTrap _ => .returnToTrap
  | trappedJump _ => .trappedJump
  | vecPush _ _ => .vecPush
  | each _ _ _ _ => .each
  | add _ _ _ => .add

/-- The arguments of an action. -/
def args : Action → List Value
  | noop | pushFrame | popFrame | exit => []
  | label name | jump name | setTrap name | returnToTrap name | trappedJump name => [.ident name]
  | put value => [value]
  | set name value | localSet name value | vecPush name value => [.ident name, value]
  | each item target body escape => [.ident item, target, .ident body, .ident escape]
  | add left right out => [left, right, .ident out]

end Action

namespace Action

/-- The action that takes no arguments. -/
def ofNone (action : Action) : List Value → Option Action
  | [] => some action
  | _ => none

/-- The action that takes a name. -/
def ofName (action : Name → Action) : List Value → Option Action
  | [.ident name] => some (action name)
  | _ => none

/-- The action that takes a value. -/
def ofValue (action : Value → Action) : List Value → Option Action
  | [value] => some (action value)
  | _ => none

/-- The action that takes a name and a value. -/
def ofNameValue (action : Name → Value → Action) : List Value → Option Action
  | [.ident name, value] => some (action name value)
  | _ => none

/-- The loop over a vector or a variable. -/
def ofLoop : List Value → Option Action
  | [.ident item, target, .ident body, .ident escape] =>
      if Op.aVector.contains target.kind then some (each item target body escape) else none
  | _ => none

/-- The sum of two numbers or variables. -/
def ofSum : List Value → Option Action
  | [left, right, .ident out] =>
      if Op.aNumber.contains left.kind && Op.aNumber.contains right.kind then
        some (add left right out)
      else
        none
  | _ => none

end Action

namespace Op

/-- The action of an operation with the given arguments, if they have the right kinds. -/
def decode? : Op → List Value → Option Action
  | noop => Action.ofNone .noop
  | label => Action.ofName .label
  | put => Action.ofValue .put
  | pushFrame => Action.ofNone .pushFrame
  | popFrame => Action.ofNone .popFrame
  | set => Action.ofNameValue .set
  | localSet => Action.ofNameValue .localSet
  | jump => Action.ofName .jump
  | exit => Action.ofNone .exit
  | setTrap => Action.ofName .setTrap
  | returnToTrap => Action.ofName .returnToTrap
  | trappedJump => Action.ofName .trappedJump
  | vecPush => Action.ofNameValue .vecPush
  | each => Action.ofLoop
  | add => Action.ofSum

end Op

namespace Action

theorem anyValue_contains
    (kind : Kind) :
    Op.anyValue.contains kind = true := by
  cases kind <;> decide

theorem anIdent_contains
    (value : Value) :
    Op.anIdent.contains value.kind = value.isIdent := by
  cases value <;> rfl

theorem isSome_ofNone
    (action : Action)
    (args : List Value) :
    (ofNone action args).isSome = Op.fits [] (args.map Value.kind) := by
  cases args <;> rfl

theorem isSome_ofName
    (action : Name → Action)
    (args : List Value) :
    (ofName action args).isSome = Op.fits [Op.anIdent] (args.map Value.kind) := by
  rcases args with _ | ⟨v, _ | ⟨w, rest⟩⟩
  · rfl
  · cases v <;> rfl
  · cases v <;> simp [ofName, Op.fits]

theorem isSome_ofValue
    (action : Value → Action)
    (args : List Value) :
    (ofValue action args).isSome = Op.fits [Op.anyValue] (args.map Value.kind) := by
  rcases args with _ | ⟨v, _ | ⟨w, rest⟩⟩
  · rfl
  · cases v <;> rfl
  · simp [ofValue, Op.fits]

theorem isSome_ofNameValue
    (action : Name → Value → Action)
    (args : List Value) :
    (ofNameValue action args).isSome =
      Op.fits [Op.anIdent, Op.anyValue] (args.map Value.kind) := by
  rcases args with _ | ⟨v, _ | ⟨w, _ | ⟨x, rest⟩⟩⟩
  · rfl
  · cases v <;> rfl
  · simp only [List.map_cons, List.map_nil, Op.fits, anIdent_contains, anyValue_contains]
    cases v <;> rfl
  · cases v <;> simp [ofNameValue, Op.fits]

theorem isSome_ofLoop
    (args : List Value) :
    (ofLoop args).isSome =
      Op.fits [Op.anIdent, Op.aVector, Op.anIdent, Op.anIdent] (args.map Value.kind) := by
  rcases args with _ | ⟨v, _ | ⟨w, _ | ⟨x, _ | ⟨y, _ | ⟨z, rest⟩⟩⟩⟩⟩
  · rfl
  · simp [ofLoop, Op.fits]
  · simp [ofLoop, Op.fits]
  · simp [ofLoop, Op.fits]
  · simp only [List.map_cons, List.map_nil, Op.fits, anIdent_contains]
    rcases v with _ | _ | _ | _ | item
    case ident =>
      rcases x with _ | _ | _ | _ | body
      case ident =>
        rcases y with _ | _ | _ | _ | escape
        case ident => by_cases h : w.kind ∈ Op.aVector <;> simp [ofLoop, Value.isIdent, h]
        all_goals simp [ofLoop, Value.isIdent]
      all_goals simp [ofLoop, Value.isIdent]
    all_goals simp [ofLoop, Value.isIdent]
  · simp [ofLoop, Op.fits]

theorem isSome_ofSum
    (args : List Value) :
    (ofSum args).isSome =
      Op.fits [Op.aNumber, Op.aNumber, Op.anIdent] (args.map Value.kind) := by
  rcases args with _ | ⟨v, _ | ⟨w, _ | ⟨x, _ | ⟨y, rest⟩⟩⟩⟩
  · rfl
  · simp [ofSum, Op.fits]
  · simp [ofSum, Op.fits]
  · simp only [List.map_cons, List.map_nil, Op.fits, anIdent_contains]
    rcases x with _ | _ | _ | _ | out
    case ident =>
      by_cases hv : v.kind ∈ Op.aNumber <;> by_cases hw : w.kind ∈ Op.aNumber <;>
        simp [ofSum, Value.isIdent, hv, hw]
    all_goals simp [ofSum, Value.isIdent]
  · simp [ofSum, Op.fits]

end Action

namespace Op

/-- An operation decodes exactly the arguments whose kinds fit one of its shapes. -/
theorem isSome_decode?
    (op : Op)
    (args : List Value) :
    (op.decode? args).isSome = op.accepts (args.map Value.kind) := by
  cases op <;>
    simp [decode?, accepts, shapes, Action.isSome_ofNone, Action.isSome_ofName,
      Action.isSome_ofValue, Action.isSome_ofNameValue, Action.isSome_ofLoop,
      Action.isSome_ofSum]

end Op

namespace Action

theorem eq_of_ofNone
    {action a : Action}
    {args : List Value}
    (h : ofNone action args = some a) :
    args = [] ∧ a = action := by
  unfold ofNone at h
  split at h
  · exact ⟨rfl, (Option.some.inj h).symm⟩
  · cases h

theorem eq_of_ofName
    {action : Name → Action}
    {a : Action}
    {args : List Value}
    (h : ofName action args = some a) :
    ∃ name, args = [.ident name] ∧ a = action name := by
  unfold ofName at h
  split at h
  · exact ⟨_, rfl, (Option.some.inj h).symm⟩
  · cases h

theorem eq_of_ofValue
    {action : Value → Action}
    {a : Action}
    {args : List Value}
    (h : ofValue action args = some a) :
    ∃ value, args = [value] ∧ a = action value := by
  unfold ofValue at h
  split at h
  · exact ⟨_, rfl, (Option.some.inj h).symm⟩
  · cases h

theorem eq_of_ofNameValue
    {action : Name → Value → Action}
    {a : Action}
    {args : List Value}
    (h : ofNameValue action args = some a) :
    ∃ name value, args = [.ident name, value] ∧ a = action name value := by
  unfold ofNameValue at h
  split at h
  · exact ⟨_, _, rfl, (Option.some.inj h).symm⟩
  · cases h

theorem eq_of_ofLoop
    {a : Action}
    {args : List Value}
    (h : ofLoop args = some a) :
    ∃ item target body escape,
      args = [.ident item, target, .ident body, .ident escape] ∧
      a = each item target body escape := by
  unfold ofLoop at h
  split at h
  · split at h
    · exact ⟨_, _, _, _, rfl, (Option.some.inj h).symm⟩
    · cases h
  · cases h

theorem eq_of_ofSum
    {a : Action}
    {args : List Value}
    (h : ofSum args = some a) :
    ∃ left right out, args = [left, right, .ident out] ∧ a = add left right out := by
  unfold ofSum at h
  split at h
  · split at h
    · exact ⟨_, _, _, rfl, (Option.some.inj h).symm⟩
    · cases h
  · cases h

end Action

namespace Op

/-- An action that was decoded has the operation and the arguments that it was decoded from. -/
theorem op_args_of_decode?
    {op : Op}
    {args : List Value}
    {a : Action}
    (h : op.decode? args = some a) :
    a.op = op ∧ a.args = args := by
  cases op with
  | noop | pushFrame | popFrame | exit =>
      obtain ⟨rfl, rfl⟩ := Action.eq_of_ofNone h
      exact ⟨rfl, rfl⟩
  | label | jump | setTrap | returnToTrap | trappedJump =>
      obtain ⟨name, rfl, rfl⟩ := Action.eq_of_ofName h
      exact ⟨rfl, rfl⟩
  | put =>
      obtain ⟨value, rfl, rfl⟩ := Action.eq_of_ofValue h
      exact ⟨rfl, rfl⟩
  | set | localSet | vecPush =>
      obtain ⟨name, value, rfl, rfl⟩ := Action.eq_of_ofNameValue h
      exact ⟨rfl, rfl⟩
  | each =>
      obtain ⟨item, target, body, escape, rfl, rfl⟩ := Action.eq_of_ofLoop h
      exact ⟨rfl, rfl⟩
  | add =>
      obtain ⟨left, right, out, rfl, rfl⟩ := Action.eq_of_ofSum h
      exact ⟨rfl, rfl⟩

end Op
end Trapline
