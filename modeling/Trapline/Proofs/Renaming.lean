import Mathlib.Logic.Function.Basic
import Trapline.Proofs.Labels
import Trapline.Proofs.Loading

/-!
# New names for variables and labels

Variables on the one hand, labels and traps on the other, live in two name spaces, although both
are written as identifiers. A renaming changes the names in each of them so that different names
stay different. Two names of the second space have a meaning of their own and are kept: that of the
label where a run starts, and that of the traps of loops.

Which argument of an operation is of which space is told by `Op.namesLabel`. Renaming a command
changes an argument only when it is an identifier itself; what stands inside a vector is never
looked up.

Main statements:
* `Action.rename`, `Statement.action_rename`: the action of a renamed statement.
* `Program.ofCommands_rename`: a renamed program passes the check when the program does.
* `Program.label?_rename`, `Trap.unwind?_rename` and the lemmas on memory: looking up a new name
  finds what looking up the old one found.
-/

namespace Trapline

/-- New names for variables and for labels. -/
structure Renaming where
  onVariables : Name → Name
  onLabels : Name → Name
  injective_onVariables : Function.Injective onVariables
  injective_onLabels : Function.Injective onLabels
  onLabels_entryLabel : onLabels Program.entryLabel = Program.entryLabel
  onLabels_loopLabel : onLabels Trap.loopLabel = Trap.loopLabel

namespace Value

/-- The argument with a new name, if it is an identifier. -/
def rename (f : Name → Name) : Value → Value
  | ident name => ident (f name)
  | v => v

@[simp] theorem kind_rename
    (f : Name → Name)
    (v : Value) :
    (v.rename f).kind = v.kind := by
  cases v <;> rfl

end Value

namespace Op

/-- Whether an operation has the name of a label or a trap at an index of its arguments. Every
other identifier among them names a variable. -/
def namesLabel : Op → Nat → Bool
  | label, _ | jump, _ | setTrap, _ | returnToTrap, _ | trappedJump, _ => true
  | each, index => 2 ≤ index
  | _, _ => false

/-- The arguments of an operation with new names. -/
def renameArgs (r : Renaming) (op : Op) (args : List Value) : List Value :=
  args.mapIdx fun index v => v.rename (if op.namesLabel index then r.onLabels else r.onVariables)

@[simp] theorem map_kind_renameArgs
    (r : Renaming)
    (op : Op)
    (args : List Value) :
    (op.renameArgs r args).map Value.kind = args.map Value.kind := by
  apply List.ext_getElem?
  intro index
  simp [renameArgs, Function.comp_def]

end Op

namespace Command

/-- The command with new names. A command that names no operation stays as it is. -/
def rename (r : Renaming) (c : Command) : Command :=
  match Op.ofName? c.name with
  | some op => { c with args := op.renameArgs r c.args }
  | none => c

end Command

namespace Action

/-- The action with new names. -/
def rename (r : Renaming) : Action → Action
  | noop => noop
  | label name => label (r.onLabels name)
  | put value => put (value.rename r.onVariables)
  | pushFrame => pushFrame
  | popFrame => popFrame
  | set name value => set (r.onVariables name) (value.rename r.onVariables)
  | localSet name value => localSet (r.onVariables name) (value.rename r.onVariables)
  | jump name => jump (r.onLabels name)
  | exit => exit
  | setTrap name => setTrap (r.onLabels name)
  | returnToTrap name => returnToTrap (r.onLabels name)
  | trappedJump name => trappedJump (r.onLabels name)
  | vecPush name value => vecPush (r.onVariables name) (value.rename r.onVariables)
  | each item target body escape =>
      each (r.onVariables item) (target.rename r.onVariables) (r.onLabels body) (r.onLabels escape)
  | add left right out =>
      add (left.rename r.onVariables) (right.rename r.onVariables) (r.onVariables out)

/-- An action declares a label when the renamed action declares the new name of the label. -/
theorem rename_eq_label_iff
    (r : Renaming)
    {a : Action}
    {name : Name} :
    a.rename r = .label (r.onLabels name) ↔ a = .label name := by
  cases a with
  | label declared =>
      simp [rename, r.injective_onLabels.eq_iff]
  | _ =>
      simp [rename]

end Action

namespace Op

/-- Decoding arguments with new names gives the action with new names. -/
theorem decode?_renameArgs
    (r : Renaming)
    {op : Op}
    {args : List Value}
    {a : Action}
    (h : op.decode? args = some a) :
    op.decode? (op.renameArgs r args) = some (a.rename r) := by
  obtain ⟨a', h'⟩ : ∃ a', op.decode? (op.renameArgs r args) = some a' := by
    rw [← Option.isSome_iff_exists, isSome_decode?, map_kind_renameArgs, ← isSome_decode?, h]
    rfl
  cases op with
  | noop | pushFrame | popFrame | exit =>
      obtain ⟨rfl, rfl⟩ := Action.eq_of_ofNone h
      rfl
  | label | jump | setTrap | returnToTrap | trappedJump =>
      obtain ⟨name, rfl, rfl⟩ := Action.eq_of_ofName h
      rfl
  | put =>
      obtain ⟨value, rfl, rfl⟩ := Action.eq_of_ofValue h
      rfl
  | set | localSet | vecPush =>
      obtain ⟨name, value, rfl, rfl⟩ := Action.eq_of_ofNameValue h
      rfl
  | each =>
      obtain ⟨item, target, body, escape, rfl, rfl⟩ := Action.eq_of_ofLoop h
      have hloop :
          Action.ofLoop (each.renameArgs r [.ident item, target, .ident body, .ident escape]) =
            some a' := h'
      obtain ⟨_, _, _, _, hargs, rfl⟩ := Action.eq_of_ofLoop hloop
      cases hargs
      exact h'
  | add =>
      obtain ⟨left, right, out, rfl, rfl⟩ := Action.eq_of_ofSum h
      have hsum : Action.ofSum (add.renameArgs r [left, right, .ident out]) = some a' := h'
      obtain ⟨_, _, _, hargs, rfl⟩ := Action.eq_of_ofSum hsum
      cases hargs
      exact h'

end Op

namespace Statement

/-- The statement with new names. -/
def rename (r : Renaming) (s : Statement) : Statement where
  op := s.op
  args := s.op.renameArgs r s.args
  location := s.location
  accepted := by rw [Op.map_kind_renameArgs, s.accepted]

/-- The action of a renamed statement is the renamed action. -/
@[simp] theorem action_rename
    (r : Renaming)
    (s : Statement) :
    (s.rename r).action = s.action.rename r := by
  have hrenamed := Op.decode?_renameArgs r s.decode?_eq_action
  exact Option.some.inj ((s.rename r).decode?_eq_action.symm.trans hrenamed)

/-- A renamed command passes the check when the command does. -/
theorem ofCommand_rename
    (r : Renaming)
    {c : Command}
    {s : Statement}
    (h : ofCommand c = .ok s) :
    ofCommand (c.rename r) = .ok (s.rename r) := by
  obtain ⟨hop, hargs, hlocation⟩ := eq_of_ofCommand h
  have hrename : c.rename r = { c with args := s.op.renameArgs r c.args } := by
    rw [Command.rename, hop]
  rw [hrename]
  exact ofCommand_of_eq hop (congrArg (s.op.renameArgs r) hargs) hlocation

end Statement

namespace Program

/-- The program with new names. -/
def rename (r : Renaming) (p : Program) : Program :=
  ofCode (p.code.map (Statement.rename r))

/-- A renamed program passes the check when the program does. -/
theorem ofCommands_rename
    (r : Renaming)
    {commands : List Command}
    {p : Program}
    (h : ofCommands commands = .ok p) :
    ofCommands (commands.map (Command.rename r)) = .ok (p.rename r) := by
  have hall := forall₂_of_mapM (code_of_ofCommands h)
  have hrenamed :
      (commands.map (Command.rename r)).mapM Statement.ofCommand =
        .ok (p.code.toList.map (Statement.rename r)) := by
    apply mapM_of_forall₂
    rw [List.forall₂_map_left_iff, List.forall₂_map_right_iff]
    exact hall.imp fun _ _ => Statement.ofCommand_rename r
  rw [ofCommands, hrenamed]
  refine congrArg Except.ok (ext ?_)
  rw [rename, ofCode, ofCode, ← Array.toList_map, Array.toArray_toList]

theorem get?_rename
    (r : Renaming)
    (p : Program)
    (position : Nat) :
    (p.rename r).get? position = (p.get? position).map (Statement.rename r) := by
  simp [rename, ofCode, get?]

theorem action?_rename
    (r : Renaming)
    (p : Program)
    (position : Nat) :
    (p.rename r).action? position = (p.action? position).map (Action.rename r) := by
  simp [action?, get?_rename, Function.comp_def]

/-- The new name of a label leads where the label led. -/
theorem label?_rename
    (r : Renaming)
    (p : Program)
    (name : Name) :
    (p.rename r).label? (r.onLabels name) = p.label? name := by
  have hdeclares :
      ∀ position,
        (p.rename r).action? position = some (.label (r.onLabels name)) ↔
          p.action? position = some (.label name) := by
    intro position
    simp [action?_rename, Action.rename_eq_label_iff]
  have hlabel : (p.rename r).label? (r.onLabels name) = (p.label? name).map id :=
    label?_of_strictMono strictMono_id hdeclares fun position _ => ⟨position, rfl⟩
  rw [hlabel, Option.map_id, id]

theorem entry_rename
    (r : Renaming)
    (p : Program) :
    (p.rename r).entry = p.entry := by
  have hentry := label?_rename r p entryLabel
  rw [r.onLabels_entryLabel] at hentry
  rw [entry, hentry, entry]

end Program

namespace Bindings

variable {α : Type} {f : Name → Name}

/-- The map with new names. -/
def rename (f : Name → Name) (b : Bindings α) : Bindings α :=
  ⟨b.entries.map fun entry => (f entry.1, entry.2)⟩

theorem get?_rename
    (hf : Function.Injective f)
    (b : Bindings α)
    (name : Name) :
    (b.rename f).get? (f name) = b.get? name := by
  obtain ⟨entries⟩ := b
  simp only [get?, rename]
  induction entries with
  | nil =>
      rfl
  | cons entry rest ih =>
      simp only [List.map_cons, lookup, hf.eq_iff, ih]

theorem contains_rename
    (hf : Function.Injective f)
    (b : Bindings α)
    (name : Name) :
    (b.rename f).contains (f name) = b.contains name := by
  rw [contains, get?_rename hf, contains]

theorem insert_rename
    (hf : Function.Injective f)
    (b : Bindings α)
    (name : Name)
    (a : α) :
    (b.rename f).insert (f name) a = (b.insert name a).rename f := by
  obtain ⟨entries⟩ := b
  simp only [insert, rename, mk.injEq]
  induction entries with
  | nil =>
      rfl
  | cons entry rest ih =>
      simp only [List.map_cons, replace, hf.eq_iff]
      split
      · rfl
      · rw [ih, List.map_cons]

end Bindings

namespace Memory

variable {f : Name → Name}

/-- Every frame with new names. -/
def rename (f : Name → Name) : Memory → Memory
  | root frame => root (frame.rename f)
  | scope frame outer => scope (frame.rename f) (outer.rename f)

theorem get?_rename
    (hf : Function.Injective f)
    (m : Memory)
    (name : Name) :
    (m.rename f).get? (f name) = m.get? name := by
  induction m with
  | root frame => exact frame.get?_rename hf name
  | scope frame outer ih => simp [rename, get?, Bindings.get?_rename hf, ih]

theorem contains_rename
    (hf : Function.Injective f)
    (m : Memory)
    (name : Name) :
    (m.rename f).contains (f name) = m.contains name := by
  rw [contains, get?_rename hf, contains]

theorem rebind_rename
    (hf : Function.Injective f)
    (m : Memory)
    (name : Name)
    (v : Value) :
    (m.rename f).rebind (f name) v = (m.rebind name v).rename f := by
  induction m with
  | root frame =>
      simp only [rename, rebind, Bindings.contains_rename hf, Bindings.insert_rename hf]
      split <;> rfl
  | scope frame outer ih =>
      simp only [rename, rebind, Bindings.contains_rename hf, Bindings.insert_rename hf, ih]
      split <;> rfl

theorem bindRoot_rename
    (hf : Function.Injective f)
    (m : Memory)
    (name : Name)
    (v : Value) :
    (m.rename f).bindRoot (f name) v = (m.bindRoot name v).rename f := by
  induction m with
  | root frame => simp only [rename, bindRoot, Bindings.insert_rename hf]
  | scope frame outer ih => simp only [rename, bindRoot, ih]

theorem bindInnermost_rename
    (hf : Function.Injective f)
    (m : Memory)
    (name : Name)
    (v : Value) :
    (m.rename f).bindInnermost (f name) v = (m.bindInnermost name v).rename f := by
  cases m with
  | root frame => simp only [rename, bindInnermost, Bindings.insert_rename hf]
  | scope frame outer => simp only [rename, bindInnermost, Bindings.insert_rename hf]

end Memory

namespace Loop

/-- The loop with new names. Its elements stay as they are. -/
def rename (r : Renaming) (loop : Loop) : Loop :=
  { loop with
    item := r.onVariables loop.item
    body := r.onLabels loop.body
    escape := r.onLabels loop.escape }

end Loop

namespace Trap

/-- The trap with new names. -/
def rename (r : Renaming) (trap : Trap) : Trap :=
  { trap with label := r.onLabels trap.label, loop := trap.loop.map (Loop.rename r) }

/-- Returning to the new name of a label finds the trap that returning to the label found. -/
theorem unwind?_rename
    (r : Renaming)
    (label : Name)
    (traps : List Trap) :
    unwind? (r.onLabels label) (traps.map (rename r)) =
      (unwind? label traps).map fun found => (found.1.rename r, found.2.map (rename r)) := by
  induction traps with
  | nil =>
      rfl
  | cons trap older ih =>
      have hlabel : (trap.rename r).label = r.onLabels label ↔ trap.label = label :=
        r.injective_onLabels.eq_iff
      simp only [List.map_cons, unwind?_cons, hlabel, ih]
      split <;> rfl

end Trap
end Trapline
