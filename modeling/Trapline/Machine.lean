import Trapline.Memory
import Trapline.Program
import Trapline.Sink
import Trapline.Trap
import Trapline.Value.Sum
import Trapline.Value.Text

/-!
# The machine

A machine runs the statements of a program one at a time. After a statement the position moves on
by one unless the statement jumped. A jump to a label that the program does not declare halts the
machine with status one; the end of the program and the exit statement halt it with status zero.

Every operation gives the machine afterwards together with how it ended: the machine goes on, it
halted with a status, or it failed with an error. A failed machine can be looked at, and even be
run on.

A loop runs through traps. Each round binds the next element, sets a trap that carries the rest of
the loop, and jumps to the body; returning to that trap starts the next round. A loop has a frame
of its own, which it drops when no element is left, just before it jumps to its escape label.
-/

namespace Trapline

/-- The state of a run with its output going to a sink. -/
structure Machine (σ : Type) where
  memory : Memory
  /-- The pending traps, the newest one first. -/
  traps : List Trap
  position : Nat
  /-- Whether the position was set by a jump, so that it does not move on. -/
  jumped : Bool
  /-- The number of statements executed so far. -/
  steps : Nat
  out : σ
deriving Repr

/-- How an operation ended, with the machine afterwards. -/
inductive Progress (σ : Type) where
  | running (m : Machine σ)
  | halted (status : Nat) (m : Machine σ)
  | failed (e : Error) (m : Machine σ)
deriving Repr

namespace Progress

variable {σ : Type}

/-- The machine afterwards. -/
def machine : Progress σ → Machine σ
  | running m | halted _ m | failed _ m => m

/-- Whether the machine goes on. -/
def isRunning : Progress σ → Bool
  | running _ => true
  | _ => false

end Progress

namespace Machine

variable {σ : Type}

/-- The status of a run that jumped to an undeclared label. -/
def undeclaredLabelStatus : Nat := 1

/-- The machine at the start of a run. -/
def start (p : Program) (out : σ) : Machine σ where
  memory := .empty
  traps := []
  position := p.entry
  jumped := false
  steps := 0
  out := out

/-- Goes on with a result, or fails. -/
def proceed {α : Type} (m : Machine σ) (result : Except Fault α) (next : α → Progress σ) :
    Progress σ :=
  match result with
  | .ok a => next a
  | .error fault => .failed { fault } m

/-- Goes on with new memory, or fails and keeps the old one. -/
def store (m : Machine σ) : Except Fault Memory → Progress σ
  | .ok memory => .running { m with memory }
  | .error fault => .failed { fault } m

/-- Writes a line. -/
def emit [Sink σ] (m : Machine σ) (line : String) : Progress σ :=
  match Sink.write m.out line with
  | (.ok _, out) => .running { m with out }
  | (.error e, out) => .failed e { m with out }

/-- Moves to a label. -/
def jump (p : Program) (m : Machine σ) (label : Name) : Progress σ :=
  match p.label? label with
  | some position => .running { m with position, jumped := true }
  | none => .halted undeclaredLabelStatus m

/-- Sets a trap behind the current position. -/
def setTrap (m : Machine σ) (label : Name) (loop : Option Loop) : Machine σ :=
  { m with traps := { label, resumeAt := m.position + 1, loop } :: m.traps }

/-- Starts the next round of a loop, or leaves the loop when no element is left. -/
def nextRound (p : Program) (m : Machine σ) (loop : Loop) : Progress σ :=
  match loop.items[loop.next]? with
  | none =>
      match m.memory.popFrame with
      | .ok memory => jump p { m with memory } loop.escape
      | .error fault => .failed { fault } m
  | some element =>
      match m.memory.setOrLocal loop.item element with
      | .ok memory =>
          let m := { m with memory }
          jump p (m.setTrap Trap.loopLabel (some { loop with next := loop.next + 1 })) loop.body
      | .error fault => .failed { fault } m

/-- Returns to the newest trap with a label, and goes on with its loop if it has one. -/
def returnToTrap (p : Program) (m : Machine σ) (label : Name) : Progress σ :=
  match Trap.unwind? label m.traps with
  | none => .failed { fault := .trapNotFound label } m
  | some (trap, older) =>
      let m := { m with traps := older, position := trap.resumeAt, jumped := true }
      match trap.loop with
      | none => .running m
      | some loop => nextRound p m loop

/-- Starts a loop over a vector or a variable. -/
def startLoop (p : Program) (m : Machine σ) (item : Name) (target : Value) (body escape : Name) :
    Progress σ :=
  match m.memory.deref target with
  | .error fault => .failed { fault } m
  | .ok (.vector items) =>
      let m := { m with memory := m.memory.pushFrame }
      nextRound p m { item, items, body, escape, next := 0 }
  | .ok v => .failed { fault := .notAVector target.display v.kind } m

/-- Executes an operation at the current position, taking its arguments in turn. -/
def execute [Sink σ] (p : Program) (m : Machine σ) (args : List Value) : Op → Progress σ
  | .noop | .label => .running m
  | .put =>
      m.proceed (do m.memory.deref (← Operand.value args 0)) fun v => m.emit v.display
  | .pushFrame => m.store (.ok m.memory.pushFrame)
  | .popFrame => m.store m.memory.popFrame
  | .set => m.store do
      let v ← m.memory.deref (← Operand.value args 1)
      m.memory.set (← Operand.name args 0) v
  | .localSet => m.store do
      let v ← m.memory.deref (← Operand.value args 1)
      m.memory.localSet (← Operand.name args 0) v
  | .jump => m.proceed (Operand.name args 0) fun label => m.jump p label
  | .exit => .halted 0 m
  | .setTrap => m.proceed (Operand.name args 0) fun label => .running (m.setTrap label none)
  | .returnToTrap => m.proceed (Operand.name args 0) fun label => m.returnToTrap p label
  | .trappedJump =>
      m.proceed (Operand.name args 0) fun label => (m.setTrap label none).jump p label
  | .vecPush => m.store do
      let name ← Operand.name args 0
      let v ← m.memory.deref (← Operand.value args 1)
      m.memory.append name v
  | .each =>
      m.proceed (Operand.name args 0) fun item =>
      m.proceed (Operand.value args 1) fun target =>
      m.proceed (Operand.name args 2) fun body =>
      m.proceed (Operand.name args 3) fun escape =>
      m.startLoop p item target body escape
  | .add => m.store do
      let v ← m.memory.deref (← Operand.value args 0)
      let w ← m.memory.deref (← Operand.value args 1)
      let out ← Operand.name args 2
      m.memory.set out (← v.add w)

/-- Moves on to the next statement unless the last one jumped. -/
def advance (m : Machine σ) : Machine σ :=
  if m.jumped then { m with jumped := false } else { m with position := m.position + 1 }

/-- Counts a statement as executed. -/
def count (m : Machine σ) : Machine σ :=
  { m with steps := m.steps + 1 }

/-- Ends the execution of a statement: the machine moves on, and an error is placed at the
statement unless it has a place already. -/
def finish (location : Location) : Progress σ → Progress σ
  | .running m => .running m.advance
  | .halted status m => .halted status m
  | .failed e m => .failed (e.locateIfUnplaced location) m

/-- Executes one statement. The end of the program is none. -/
def step [Sink σ] (p : Program) (limit : Option Nat) (m : Machine σ) : Progress σ :=
  match p.get? m.position with
  | none => .halted 0 m
  | some statement =>
      match limit.filter (· < m.steps + 1) with
      | some limit =>
          .failed { fault := .stepLimitExceeded limit, origin := some statement.location } m.count
      | none => finish statement.location (m.count.execute p statement.args statement.op)

/-- Executes statements until the machine stops, but at most as many as the fuel allows. -/
def run [Sink σ] (p : Program) (limit : Option Nat) : Nat → Machine σ → Progress σ
  | 0, m => .running m
  | fuel + 1, m =>
      match m.step p limit with
      | .running m => run p limit fuel m
      | stopped => stopped

end Machine
end Trapline
