import Trapline.Log.Event
import Trapline.Machine
import Trapline.Source

/-!
# What is worth logging

The events of loading a program, and those of one step of a machine. They are read off the state
before the step, so the machine itself knows nothing of the log.
-/

namespace Trapline

namespace Reader

open Log

/-- The event of an import directive that was followed. -/
def spliceEvent (line : SourceLine) (path : String) (size : Nat) : Event where
  level := .debug
  target := .loader
  message := "spliced import"
  fields := [.quoted "file" path, .ofNat "lines" size, ⟨"at", line.location.text⟩]

/-- The events of the import directives up to the first one that fails. -/
def spliceEvents (read : Reader) : List SourceLine → List Event
  | [] => []
  | line :: rest =>
      match line.importPath? with
      | none => spliceEvents read rest
      | some path =>
          match read path, path.isEmpty with
          | .ok texts, false => spliceEvent line path texts.length :: spliceEvents read rest
          | _, _ => []

/-- The events of checking a program. -/
def checkEvents (p : Program) : List Event :=
  [{ level := .debug, target := .validator, message := "validated program"
     fields := [.ofNat "commands" p.size] },
    { level := .debug, target := .validator, message := "built label index"
      fields := [.ofNat "labels" p.labels.size] }]

/-- The events of loading a program. -/
def loadEvents (read : Reader) (entry : String) : List Event :=
  let splices :=
    match read entry with
    | .ok texts => spliceEvents read (SourceLine.number entry texts)
    | .error _ => []
  let checks :=
    match read.load entry with
    | .ok p => checkEvents p
    | .error _ => []
  (splices ++ checks).map fun e => { e with loading := some entry }

end Reader

namespace Machine

open Log

variable {σ : Type}

/-- An event of the interpreter. -/
def interpreterEvent (message : String) (fields : List Field) : Event where
  level := .debug
  target := .interpreter
  message := message
  fields := fields

/-- An event of the memory, which then has the given depth. -/
def memoryEvent (message : String) (depth : Nat) : Event where
  level := .debug
  target := .memory
  message := message
  fields := [.ofNat "depth" depth]

/-- The event of a new frame on top of a memory. -/
def pushEvent (memory : Memory) : Event :=
  memoryEvent "pushed frame" (memory.depth + 1)

/-- The event of dropping the innermost frame of a memory, if it can be dropped. -/
def popEvents (memory : Memory) : List Event :=
  match memory.popFrame with
  | .ok outer => [memoryEvent "popped frame" outer.depth]
  | .error _ => []

/-- The event of a jump to a label that is not declared. -/
def jumpEvents (p : Program) (label : Name) : List Event :=
  match p.label? label with
  | some _ => []
  | none => [interpreterEvent "jump target not found" [.quoted "label" label]]

/-- The event of a trap set at a position. -/
def trapEvent (position : Nat) (label : Name) : Event :=
  interpreterEvent "set trap" [.quoted "label" label, .ofNat "resume_at" (position + 1)]

/-- The events of the next round of a loop at a position. -/
def roundEvents (p : Program) (memory : Memory) (position : Nat) (loop : Loop) : List Event :=
  match loop.items[loop.next]? with
  | none =>
      match memory.popFrame with
      | .ok _ => popEvents memory ++ jumpEvents p loop.escape
      | .error _ => []
  | some element =>
      match memory.setOrLocal loop.item element with
      | .ok _ => trapEvent position Trap.loopLabel :: jumpEvents p loop.body
      | .error _ => []

/-- The events of a return to the newest trap with a label. -/
def returnEvents (p : Program) (m : Machine σ) (label : Name) : List Event :=
  match Trap.unwind? label m.traps with
  | none => []
  | some (trap, older) =>
      let discarded := m.traps.length - older.length - 1
      let discards : List Event :=
        if discarded = 0 then []
        else
          [{ level := .debug, target := .trap, message := "discarded newer traps"
             fields := [.quoted "label" label, .ofNat "discarded" discarded] }]
      let returned :=
        interpreterEvent "returned to trap"
          [.quoted "label" label, .ofNat "resume_at" trap.resumeAt]
      discards ++ returned :: (trap.loop.map (roundEvents p m.memory trap.resumeAt)).getD []

/-- The events of executing an action. -/
def actionEvents (p : Program) (m : Machine σ) : Action → List Event
  | .pushFrame => [pushEvent m.memory]
  | .popFrame => popEvents m.memory
  | .jump label => jumpEvents p label
  | .setTrap label => [trapEvent m.position label]
  | .returnToTrap label => returnEvents p m label
  | .trappedJump label => trapEvent m.position label :: jumpEvents p label
  | .each item target body escape =>
      match m.memory.deref target with
      | .ok (.vector items) =>
          let loop : Loop := { item, items, body, escape, next := 0 }
          pushEvent m.memory :: roundEvents p m.memory.pushFrame m.position loop
      | _ => []
  | _ => []

/-- The event of a statement about to be executed. -/
def executeEvent (m : Machine σ) (statement : Statement) : Event where
  level := .trace
  target := .interpreter
  message := "execute"
  fields := [.ofNat "position" m.position, .quoted "op" statement.op.name,
    ⟨"location", statement.location.text⟩]

/-- The events of one step. -/
def stepEvents (p : Program) (limit : Option Nat) (m : Machine σ) : List Event :=
  match p.get? m.position, limit.filter (· < m.steps + 1) with
  | some statement, none => executeEvent m statement :: actionEvents p m statement.action
  | _, _ => []

/-- The event of a run that ended with a status. -/
def finishEvent (m : Machine σ) (status : Nat) : Event :=
  interpreterEvent "program finished" [.ofNat "status" status, .ofNat "steps" m.steps]

end Machine
end Trapline
