import Trapline.Machine

/-!
# What one step does

The machine takes the arguments of a statement one by one. Here the execution of a statement is
put in terms of its action, which has them all: `execute_action`. The rest of the module says what
each part of the machine can do, one lemma for each way in which it can end, so that a proof about
runs has to look at no definition of the machine again.

Main statements:
* `step_eq_exec`: a step executes the action of the statement at the position.
* `running_of_step`, `failed_of_step`: what a step that goes on or fails has done.
* `nextRound_cases`, `returnToTrap_cases`: all that a loop and a return to a trap can do.
-/

namespace Trapline

namespace Action

/-- What an action that only works on variables makes of the memory. The other actions leave the
memory as it is, or change it as part of a loop. -/
def update (memory : Memory) : Action → Except Fault Memory
  | pushFrame => .ok memory.pushFrame
  | popFrame => memory.popFrame
  | set name value => do memory.set name (← memory.deref value)
  | localSet name value => do memory.localSet name (← memory.deref value)
  | vecPush name value => do memory.append name (← memory.deref value)
  | add left right out => do
      let v ← memory.deref left
      let w ← memory.deref right
      memory.set out (← v.add w)
  | _ => .ok memory

/-- The labels that an action may jump to. -/
def targets : Action → List Name
  | jump name | trappedJump name => [name]
  | each _ _ body escape => [body, escape]
  | _ => []

end Action

namespace Program

/-- The action at a position. -/
def action? (p : Program) (position : Nat) : Option Action :=
  (p.get? position).map Statement.action

end Program

namespace Machine

variable {σ : Type}

/-- Executes an action at the current position. -/
def exec [Sink σ] (p : Program) (m : Machine σ) : Action → Progress σ
  | .put value => m.proceed (m.memory.deref value) fun v => m.emit v.display
  | .jump label => m.jump p label
  | .exit => .halted 0 m
  | .setTrap label => .running (m.setTrap label none)
  | .returnToTrap label => m.returnToTrap p label
  | .trappedJump label => (m.setTrap label none).jump p label
  | .each item target body escape => m.startLoop p item target body escape
  | action => m.store (action.update m.memory)

/-- Executing an operation on the arguments of an action is executing the action. -/
theorem execute_action
    [Sink σ]
    (p : Program)
    (m : Machine σ)
    (a : Action) :
    m.execute p a.args a.op = m.exec p a := by
  cases a <;> rfl

/-- Executing a statement is executing its action: no argument is missing or of a wrong kind. -/
theorem execute_statement
    [Sink σ]
    (p : Program)
    (m : Machine σ)
    (s : Statement) :
    m.execute p s.args s.op = m.exec p s.action := by
  rw [← execute_action, s.op_action, s.args_action]

/-- A step at the end of the program halts, and is not counted. -/
theorem step_of_end
    [Sink σ]
    {p : Program}
    {limit : Option Nat}
    {m : Machine σ}
    (h : p.get? m.position = none) :
    m.step p limit = .halted 0 m := by
  simp only [step, h]

/-- A step below the limit executes the action at the position. -/
theorem step_eq_exec
    [Sink σ]
    {p : Program}
    {limit : Option Nat}
    {m : Machine σ}
    {s : Statement}
    (hget : p.get? m.position = some s)
    (hlimit : limit.filter (· < m.steps + 1) = none) :
    m.step p limit = finish s.location (m.count.exec p s.action) := by
  simp only [step, hget, hlimit, execute_statement]

/-- A step above the limit fails at the statement, and is counted. -/
theorem step_of_limit
    [Sink σ]
    {p : Program}
    {limit : Option Nat}
    {m : Machine σ}
    {s : Statement}
    {n : Nat}
    (hget : p.get? m.position = some s)
    (hlimit : limit.filter (· < m.steps + 1) = some n) :
    m.step p limit =
      .failed { fault := .stepLimitExceeded n, origin := some s.location } m.count := by
  simp only [step, hget, hlimit]

/-- A step that goes on has executed an action that goes on. -/
theorem running_of_step
    [Sink σ]
    {p : Program}
    {limit : Option Nat}
    {m m' : Machine σ}
    (h : m.step p limit = .running m') :
    ∃ a m₁,
      p.action? m.position = some a ∧
      m.count.exec p a = .running m₁ ∧
      m' = m₁.advance := by
  cases hget : p.get? m.position with
  | none =>
      simp [step, hget] at h
  | some s =>
      cases hlimit : limit.filter (· < m.steps + 1) with
      | some n =>
          rw [step_of_limit hget hlimit] at h
          cases h
      | none =>
          rw [step_eq_exec hget hlimit] at h
          have ha : p.action? m.position = some s.action := by
            simp [Program.action?, hget]
          cases hexec : m.count.exec p s.action with
          | running m₁ =>
              rw [hexec] at h
              exact ⟨s.action, m₁, ha, hexec, (Progress.running.inj h).symm⟩
          | halted status m₁ =>
              simp [hexec, finish] at h
          | failed e m₁ =>
              simp [hexec, finish] at h

/-- A step that fails has exceeded the limit, or has executed an action that fails. The error is
then placed at the statement unless it has a place already. -/
theorem failed_of_step
    [Sink σ]
    {p : Program}
    {limit : Option Nat}
    {m m' : Machine σ}
    {e : Error}
    (h : m.step p limit = .failed e m') :
    ∃ s,
      p.get? m.position = some s ∧
      ((∃ n, e.fault = .stepLimitExceeded n ∧ m' = m.count) ∨
        ∃ e₀,
          m.count.exec p s.action = .failed e₀ m' ∧
          e = e₀.locateIfUnplaced s.location) := by
  cases hget : p.get? m.position with
  | none =>
      simp [step, hget] at h
  | some s =>
      refine ⟨s, rfl, ?_⟩
      cases hlimit : limit.filter (· < m.steps + 1) with
      | some n =>
          rw [step_of_limit hget hlimit] at h
          cases h
          exact Or.inl ⟨n, rfl, rfl⟩
      | none =>
          rw [step_eq_exec hget hlimit] at h
          cases hexec : m.count.exec p s.action with
          | running m₁ =>
              simp [hexec, finish] at h
          | halted status m₁ =>
              simp [hexec, finish] at h
          | failed e₀ m₁ =>
              simp only [hexec, finish, Progress.failed.injEq] at h
              obtain ⟨rfl, rfl⟩ := h
              exact Or.inr ⟨e₀, rfl, rfl⟩

/-- What holds of the machine however a step ends: it was counted at most, or an action was
executed. -/
theorem machine_of_step
    [Sink σ]
    (p : Program)
    (limit : Option Nat)
    (m : Machine σ) :
    (m.step p limit).machine = m ∨
    (m.step p limit).machine = m.count ∨
    ∃ s,
      p.get? m.position = some s ∧
      ((m.step p limit).machine = (m.count.exec p s.action).machine ∨
        (m.step p limit).machine = (m.count.exec p s.action).machine.advance) := by
  cases hget : p.get? m.position with
  | none =>
      left
      simp [step, hget, Progress.machine]
  | some s =>
      right
      cases hlimit : limit.filter (· < m.steps + 1) with
      | some n =>
          left
          rw [step_of_limit hget hlimit]
          rfl
      | none =>
          right
          refine ⟨s, rfl, ?_⟩
          rw [step_eq_exec hget hlimit]
          cases m.count.exec p s.action with
          | running m₁ =>
              exact Or.inr rfl
          | halted status m₁ =>
              exact Or.inl rfl
          | failed e m₁ =>
              exact Or.inl rfl

/-- A jump goes to the position of its label, or halts when there is none. -/
theorem jump_cases
    (p : Program)
    (m : Machine σ)
    (label : Name) :
    (∃ target,
      p.label? label = some target ∧
      m.jump p label = .running { m with position := target, jumped := true }) ∨
    (p.label? label = none ∧ m.jump p label = .halted undeclaredLabelStatus m) := by
  cases hlabel : p.label? label with
  | some target =>
      exact Or.inl ⟨target, rfl, by simp [jump, hlabel]⟩
  | none =>
      exact Or.inr ⟨rfl, by simp [jump, hlabel]⟩

/-- A loop binds its next element, sets its trap and jumps to its body. When no element is left it
drops its frame and jumps to its escape label. Either may fail on the memory, and then nothing has
changed. -/
theorem nextRound_cases
    (p : Program)
    (m : Machine σ)
    (loop : Loop) :
    (∃ v memory,
      loop.items[loop.next]? = some v ∧
      m.memory.setOrLocal loop.item v = .ok memory ∧
      m.nextRound p loop =
        (setTrap { m with memory } Trap.loopLabel
          (some { loop with next := loop.next + 1 })).jump p loop.body) ∨
    (∃ memory,
      loop.items[loop.next]? = none ∧
      m.memory.popFrame = .ok memory ∧
      m.nextRound p loop = jump p { m with memory } loop.escape) ∨
    (∃ v fault,
      loop.items[loop.next]? = some v ∧
      m.memory.setOrLocal loop.item v = .error fault ∧
      m.nextRound p loop = .failed { fault } m) ∨
    (∃ fault,
      loop.items[loop.next]? = none ∧
      m.memory.popFrame = .error fault ∧
      m.nextRound p loop = .failed { fault } m) := by
  cases hitem : loop.items[loop.next]? with
  | some v =>
      cases hset : m.memory.setOrLocal loop.item v with
      | ok memory =>
          exact Or.inl ⟨v, memory, rfl, hset, by simp [nextRound, hitem, hset]⟩
      | error fault =>
          exact Or.inr (Or.inr (Or.inl ⟨v, fault, rfl, hset, by simp [nextRound, hitem, hset]⟩))
  | none =>
      cases hpop : m.memory.popFrame with
      | ok memory =>
          exact Or.inr (Or.inl ⟨memory, rfl, rfl, by simp [nextRound, hitem, hpop]⟩)
      | error fault =>
          exact Or.inr (Or.inr (Or.inr ⟨fault, rfl, rfl, by simp [nextRound, hitem, hpop]⟩))

/-- A return fails without a trap, and otherwise goes to the newest trap with the label. A loop
goes on from there. -/
theorem returnToTrap_cases
    (p : Program)
    (m : Machine σ)
    (label : Name) :
    (Trap.unwind? label m.traps = none ∧
      m.returnToTrap p label = .failed { fault := .trapNotFound label } m) ∨
    (∃ trap older,
      Trap.unwind? label m.traps = some (trap, older) ∧
      trap.loop = none ∧
      m.returnToTrap p label =
        .running { m with traps := older, position := trap.resumeAt, jumped := true }) ∨
    (∃ trap older loop,
      Trap.unwind? label m.traps = some (trap, older) ∧
      trap.loop = some loop ∧
      m.returnToTrap p label =
        nextRound p { m with traps := older, position := trap.resumeAt, jumped := true } loop) := by
  cases hunwind : Trap.unwind? label m.traps with
  | none =>
      exact Or.inl ⟨rfl, by simp [returnToTrap, hunwind]⟩
  | some found =>
      obtain ⟨trap, older⟩ := found
      cases hloop : trap.loop with
      | none =>
          exact Or.inr (Or.inl ⟨trap, older, rfl, hloop, by simp [returnToTrap, hunwind, hloop]⟩)
      | some loop =>
          exact Or.inr (Or.inr
            ⟨trap, older, loop, rfl, hloop, by simp [returnToTrap, hunwind, hloop]⟩)

/-- A loop starts on a vector, in a frame of its own, and fails on anything else. -/
theorem startLoop_cases
    (p : Program)
    (m : Machine σ)
    (item : Name)
    (target : Value)
    (body escape : Name) :
    (∃ items,
      m.memory.deref target = .ok (.vector items) ∧
      m.startLoop p item target body escape =
        nextRound p { m with memory := m.memory.pushFrame }
          { item, items, body, escape, next := 0 }) ∨
    (∃ fault,
      m.memory.deref target = .error fault ∧
      m.startLoop p item target body escape = .failed { fault } m) ∨
    (∃ v,
      m.memory.deref target = .ok v ∧
      m.startLoop p item target body escape =
        .failed { fault := .notAVector target.display v.kind } m) := by
  cases hderef : m.memory.deref target with
  | error fault =>
      exact Or.inr (Or.inl ⟨fault, rfl, by simp [startLoop, hderef]⟩)
  | ok v =>
      cases v with
      | vector items =>
          exact Or.inl ⟨items, rfl, by simp [startLoop, hderef]⟩
      | int n | float x | char c | ident name =>
          exact Or.inr (Or.inr ⟨_, rfl, by simp [startLoop, hderef]⟩)

@[simp] theorem out_jump
    (p : Program)
    (m : Machine σ)
    (label : Name) :
    (m.jump p label).machine.out = m.out := by
  rcases jump_cases p m label with ⟨target, -, h⟩ | ⟨-, h⟩
  · rw [h]
    rfl
  · rw [h]
    rfl

@[simp] theorem out_nextRound
    (p : Program)
    (m : Machine σ)
    (loop : Loop) :
    (m.nextRound p loop).machine.out = m.out := by
  rcases nextRound_cases p m loop with
    ⟨v, memory, -, -, h⟩ | ⟨memory, -, -, h⟩ | ⟨v, fault, -, -, h⟩ | ⟨fault, -, -, h⟩
  · rw [h, out_jump]
    rfl
  · rw [h, out_jump]
  · rw [h]
    rfl
  · rw [h]
    rfl

@[simp] theorem out_returnToTrap
    (p : Program)
    (m : Machine σ)
    (label : Name) :
    (m.returnToTrap p label).machine.out = m.out := by
  rcases returnToTrap_cases p m label with
    ⟨-, h⟩ | ⟨trap, older, -, -, h⟩ | ⟨trap, older, loop, -, -, h⟩
  · rw [h]
    rfl
  · rw [h]
    rfl
  · rw [h, out_nextRound]

@[simp] theorem out_startLoop
    (p : Program)
    (m : Machine σ)
    (item : Name)
    (target : Value)
    (body escape : Name) :
    (m.startLoop p item target body escape).machine.out = m.out := by
  rcases startLoop_cases p m item target body escape with
    ⟨items, -, h⟩ | ⟨fault, -, h⟩ | ⟨v, -, h⟩
  · rw [h, out_nextRound]
  · rw [h]
    rfl
  · rw [h]
    rfl

@[simp] theorem out_store
    (m : Machine σ)
    (result : Except Fault Memory) :
    (m.store result).machine.out = m.out := by
  cases result <;> rfl

/-- Only putting a value touches the sink, and then it writes the text of the value. -/
theorem out_of_exec
    [Sink σ]
    (p : Program)
    (m : Machine σ)
    (a : Action) :
    (m.exec p a).machine.out = m.out ∨
    ∃ value v,
      a = .put value ∧
      m.memory.deref value = .ok v ∧
      (m.exec p a).machine.out = (Sink.write m.out v.display).2 := by
  have hstore : (m.store (a.update m.memory)).machine.out = m.out :=
    out_store m _
  cases a with
  | put value =>
      cases hderef : m.memory.deref value with
      | error fault =>
          left
          simp [exec, hderef, proceed, Progress.machine]
      | ok v =>
          right
          refine ⟨value, v, rfl, hderef, ?_⟩
          simp only [exec, hderef, proceed, emit]
          split
          · rename_i hwrite
            rw [hwrite]
            rfl
          · rename_i hwrite
            rw [hwrite]
            rfl
  | jump label =>
      exact Or.inl (out_jump p m label)
  | trappedJump label =>
      exact Or.inl (out_jump p (m.setTrap label none) label)
  | returnToTrap label =>
      exact Or.inl (out_returnToTrap p m label)
  | each item target body escape =>
      exact Or.inl (out_startLoop p m item target body escape)
  | exit | setTrap label =>
      exact Or.inl rfl
  | noop | label name | pushFrame | popFrame | set name value | localSet name value
  | vecPush name value | add left right out =>
      exact Or.inl hstore

@[simp] theorem out_advance
    (m : Machine σ) :
    m.advance.out = m.out := by
  unfold advance
  split <;> rfl

/-- A step leaves the sink as it is or writes the text of a value that is put. -/
theorem out_of_step
    [Sink σ]
    (p : Program)
    (limit : Option Nat)
    (m : Machine σ) :
    (m.step p limit).machine.out = m.out ∨
    ∃ s value v,
      p.get? m.position = some s ∧
      s.action = .put value ∧
      m.memory.deref value = .ok v ∧
      (m.step p limit).machine.out = (Sink.write m.out v.display).2 := by
  rcases machine_of_step p limit m with h | h | ⟨s, hget, h⟩
  · exact Or.inl (by rw [h])
  · exact Or.inl (by rw [h]; rfl)
  · have hout : (m.step p limit).machine.out = (m.count.exec p s.action).machine.out := by
      rcases h with h | h
      · rw [h]
      · rw [h, out_advance]
    rw [hout]
    rcases out_of_exec p m.count s.action with hexec | ⟨value, v, hput, hderef, hexec⟩
    · exact Or.inl hexec
    · exact Or.inr ⟨s, value, v, hget, hput, hderef, hexec⟩

end Machine
end Trapline
