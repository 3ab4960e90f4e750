import Trapline.Proofs.Control

/-!
# What a step does to the pending traps

`Turn` says where a step goes that goes on. Here a step may end in any way. A machine that halts or
fails has changed its traps too in some cases: a call to an undeclared label has set its trap, and a
return whose loop cannot go on has dropped some. `Trap.Change` lists all that can happen.

Main statements:
* `Machine.change_of_step`: a step leaves the traps alone, or executes an action that changes them
  in one of these ways.
* `Trap.Change.pending`: a trap without a loop stays where it is, with everything below it, until a
  return takes it or one below it.
-/

namespace Trapline

namespace Trap

/-- The trap that a call at a position sets. -/
def ofCall (label : Name) (position : Nat) : Trap where
  label := label
  resumeAt := position + 1
  loop := none

/-- How an action at a position may change the pending traps. -/
inductive Change (position : Nat) (traps : List Trap) : Action → List Trap → Prop
  | keep
      (a : Action) :
      Change position traps a traps
  | setTrap
      (label : Name) :
      Change position traps (.setTrap label) (ofCall label position :: traps)
  | trappedJump
      (label : Name) :
      Change position traps (.trappedJump label) (ofCall label position :: traps)
  | enter
      (item body escape : Name) (value : Value) (items : List Value) :
      Change position traps (.each item value body escape)
        (Loop.trapAt { item, items, body, escape, next := 0 } position :: traps)
  | back
      {label : Name} {trap : Trap} {older : List Trap}
      (hunwind : unwind? label traps = some (trap, older)) :
      Change position traps (.returnToTrap label) older
  | again
      {label : Name} {trap : Trap} {older : List Trap} {loop : Loop}
      (hunwind : unwind? label traps = some (trap, older))
      (hloop : trap.loop = some loop) :
      Change position traps (.returnToTrap label) (loop.trapAt trap.resumeAt :: older)

/-- A trap without a loop stays, with everything below it, or a return has taken a trap that is not
above it. -/
theorem Change.pending
    {position : Nat}
    {newer older traps' : List Trap}
    {trap : Trap}
    {a : Action}
    (hloop : trap.loop = none)
    (h : Change position (newer ++ trap :: older) a traps') :
    (∃ newer', traps' = newer' ++ trap :: older) ∨
    (traps'.length ≤ older.length ∧
      ∃ label found rest,
        a = .returnToTrap label ∧
        unwind? label (newer ++ trap :: older) = some (found, rest) ∧
        rest.length ≤ older.length) := by
  cases h with
  | keep => exact Or.inl ⟨newer, rfl⟩
  | setTrap | trappedJump | enter => exact Or.inl ⟨_ :: newer, rfl⟩
  | @back label found _ hunwind =>
      rcases unwind?_append_cases hunwind with hlt | ⟨-, rfl⟩ | ⟨newer', rfl⟩
      · exact Or.inr ⟨hlt.le, label, found, _, rfl, hunwind, hlt.le⟩
      · exact Or.inr ⟨le_rfl, label, found, _, rfl, hunwind, le_rfl⟩
      · exact Or.inl ⟨newer', rfl⟩
  | @again label found rest loop hunwind hfound =>
      rcases unwind?_append_cases hunwind with hlt | ⟨rfl, -⟩ | ⟨newer', rfl⟩
      · exact Or.inr ⟨hlt, label, found, rest, rfl, hunwind, hlt.le⟩
      · rw [hloop] at hfound
        cases hfound
      · exact Or.inl ⟨_ :: newer', rfl⟩

end Trap

namespace Machine

variable {σ : Type}

/-- The step of a machine executes an action: it stands at the position, and the limit allows one
more step. -/
def Executes (p : Program) (limit : Option Nat) (m : Machine σ) (a : Action) : Prop :=
  p.action? m.position = some a ∧ limit.filter (· < m.steps + 1) = none

@[simp] theorem traps_jump
    (p : Program)
    (m : Machine σ)
    (label : Name) :
    (m.jump p label).machine.traps = m.traps := by
  rcases jump_cases p m label with ⟨target, -, h⟩ | ⟨-, h⟩
  · rw [h]
    rfl
  · rw [h]
    rfl

@[simp] theorem traps_advance
    (m : Machine σ) :
    m.advance.traps = m.traps := by
  unfold advance
  split <;> rfl

/-- A loop sets a trap for its next round, or none. -/
theorem traps_nextRound
    (p : Program)
    (m : Machine σ)
    (loop : Loop) :
    (m.nextRound p loop).machine.traps = loop.trapAt m.position :: m.traps ∨
    (m.nextRound p loop).machine.traps = m.traps := by
  rcases nextRound_cases p m loop with
    ⟨v, memory, -, -, h⟩ | ⟨memory, -, -, h⟩ | ⟨v, fault, -, -, h⟩ | ⟨fault, -, -, h⟩
  · rw [h, traps_jump]
    exact Or.inl rfl
  · rw [h, traps_jump]
    exact Or.inr rfl
  · rw [h]
    exact Or.inr rfl
  · rw [h]
    exact Or.inr rfl

/-- However an action ends, it has changed the traps in one of the ways listed. -/
theorem change_of_exec
    [Sink σ]
    (p : Program)
    (m : Machine σ)
    (a : Action) :
    Trap.Change m.position m.traps a (m.exec p a).machine.traps := by
  have hkeep {traps : List Trap} (h : traps = m.traps) :
      Trap.Change m.position m.traps a traps := by
    rw [h]
    exact .keep a
  have hstore : (m.store (a.update m.memory)).machine.traps = m.traps := by
    cases a.update m.memory <;> rfl
  cases a with
  | jump label => exact hkeep (traps_jump p m label)
  | setTrap label => exact .setTrap label
  | trappedJump label =>
      simp only [exec, traps_jump]
      exact .trappedJump label
  | exit => exact .keep _
  | each item target body escape =>
      rcases startLoop_cases p m item target body escape with
        ⟨items, -, h⟩ | ⟨fault, -, h⟩ | ⟨v, -, h⟩
      · rw [exec, h]
        rcases traps_nextRound p { m with memory := m.memory.pushFrame }
          { item, items, body, escape, next := 0 } with hround | hround
        · rw [hround]
          exact .enter item body escape target items
        · exact hkeep hround
      · exact hkeep (by rw [exec, h]; rfl)
      · exact hkeep (by rw [exec, h]; rfl)
  | returnToTrap label =>
      rcases returnToTrap_cases p m label with
        ⟨-, h⟩ | ⟨trap, older, hunwind, -, h⟩ | ⟨trap, older, loop, hunwind, hloop, h⟩
      · exact hkeep (by rw [exec, h]; rfl)
      · rw [exec, h]
        exact .back hunwind
      · rw [exec, h]
        rcases traps_nextRound p
          { m with traps := older, position := trap.resumeAt, jumped := true } loop with
          hround | hround
        · rw [hround]
          exact .again hunwind hloop
        · rw [hround]
          exact .back hunwind
  | put value =>
      refine hkeep ?_
      simp only [exec, proceed, emit]
      split
      · split <;> rfl
      · rfl
  | noop | label name | pushFrame | popFrame | set name value | localSet name value
  | vecPush name value | add left right out =>
      exact hkeep hstore

variable [Sink σ] {p : Program} {limit : Option Nat}

theorem step_of_executes
    {m : Machine σ}
    {a : Action}
    (h : m.Executes p limit a) :
    ∃ s,
      p.get? m.position = some s ∧
      m.step p limit = finish s.location (m.count.exec p a) := by
  obtain ⟨haction, hlimit⟩ := h
  obtain ⟨s, hget, rfl⟩ := Option.map_eq_some_iff.1 haction
  exact ⟨s, hget, step_eq_exec hget hlimit⟩

theorem traps_of_executes
    {m : Machine σ}
    {a : Action}
    (h : m.Executes p limit a) :
    (m.step p limit).machine.traps = (m.count.exec p a).machine.traps := by
  obtain ⟨s, -, hstep⟩ := step_of_executes h
  rw [hstep]
  cases m.count.exec p a with
  | running m₁ => exact traps_advance m₁
  | halted status m₁ | failed e m₁ => rfl

/-- However a step ends, the traps are as they were, or it has executed an action that changed
them. -/
theorem change_of_step
    (p : Program)
    (limit : Option Nat)
    (m : Machine σ) :
    (m.step p limit).machine.traps = m.traps ∨
    ∃ a,
      m.Executes p limit a ∧
      Trap.Change m.position m.traps a (m.step p limit).machine.traps := by
  cases hget : p.get? m.position with
  | none =>
      left
      rw [step_of_end hget]
      rfl
  | some s =>
      cases hlimit : limit.filter (· < m.steps + 1) with
      | some n =>
          left
          rw [step_of_limit hget hlimit]
          rfl
      | none =>
          right
          have hexecutes : m.Executes p limit s.action := by
            refine ⟨?_, hlimit⟩
            rw [Program.action?, hget, Option.map_some]
          refine ⟨s.action, hexecutes, ?_⟩
          rw [traps_of_executes hexecutes]
          exact change_of_exec p m.count s.action

end Machine
end Trapline
