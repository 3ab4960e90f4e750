import Mathlib.Data.List.Infix
import Trapline.Proofs.Execution

/-!
# Where a step goes

The position and the pending traps make up the control state of a machine. `Turn` lists the nine
ways in which a step that goes on can change them; the values in memory decide only which of these
it is. A machine whose position was not set by a jump before the step has none set after it.

Main statements:
* `turn_of_step`: every step that goes on is a turn.
* `Turn.pending`: as long as a trap is not dropped, everything below it stays as it is, and the
  trap itself changes only when it is that of a loop which starts its next round.
-/

namespace Trapline

namespace Loop

/-- The trap that a loop sets at a position when it starts a round. -/
def trapAt (loop : Loop) (position : Nat) : Trap where
  label := Trap.loopLabel
  resumeAt := position + 1
  loop := some { loop with next := loop.next + 1 }

end Loop

/-- How an action at a position, with some traps pending, sets the position and the traps. -/
inductive Turn (p : Program) (position : Nat) (traps : List Trap) :
    Action → Nat → List Trap → Prop
  | next
      (a : Action) :
      Turn p position traps a (position + 1) traps
  | jump
      {label : Name} {target : Nat}
      (hlabel : p.label? label = some target) :
      Turn p position traps (.jump label) target traps
  | setTrap
      (label : Name) :
      Turn p position traps (.setTrap label) (position + 1)
        ({ label, resumeAt := position + 1, loop := none } :: traps)
  | trappedJump
      {label : Name} {target : Nat}
      (hlabel : p.label? label = some target) :
      Turn p position traps (.trappedJump label) target
        ({ label, resumeAt := position + 1, loop := none } :: traps)
  | enter
      {item body escape : Name} {value v : Value} {items : List Value} {target : Nat}
      (hitem : items[0]? = some v)
      (hlabel : p.label? body = some target) :
      Turn p position traps (.each item value body escape) target
        (Loop.trapAt { item, items, body, escape, next := 0 } position :: traps)
  | skip
      {item body escape : Name} {value : Value} {target : Nat}
      (hlabel : p.label? escape = some target) :
      Turn p position traps (.each item value body escape) target traps
  | back
      {label : Name} {trap : Trap} {older : List Trap}
      (hunwind : Trap.unwind? label traps = some (trap, older))
      (hloop : trap.loop = none) :
      Turn p position traps (.returnToTrap label) trap.resumeAt older
  | again
      {label : Name} {trap : Trap} {older : List Trap} {loop : Loop} {v : Value} {target : Nat}
      (hunwind : Trap.unwind? label traps = some (trap, older))
      (hloop : trap.loop = some loop)
      (hitem : loop.items[loop.next]? = some v)
      (hlabel : p.label? loop.body = some target) :
      Turn p position traps (.returnToTrap label) target (loop.trapAt trap.resumeAt :: older)
  | leave
      {label : Name} {trap : Trap} {older : List Trap} {loop : Loop} {target : Nat}
      (hunwind : Trap.unwind? label traps = some (trap, older))
      (hloop : trap.loop = some loop)
      (hlabel : p.label? loop.escape = some target) :
      Turn p position traps (.returnToTrap label) target older

namespace Machine

variable {σ : Type}

theorem jump_eq_running
    {p : Program}
    {m m' : Machine σ}
    {label : Name}
    (h : m.jump p label = .running m') :
    ∃ target,
      p.label? label = some target ∧
      m' = { m with position := target, jumped := true } := by
  rcases jump_cases p m label with ⟨target, hlabel, hjump⟩ | ⟨-, hjump⟩
  · rw [hjump] at h
    exact ⟨target, hlabel, (Progress.running.inj h).symm⟩
  · rw [hjump] at h
    cases h

/-- A loop that goes on has started a round, or has left for its escape label. -/
theorem nextRound_eq_running
    {p : Program}
    {m m' : Machine σ}
    {loop : Loop}
    (h : m.nextRound p loop = .running m') :
    m'.jumped = true ∧
    ((∃ v,
        loop.items[loop.next]? = some v ∧
        p.label? loop.body = some m'.position ∧
        m'.traps = loop.trapAt m.position :: m.traps) ∨
      (p.label? loop.escape = some m'.position ∧ m'.traps = m.traps)) := by
  rcases nextRound_cases p m loop with
    ⟨v, memory, hv, -, hround⟩ | ⟨memory, -, -, hround⟩ |
    ⟨v, fault, -, -, hround⟩ | ⟨fault, -, -, hround⟩
  · rw [hround] at h
    obtain ⟨target, hlabel, rfl⟩ := jump_eq_running h
    exact ⟨rfl, Or.inl ⟨v, hv, hlabel, rfl⟩⟩
  · rw [hround] at h
    obtain ⟨target, hlabel, rfl⟩ := jump_eq_running h
    exact ⟨rfl, Or.inr ⟨hlabel, rfl⟩⟩
  · rw [hround] at h
    cases h
  · rw [hround] at h
    cases h

theorem advance_of_jumped
    {m : Machine σ}
    (h : m.jumped = true) :
    m.advance = { m with jumped := false } := by
  rw [advance, if_pos h]

theorem advance_of_not_jumped
    {m : Machine σ}
    (h : m.jumped = false) :
    m.advance = { m with position := m.position + 1 } := by
  rw [advance, if_neg (by simp [h])]

/-- Executing an action that goes on is a turn. -/
theorem turn_of_exec
    [Sink σ]
    {p : Program}
    {m m' : Machine σ}
    {a : Action}
    (hjumped : m.jumped = false)
    (h : m.exec p a = .running m') :
    Turn p m.position m.traps a m'.advance.position m'.advance.traps ∧
    m'.advance.jumped = false := by
  -- actions on variables move on to the next position
  have hstore :
      m.store (a.update m.memory) = .running m' →
      Turn p m.position m.traps a m'.advance.position m'.advance.traps ∧
      m'.advance.jumped = false := by
    intro h
    cases hupdate : a.update m.memory with
    | error fault =>
        rw [hupdate] at h
        cases h
    | ok memory =>
        rw [hupdate] at h
        cases h
        rw [advance_of_not_jumped]
        · exact ⟨.next a, hjumped⟩
        · exact hjumped
  cases a with
  | put value =>
      cases hderef : m.memory.deref value with
      | error fault =>
          simp [exec, hderef, proceed] at h
      | ok v =>
          simp only [exec, hderef, proceed, emit] at h
          split at h
          · cases h
            rw [advance_of_not_jumped]
            · exact ⟨.next _, hjumped⟩
            · exact hjumped
          · cases h
  | jump label =>
      obtain ⟨target, hlabel, rfl⟩ := jump_eq_running h
      exact ⟨.jump hlabel, rfl⟩
  | exit =>
      cases h
  | setTrap label =>
      cases h
      rw [advance_of_not_jumped]
      · exact ⟨.setTrap label, hjumped⟩
      · exact hjumped
  | trappedJump label =>
      obtain ⟨target, hlabel, rfl⟩ := jump_eq_running h
      exact ⟨.trappedJump hlabel, rfl⟩
  | returnToTrap label =>
      rcases returnToTrap_cases p m label with
        ⟨-, hreturn⟩ | ⟨trap, older, hunwind, hloop, hreturn⟩ |
        ⟨trap, older, loop, hunwind, hloop, hreturn⟩
      · rw [exec, hreturn] at h
        cases h
      · rw [exec, hreturn] at h
        cases h
        exact ⟨.back hunwind hloop, rfl⟩
      · rw [exec, hreturn] at h
        obtain ⟨hjumped', hround⟩ := nextRound_eq_running h
        rw [advance_of_jumped hjumped']
        rcases hround with ⟨v, hv, hlabel, htraps⟩ | ⟨hlabel, htraps⟩
        · rw [htraps]
          exact ⟨.again hunwind hloop hv hlabel, rfl⟩
        · rw [htraps]
          exact ⟨.leave hunwind hloop hlabel, rfl⟩
  | each item target body escape =>
      rcases startLoop_cases p m item target body escape with
        ⟨items, -, hstart⟩ | ⟨fault, -, hstart⟩ | ⟨v, -, hstart⟩
      · rw [exec, hstart] at h
        obtain ⟨hjumped', hround⟩ := nextRound_eq_running h
        rw [advance_of_jumped hjumped']
        rcases hround with ⟨v, hv, hlabel, htraps⟩ | ⟨hlabel, htraps⟩
        · rw [htraps]
          exact ⟨.enter hv hlabel, rfl⟩
        · rw [htraps]
          exact ⟨.skip hlabel, rfl⟩
      · rw [exec, hstart] at h
        cases h
      · rw [exec, hstart] at h
        cases h
  | noop | label name | pushFrame | popFrame | set name value | localSet name value
  | vecPush name value | add left right out =>
      exact hstore h

/-- Every step that goes on is a turn. -/
theorem turn_of_step
    [Sink σ]
    {p : Program}
    {limit : Option Nat}
    {m m' : Machine σ}
    (hjumped : m.jumped = false)
    (h : m.step p limit = .running m') :
    ∃ a,
      p.action? m.position = some a ∧
      Turn p m.position m.traps a m'.position m'.traps ∧
      m'.jumped = false := by
  obtain ⟨a, m₁, ha, hexec, rfl⟩ := running_of_step h
  obtain ⟨hturn, hjumped'⟩ := turn_of_exec (m := m.count) hjumped hexec
  exact ⟨a, ha, hturn, hjumped'⟩

end Machine

namespace Trap

/-- A return in a stack with a trap in it drops the trap together with others below it, returns to
the trap, or leaves it and everything below it in place. -/
theorem unwind?_append_cases
    {label : Name}
    {newer older older' : List Trap}
    {trap found : Trap}
    (h : unwind? label (newer ++ trap :: older) = some (found, older')) :
    older'.length < older.length ∨
    (found = trap ∧ older' = older) ∨
    ∃ newer', older' = newer' ++ trap :: older := by
  obtain ⟨dropped, htraps, -⟩ := unwind?_eq_some_iff.1 h
  have htrap : trap :: older <:+ dropped ++ found :: older' := by
    rw [← htraps]
    exact List.suffix_append _ _
  have hfound : found :: older' <:+ dropped ++ found :: older' :=
    List.suffix_append _ _
  rcases Nat.lt_trichotomy older'.length older.length with hlt | heq | hgt
  · exact Or.inl hlt
  · have hsuffix : trap :: older <:+ found :: older' :=
      List.suffix_of_suffix_length_le htrap hfound (by simp [heq])
    have hcons : trap :: older = found :: older' :=
      hsuffix.eq_of_length (by simp [heq])
    cases hcons
    exact Or.inr (Or.inl ⟨rfl, rfl⟩)
  · have holder : older' <:+ dropped ++ found :: older' :=
      (List.suffix_cons found older').trans hfound
    have hsuffix : trap :: older <:+ older' :=
      List.suffix_of_suffix_length_le htrap holder (Nat.succ_le_of_lt hgt)
    obtain ⟨newer', hnewer⟩ := hsuffix
    exact Or.inr (Or.inr ⟨newer', hnewer.symm⟩)

end Trap

/-- A turn that leaves more traps pending than there are below a trap leaves those below as they
are. The trap itself stays too, or it is that of a loop and is replaced by the trap of the next
round. -/
theorem Turn.pending
    {p : Program}
    {position position' : Nat}
    {newer older traps' : List Trap}
    {trap : Trap}
    {a : Action}
    (h : Turn p position (newer ++ trap :: older) a position' traps')
    (hheight : older.length < traps'.length) :
    ∃ newer' trap',
      traps' = newer' ++ trap' :: older ∧
      (trap' = trap ∨ ∃ loop, trap.loop = some loop ∧ trap' = loop.trapAt trap.resumeAt) := by
  cases h with
  | next | jump | skip =>
      exact ⟨newer, trap, rfl, Or.inl rfl⟩
  | setTrap | trappedJump | enter =>
      exact ⟨_ :: newer, trap, rfl, Or.inl rfl⟩
  | back hunwind hloop =>
      rcases Trap.unwind?_append_cases hunwind with hlt | ⟨rfl, rfl⟩ | ⟨newer', rfl⟩
      · omega
      · omega
      · exact ⟨newer', trap, rfl, Or.inl rfl⟩
  | leave hunwind hloop hlabel =>
      rcases Trap.unwind?_append_cases hunwind with hlt | ⟨rfl, rfl⟩ | ⟨newer', rfl⟩
      · omega
      · omega
      · exact ⟨newer', trap, rfl, Or.inl rfl⟩
  | @again label found older' loop v target hunwind hloop hitem hlabel =>
      rcases Trap.unwind?_append_cases hunwind with hlt | ⟨rfl, rfl⟩ | ⟨newer', rfl⟩
      · rw [List.length_cons] at hheight
        omega
      · exact ⟨[], _, rfl, Or.inr ⟨loop, hloop, rfl⟩⟩
      · exact ⟨_ :: newer', trap, rfl, Or.inl rfl⟩

end Trapline
