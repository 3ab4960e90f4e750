import Trapline.Proofs.Labels
import Trapline.Proofs.Run
import Trapline.Proofs.TrapStack

/-!
# How a machine halts

A machine halts with status zero at the end of the program and at an exit statement, and with status
one where it comes to a jump whose label is not declared. The label is named by the statement itself
or, when a loop goes on, by the trap that was returned to. Every label that a pending loop keeps was
named by a statement of the program, so a program whose statements name declared labels only never
halts with status one.

Main statements:
* `status_of_step`: the status of a step that halts.
* `Reachable.pendingTargets`: where the labels of pending loops come from.
* `status_of_declaresTargets`: a program that declares its labels halts with status zero only.
-/

namespace Trapline

namespace Loop

/-- The labels that a loop may jump to. -/
def targets (loop : Loop) : List Name :=
  [loop.body, loop.escape]

/-- A loop that goes on in a memory comes to a jump to a label: to that of its body after the next
element was bound, or to its escape label after its frame was dropped. -/
inductive Seeks (memory : Memory) (loop : Loop) : Name → Prop
  | body
      {v : Value} {memory' : Memory}
      (hitem : loop.items[loop.next]? = some v)
      (hset : memory.setOrLocal loop.item v = .ok memory') :
      Seeks memory loop loop.body
  | escape
      {memory' : Memory}
      (hitem : loop.items[loop.next]? = none)
      (hpop : memory.popFrame = .ok memory') :
      Seeks memory loop loop.escape

theorem Seeks.mem_targets
    {memory : Memory}
    {loop : Loop}
    {label : Name}
    (h : loop.Seeks memory label) :
    label ∈ loop.targets := by
  cases h with
  | body hitem hset =>
      simp [targets]
  | escape hitem hpop =>
      simp [targets]

end Loop

namespace Trap

/-- The labels that a trap keeps for its loop. -/
def targets (trap : Trap) : List Name :=
  (trap.loop.map Loop.targets).getD []

/-- The labels that pending traps keep for their loops. -/
def pendingTargets (traps : List Trap) : List Name :=
  traps.flatMap targets

/-- A trap that is returned to, and those older than it, were pending before. -/
theorem pendingTargets_of_unwind?
    {label : Name}
    {traps older : List Trap}
    {trap : Trap}
    (h : unwind? label traps = some (trap, older)) :
    trap.targets ++ pendingTargets older ⊆ pendingTargets traps := by
  obtain ⟨newer, rfl, -⟩ := unwind?_eq_some_iff.1 h
  simp [pendingTargets]

/-- However an action changes the traps, a label that is then pending was pending before or is named
by the action. -/
theorem Change.pendingTargets
    {position : Nat}
    {traps traps' : List Trap}
    {a : Action}
    (h : Change position traps a traps') :
    Trap.pendingTargets traps' ⊆ a.targets ++ Trap.pendingTargets traps := by
  cases h with
  | keep | setTrap | trappedJump => exact List.subset_append_right _ _
  | enter => exact List.Subset.refl _
  | back hunwind => exact (List.append_subset.1 (pendingTargets_of_unwind? hunwind)).2
  | again hunwind hloop =>
      have hpending := pendingTargets_of_unwind? hunwind
      rwa [Trap.targets, hloop] at hpending

end Trap

/-- An action comes to a jump to a label, with the given memory and pending traps. -/
inductive Action.Seeks (memory : Memory) (traps : List Trap) : Action → Name → Prop
  | jump
      (label : Name) :
      Seeks memory traps (.jump label) label
  | trappedJump
      (label : Name) :
      Seeks memory traps (.trappedJump label) label
  | start
      {item body escape label : Name} {target : Value} {items : List Value}
      (hitems : memory.deref target = .ok (.vector items))
      (h : Loop.Seeks memory.pushFrame { item, items, body, escape, next := 0 } label) :
      Seeks memory traps (.each item target body escape) label
  | resume
      {returned label : Name} {trap : Trap} {older : List Trap} {loop : Loop}
      (hunwind : Trap.unwind? returned traps = some (trap, older))
      (hloop : trap.loop = some loop)
      (h : loop.Seeks memory label) :
      Seeks memory traps (.returnToTrap returned) label

/-- The label is one that the action names or that a pending loop keeps. -/
theorem Action.Seeks.mem_targets
    {memory : Memory}
    {traps : List Trap}
    {a : Action}
    {label : Name}
    (h : a.Seeks memory traps label) :
    label ∈ a.targets ++ Trap.pendingTargets traps := by
  cases h with
  | jump | trappedJump =>
      exact List.mem_append_left _ (List.mem_singleton_self label)
  | start hitems h =>
      exact List.mem_append_left _ h.mem_targets
  | resume hunwind hloop h =>
      refine List.mem_append_right _ (Trap.pendingTargets_of_unwind? hunwind ?_)
      simp [Trap.targets, hloop, h.mem_targets]

namespace Program

/-- Every label that a statement may jump to is declared. -/
def DeclaresTargets (p : Program) : Prop :=
  ∀ position a,
    p.action? position = some a →
    ∀ label ∈ a.targets, ∃ target, p.label? label = some target

theorem declaresTargets_iff
    (p : Program) :
    p.DeclaresTargets ↔
      ∀ position < p.size, ∀ a ∈ p.action? position,
        ∀ label ∈ a.targets, (p.label? label).isSome := by
  constructor
  · intro h position _ a ha label hlabel
    exact Option.isSome_iff_exists.2 (h position a ha label hlabel)
  · intro h position a ha label hlabel
    exact Option.isSome_iff_exists.1 (h position (lt_size_of_action ha) a ha label hlabel)

instance (p : Program) : Decidable p.DeclaresTargets :=
  decidable_of_iff _ p.declaresTargets_iff.symm

end Program

namespace Machine

variable {σ : Type} {p : Program} {limit : Option Nat} {m m' : Machine σ}

/-- The statement at the position comes to a jump to a label that is not declared. -/
def SeeksUndeclared (p : Program) (m : Machine σ) : Prop :=
  ∃ a label,
    p.action? m.position = some a ∧
    a.Seeks m.memory m.traps label ∧
    p.label? label = none

/-- A jump halts only because its label is not declared. -/
theorem halted_of_jump
    {label : Name}
    {status : Nat}
    (h : m.jump p label = .halted status m') :
    status = undeclaredLabelStatus ∧ p.label? label = none := by
  rcases jump_cases p m label with ⟨target, -, hjump⟩ | ⟨hlabel, hjump⟩
  · rw [hjump] at h
    cases h
  · rw [hjump] at h
    cases h
    exact ⟨rfl, hlabel⟩

theorem nextRound_of_seeks
    {loop : Loop}
    {label : Name}
    (h : loop.Seeks m.memory label)
    (p : Program) :
    ∃ m₁ : Machine σ, m.nextRound p loop = m₁.jump p label := by
  cases h with
  | body hitem hset =>
      simp only [nextRound, hitem, hset]
      exact ⟨_, rfl⟩
  | escape hitem hpop =>
      simp only [nextRound, hitem, hpop]
      exact ⟨_, rfl⟩

/-- A loop halts only where it comes to a jump to an undeclared label. -/
theorem halted_of_nextRound
    {loop : Loop}
    {status : Nat}
    (h : m.nextRound p loop = .halted status m') :
    status = undeclaredLabelStatus ∧
    ∃ label, loop.Seeks m.memory label ∧ p.label? label = none := by
  rcases nextRound_cases p m loop with
    ⟨v, memory, hitem, hset, hround⟩ | ⟨memory, hitem, hpop, hround⟩ |
      ⟨v, fault, -, -, hround⟩ | ⟨fault, -, -, hround⟩
  · rw [hround] at h
    obtain ⟨hstatus, hlabel⟩ := halted_of_jump h
    exact ⟨hstatus, loop.body, .body hitem hset, hlabel⟩
  · rw [hround] at h
    obtain ⟨hstatus, hlabel⟩ := halted_of_jump h
    exact ⟨hstatus, loop.escape, .escape hitem hpop, hlabel⟩
  · rw [hround] at h
    cases h
  · rw [hround] at h
    cases h

/-- An action that comes to a jump ends with the jump. -/
theorem exec_of_seeks
    [Sink σ]
    {a : Action}
    {label : Name}
    (h : a.Seeks m.memory m.traps label)
    (p : Program) :
    ∃ m₁ : Machine σ, m.exec p a = m₁.jump p label := by
  cases h with
  | jump =>
      exact ⟨m, rfl⟩
  | trappedJump =>
      exact ⟨m.setTrap label none, rfl⟩
  | start hitems h =>
      simp only [exec, startLoop, hitems]
      exact nextRound_of_seeks h p
  | resume hunwind hloop h =>
      simp only [exec, returnToTrap, hunwind, hloop]
      apply nextRound_of_seeks
      exact h

/-- An action halts at an exit, and otherwise only where it comes to a jump to an undeclared
label. -/
theorem halted_of_exec
    [Sink σ]
    {a : Action}
    {status : Nat}
    (h : m.exec p a = .halted status m') :
    (status = 0 ∧ a = .exit) ∨
    (status = undeclaredLabelStatus ∧
      ∃ label, a.Seeks m.memory m.traps label ∧ p.label? label = none) := by
  have hstore (h : m.store (a.update m.memory) = .halted status m') : False := by
    cases hupdate : a.update m.memory <;> rw [hupdate] at h <;> cases h
  cases a with
  | exit =>
      cases h
      exact Or.inl ⟨rfl, rfl⟩
  | jump label =>
      obtain ⟨hstatus, hlabel⟩ := halted_of_jump h
      exact Or.inr ⟨hstatus, label, .jump label, hlabel⟩
  | trappedJump label =>
      obtain ⟨hstatus, hlabel⟩ := halted_of_jump h
      exact Or.inr ⟨hstatus, label, .trappedJump label, hlabel⟩
  | each item target body escape =>
      rcases startLoop_cases p m item target body escape with
        ⟨items, hitems, hstart⟩ | ⟨fault, -, hstart⟩ | ⟨v, -, hstart⟩
      · obtain ⟨hstatus, label, hseeks, hlabel⟩ := halted_of_nextRound (hstart.symm.trans h)
        exact Or.inr ⟨hstatus, label, .start hitems hseeks, hlabel⟩
      · cases hstart.symm.trans h
      · cases hstart.symm.trans h
  | returnToTrap returned =>
      rcases returnToTrap_cases p m returned with
        ⟨-, hreturn⟩ | ⟨trap, older, -, -, hreturn⟩ |
          ⟨trap, older, loop, hunwind, hloop, hreturn⟩
      · cases hreturn.symm.trans h
      · cases hreturn.symm.trans h
      · obtain ⟨hstatus, label, hseeks, hlabel⟩ := halted_of_nextRound (hreturn.symm.trans h)
        exact Or.inr ⟨hstatus, label, .resume hunwind hloop hseeks, hlabel⟩
  | put value =>
      simp only [exec, proceed, emit] at h
      split at h
      · split at h <;> cases h
      · cases h
  | setTrap label =>
      cases h
  | noop | label name | pushFrame | popFrame | set name value | localSet name value
  | vecPush name value | add left right out =>
      exact (hstore h).elim

/-- A step that halts is at the end of the program, or has executed an action that halts. -/
theorem halted_of_step
    [Sink σ]
    {status : Nat}
    (h : m.step p limit = .halted status m') :
    (status = 0 ∧ p.get? m.position = none) ∨
    ∃ a, p.action? m.position = some a ∧ m.count.exec p a = .halted status m' := by
  cases hget : p.get? m.position with
  | none =>
      rw [step_of_end hget] at h
      cases h
      exact Or.inl ⟨rfl, rfl⟩
  | some s =>
      right
      refine ⟨s.action, by simp [Program.action?, hget], ?_⟩
      cases hlimit : limit.filter (· < m.steps + 1) with
      | some n =>
          rw [step_of_limit hget hlimit] at h
          cases h
      | none =>
          rw [step_eq_exec hget hlimit] at h
          cases hexec : m.count.exec p s.action with
          | running m₁ | failed e m₁ =>
              rw [hexec] at h
              cases h
          | halted status₁ m₁ =>
              rw [hexec] at h
              exact h

/-- A step that halts does so with status zero or one, and with status one exactly if it came to a
jump to an undeclared label. -/
theorem status_of_step
    [Sink σ]
    {status : Nat}
    (h : m.step p limit = .halted status m') :
    (status = 0 ∨ status = undeclaredLabelStatus) ∧
    (status = undeclaredLabelStatus ↔ m.SeeksUndeclared p) := by
  rcases halted_of_step h with ⟨rfl, hend⟩ | ⟨a, haction, hexec⟩
  · have hnone : ¬ m.SeeksUndeclared p := by
      rintro ⟨a, label, haction, -⟩
      simp [Program.action?, hend] at haction
    exact ⟨Or.inl rfl, by simp [undeclaredLabelStatus, hnone]⟩
  · constructor
    · exact (halted_of_exec hexec).imp And.left And.left
    · constructor
      · rintro rfl
        rcases halted_of_exec hexec with ⟨hzero, -⟩ | ⟨-, label, hseeks, hlabel⟩
        · cases hzero
        · exact ⟨a, label, haction, hseeks, hlabel⟩
      · rintro ⟨a', label, haction', hseeks, hlabel⟩
        obtain rfl : a' = a := Option.some.inj (haction'.symm.trans haction)
        obtain ⟨m₁, hjump⟩ := exec_of_seeks (m := m.count) hseeks p
        exact (halted_of_jump (hjump.symm.trans hexec)).1

/-- The same of a run that halts, with the machine before its last step. -/
theorem status_of_run
    [Sink σ]
    {n status : Nat}
    (h : m.run p limit n = .halted status m') :
    (status = 0 ∨ status = undeclaredLabelStatus) ∧
    ∃ k m₁,
      k < n ∧
      m.run p limit k = .running m₁ ∧
      m₁.step p limit = .halted status m' ∧
      (status = undeclaredLabelStatus ↔ m₁.SeeksUndeclared p) := by
  obtain ⟨k, m₁, hk, hrun, hstep⟩ := last_step_of_run h rfl
  obtain ⟨hstatus, hone⟩ := status_of_step hstep
  exact ⟨hstatus, k, m₁, hk, hrun, hstep, hone⟩

/-! The labels of pending loops. -/

/-- However a step ends, a label that is then pending was pending before or is named by the
statement at the position. -/
theorem pendingTargets_step
    [Sink σ]
    {label : Name}
    (h : label ∈ Trap.pendingTargets (m.step p limit).machine.traps) :
    label ∈ Trap.pendingTargets m.traps ∨
    ∃ a, p.action? m.position = some a ∧ label ∈ a.targets := by
  rcases change_of_step p limit m with hsame | ⟨a, hexecutes, hchange⟩
  · rw [hsame] at h
    exact Or.inl h
  · rcases List.mem_append.1 (hchange.pendingTargets h) with hnamed | hbefore
    · exact Or.inr ⟨a, hexecutes.1, hnamed⟩
    · exact Or.inl hbefore

/-- Every label that a pending loop keeps was named by a statement of the program. -/
theorem Reachable.pendingTargets
    [Sink σ]
    {out : σ}
    (h : Reachable p limit out m) :
    ∀ label ∈ Trap.pendingTargets m.traps,
      ∃ position a, p.action? position = some a ∧ label ∈ a.targets := by
  induction h with
  | start =>
      intro label hlabel
      cases hlabel
  | step _ ih =>
      intro label hlabel
      rcases pendingTargets_step hlabel with hbefore | ⟨a, haction, hnamed⟩
      · exact ih label hbefore
      · exact ⟨_, a, haction, hnamed⟩

/-- No statement of a program that declares its labels comes to a jump to an undeclared one. -/
theorem not_seeksUndeclared
    [Sink σ]
    {out : σ}
    (hp : p.DeclaresTargets)
    (h : Reachable p limit out m) :
    ¬ m.SeeksUndeclared p := by
  rintro ⟨a, label, haction, hseeks, hlabel⟩
  obtain ⟨position, a', haction', hnamed⟩ :
      ∃ position a', p.action? position = some a' ∧ label ∈ a'.targets := by
    rcases List.mem_append.1 hseeks.mem_targets with hnamed | hpending
    · exact ⟨m.position, a, haction, hnamed⟩
    · exact h.pendingTargets label hpending
  obtain ⟨target, htarget⟩ := hp position a' haction' label hnamed
  rw [hlabel] at htarget
  cases htarget

/-- A program that declares its labels halts with status zero only. -/
theorem status_of_declaresTargets
    [Sink σ]
    {out : σ}
    {status : Nat}
    (hp : p.DeclaresTargets)
    (h : Reachable p limit out m)
    (hstep : m.step p limit = .halted status m') :
    status = 0 := by
  obtain ⟨hstatus, hone⟩ := status_of_step hstep
  exact hstatus.resolve_right fun h₁ => not_seeksUndeclared hp h (hone.1 h₁)

/-- The same of a run from the start. -/
theorem status_of_run_of_declaresTargets
    [Sink σ]
    {out : σ}
    {n status : Nat}
    (hp : p.DeclaresTargets)
    (h : (start p out).run p limit n = .halted status m') :
    status = 0 := by
  obtain ⟨-, k, m, -, hrun, hstep, -⟩ := status_of_run h
  have hreached : Reachable p limit out ((start p out).run p limit k).machine :=
    Reachable.start.run k
  rw [hrun] at hreached
  exact status_of_declaresTargets hp hreached hstep

end Machine
end Trapline
