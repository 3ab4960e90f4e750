import Trapline.Proofs.Labels
import Trapline.Proofs.Simulation

/-!
# A statement that does nothing

A program is padded when a statement that does nothing is put in somewhere. Every later position
moves by one, and with it every label and every place that a plain trap returns to. The run of the
padded program takes one step more each time it comes to the new statement, and otherwise does the
same.

At the gap the positions of the two programs correspond in two ways: the padded program may still
stand in front of the new statement, as after a return to a trap that was set right before the gap,
or already behind it, as after a jump to a label. The position that the trap of a loop returns to
corresponds to nothing, since it depends on the number of rounds; it is never used.

Main statements:
* `Program.PaddedAt.label?_eq`: where the labels of the padded program lead.
* `matches_step`: steps correspond, once the padded program has left the new statement behind.
* `exists_matches_run`: the padded program keeps up with the program.
-/

namespace Trapline

/-- Where a position lies once a statement was put in at a gap. -/
def shift (gap position : Nat) : Nat :=
  if position < gap then position else position + 1

theorem strictMono_shift
    (gap : Nat) :
    StrictMono (shift gap) := by
  intro a b hab
  unfold shift
  split <;> split <;> omega

theorem exists_shift_eq
    {gap position : Nat}
    (h : position ≠ gap) :
    ∃ old, shift gap old = position := by
  by_cases hlt : position < gap
  · exact ⟨position, if_pos hlt⟩
  · refine ⟨position - 1, ?_⟩
    unfold shift
    split <;> omega

/-- Positions with the same way ahead. At the gap the second one may be in front of the statement
that was put in, or behind it. -/
def SamePlace (gap position position' : Nat) : Prop :=
  (position' = position ∧ position ≤ gap) ∨ (position' = position + 1 ∧ gap ≤ position)

namespace SamePlace

variable {gap position position' : Nat}

theorem shift
    (gap position : Nat) :
    SamePlace gap position (shift gap position) := by
  unfold SamePlace Trapline.shift
  split <;> omega

theorem eq_shift
    (h : SamePlace gap position position')
    (hne : position' ≠ gap) :
    position' = Trapline.shift gap position := by
  unfold SamePlace at h
  unfold Trapline.shift
  split <;> omega

/-- The next positions correspond again unless only the second program has a statement to leave
behind. -/
theorem succ
    (h : SamePlace gap position position')
    (hne : position' ≠ gap) :
    SamePlace gap (position + 1) (position' + 1) := by
  unfold SamePlace at h ⊢
  omega

/-- Behind the statement that was put in the positions still correspond. -/
theorem leave
    (h : SamePlace gap position gap) :
    SamePlace gap position (gap + 1) := by
  unfold SamePlace at h ⊢
  omega

end SamePlace

/-- The second program is the first one with a statement that does nothing put in at a gap. -/
structure Program.PaddedAt (p p' : Program) (gap : Nat) : Prop where
  action_shift : ∀ position, p'.action? (shift gap position) = p.action? position
  action_gap : p'.action? gap = some .noop

namespace Program.PaddedAt

variable {p p' : Program} {gap : Nat}

/-- A label leads to the shifted position. -/
theorem label?_eq
    (h : p.PaddedAt p' gap)
    (name : Name) :
    p'.label? name = (p.label? name).map (shift gap) := by
  apply label?_of_strictMono (strictMono_shift gap)
  · intro position
    rw [h.action_shift]
  · intro position hposition
    apply exists_shift_eq
    rintro rfl
    rw [h.action_gap] at hposition
    cases hposition

theorem samePlace_entry
    (h : p.PaddedAt p' gap) :
    SamePlace gap p.entry p'.entry := by
  rw [entry, entry, h.label?_eq]
  cases p.label? entryLabel with
  | some target =>
      exact .shift gap target
  | none =>
      exact Or.inl ⟨rfl, Nat.zero_le gap⟩

end Program.PaddedAt

namespace Trap

/-- Corresponding traps. Where the trap of a loop returns to does not matter. -/
structure Alike (gap : Nat) (trap trap' : Trap) : Prop where
  label : trap'.label = trap.label
  loop : trap'.loop = trap.loop
  resumeAt : trap.loop = none → SamePlace gap trap.resumeAt trap'.resumeAt

/-- Corresponding stacks of traps. -/
abbrev AllAlike (gap : Nat) : List Trap → List Trap → Prop :=
  List.Forall₂ (Alike gap)

theorem alike_loop
    (gap : Nat)
    (label : Name)
    (resumeAt resumeAt' : Nat)
    (loop : Loop) :
    Alike gap { label, resumeAt, loop := some loop } { label, resumeAt := resumeAt', loop := some loop } :=
  ⟨rfl, rfl, nofun⟩

/-- A return finds corresponding traps in corresponding stacks. -/
theorem AllAlike.unwind?
    {gap : Nat}
    {traps traps' : List Trap}
    (h : AllAlike gap traps traps')
    (label : Name) :
    Option.Rel (fun found found' => Alike gap found.1 found'.1 ∧ AllAlike gap found.2 found'.2)
      (unwind? label traps) (unwind? label traps') := by
  induction h with
  | nil =>
      exact .none
  | @cons trap trap' older older' htrap holder ih =>
      rw [unwind?_cons, unwind?_cons, htrap.label]
      split
      · exact .some ⟨htrap, holder⟩
      · exact ih

theorem AllAlike.map_label
    {gap : Nat}
    {traps traps' : List Trap}
    (h : AllAlike gap traps traps') :
    traps'.map Trap.label = traps.map Trap.label := by
  induction h with
  | nil =>
      rfl
  | cons htrap _ ih =>
      rw [List.map_cons, List.map_cons, htrap.label, ih]

end Trap

namespace Machine

variable {σ : Type}

/-- Machines that correspond wherever they stand. -/
structure Alike (gap : Nat) (m m' : Machine σ) : Prop where
  memory : m'.memory = m.memory
  out : m'.out = m.out
  traps : Trap.AllAlike gap m.traps m'.traps

/-- Machines that correspond and stand at the same place, between two steps. -/
structure InStep (gap : Nat) (m m' : Machine σ) : Prop extends Alike gap m m' where
  position : SamePlace gap m.position m'.position
  jumped : m.jumped = false
  jumped' : m'.jumped = false

/-- Results that correspond: machines that go on are in step, and errors have the same fault. -/
abbrev Matches (gap : Nat) : Progress σ → Progress σ → Prop :=
  Progress.Related (InStep gap) (Alike gap) fun e e' => e'.fault = e.fault

/-- Results before the machines have moved on. -/
abbrev MatchesUnfinished (gap : Nat) : Progress σ → Progress σ → Prop :=
  Progress.Related (fun m m' => InStep gap m.advance m'.advance) (Alike gap)
    fun e e' => e'.fault = e.fault

variable {p p' : Program} {gap : Nat} {m m' : Machine σ}

/-- Machines that jumped to the same place are in step. -/
theorem Alike.advance_of_jumped
    (h : Alike gap m m')
    (hposition : SamePlace gap m.position m'.position)
    (hjumped : m.jumped = true)
    (hjumped' : m'.jumped = true) :
    InStep gap m.advance m'.advance := by
  simp only [Machine.advance, hjumped, hjumped', ↓reduceIte]
  exact ⟨⟨h.memory, h.out, h.traps⟩, hposition, rfl, rfl⟩

theorem InStep.advance
    (h : InStep gap m m')
    (hne : m'.position ≠ gap) :
    InStep gap m.advance m'.advance := by
  simp only [Machine.advance, h.jumped, h.jumped', Bool.false_eq_true, ↓reduceIte]
  exact ⟨⟨h.memory, h.out, h.traps⟩, h.position.succ hne, rfl, rfl⟩

theorem Alike.withMemory
    (h : Alike gap m m')
    (memory : Memory) :
    Alike gap { m with memory } { m' with memory } :=
  ⟨rfl, h.out, h.traps⟩

theorem matches_jump
    (hp : p.PaddedAt p' gap)
    (h : Alike gap m m')
    (label : Name) :
    MatchesUnfinished gap (m.jump p label) (m'.jump p' label) := by
  simp only [jump, hp.label?_eq]
  cases p.label? label with
  | some target =>
      refine .running ?_
      exact Alike.advance_of_jumped ⟨h.memory, h.out, h.traps⟩ (.shift gap target) rfl rfl
  | none =>
      exact .halted _ h

/-- The next round of a loop does the same wherever it was started from. -/
theorem matches_nextRound
    (hp : p.PaddedAt p' gap)
    (h : Alike gap m m')
    (loop : Loop) :
    MatchesUnfinished gap (m.nextRound p loop) (m'.nextRound p' loop) := by
  simp only [nextRound, h.memory]
  cases loop.items[loop.next]? with
  | none =>
      cases m.memory.popFrame with
      | ok memory =>
          exact matches_jump hp (h.withMemory memory) loop.escape
      | error fault =>
          exact .failed rfl h
  | some v =>
      dsimp only
      cases m.memory.setOrLocal loop.item v with
      | ok memory =>
          have hround : Alike gap
              (setTrap { m with memory } Trap.loopLabel (some { loop with next := loop.next + 1 }))
              (setTrap { m' with memory } Trap.loopLabel
                (some { loop with next := loop.next + 1 })) :=
            ⟨rfl, h.out, .cons (Trap.alike_loop gap _ _ _ _) h.traps⟩
          exact matches_jump hp hround loop.body
      | error fault =>
          exact .failed rfl h

theorem matches_returnToTrap
    (hp : p.PaddedAt p' gap)
    (h : Alike gap m m')
    (label : Name) :
    MatchesUnfinished gap (m.returnToTrap p label) (m'.returnToTrap p' label) := by
  have hunwind := h.traps.unwind? label
  simp only [returnToTrap]
  generalize Trap.unwind? label m.traps = found at hunwind ⊢
  generalize Trap.unwind? label m'.traps = found' at hunwind ⊢
  cases hunwind with
  | none =>
      exact .failed rfl h
  | @some found found' hfound =>
      obtain ⟨trap, older⟩ := found
      obtain ⟨trap', older'⟩ := found'
      obtain ⟨htrap, holder⟩ := hfound
      have hback : Alike gap
          { m with traps := older, position := trap.resumeAt, jumped := true }
          { m' with traps := older', position := trap'.resumeAt, jumped := true } :=
        ⟨h.memory, h.out, holder⟩
      dsimp only at htrap ⊢
      rw [htrap.loop]
      cases hloop : trap.loop with
      | none =>
          exact .running (hback.advance_of_jumped (htrap.resumeAt hloop) rfl rfl)
      | some loop =>
          exact matches_nextRound hp hback loop

theorem matches_startLoop
    (hp : p.PaddedAt p' gap)
    (h : Alike gap m m')
    (item : Name)
    (target : Value)
    (body escape : Name) :
    MatchesUnfinished gap (m.startLoop p item target body escape)
      (m'.startLoop p' item target body escape) := by
  simp only [startLoop, h.memory]
  cases m.memory.deref target with
  | error fault =>
      exact .failed rfl h
  | ok v =>
      cases v with
      | vector items =>
          exact matches_nextRound hp (h.withMemory m.memory.pushFrame)
            { item, items, body, escape, next := 0 }
      | int n | float x | char c | ident name =>
          exact .failed rfl h

theorem inStep_start
    (hp : p.PaddedAt p' gap)
    (out : σ) :
    InStep gap (start p out) (start p' out) :=
  ⟨⟨rfl, rfl, .nil⟩, hp.samePlace_entry, rfl, rfl⟩

variable [Sink σ]

theorem matches_emit
    (h : InStep gap m m')
    (hne : m'.position ≠ gap)
    (line : String) :
    MatchesUnfinished gap (m.emit line) (m'.emit line) := by
  simp only [emit, h.out]
  split
  · refine .running (InStep.advance ?_ hne)
    exact ⟨⟨h.memory, rfl, h.traps⟩, h.position, h.jumped, h.jumped'⟩
  · exact .failed rfl ⟨h.memory, rfl, h.traps⟩

/-- Machines in step that execute the same action give corresponding results. -/
theorem matches_exec
    (hp : p.PaddedAt p' gap)
    (h : InStep gap m m')
    (hne : m'.position ≠ gap)
    (a : Action) :
    MatchesUnfinished gap (m.exec p a) (m'.exec p' a) := by
  -- what an action on variables makes of the memory is the same in both
  have hstore :
      MatchesUnfinished gap (m.store (a.update m.memory)) (m'.store (a.update m'.memory)) := by
    rw [h.memory]
    cases a.update m.memory with
    | ok memory =>
        refine .running (InStep.advance ?_ hne)
        exact ⟨⟨rfl, h.out, h.traps⟩, h.position, h.jumped, h.jumped'⟩
    | error fault =>
        exact .failed rfl h.toAlike
  -- a plain trap returns to the next position
  have hset : ∀ label, InStep gap (m.setTrap label none) (m'.setTrap label none) := by
    intro label
    have htrap : Trap.Alike gap
        { label, resumeAt := m.position + 1, loop := none }
        { label, resumeAt := m'.position + 1, loop := none } :=
      ⟨rfl, rfl, fun _ => h.position.succ hne⟩
    exact ⟨⟨h.memory, h.out, .cons htrap h.traps⟩, h.position, h.jumped, h.jumped'⟩
  cases a with
  | put value =>
      simp only [exec, h.memory]
      cases m.memory.deref value with
      | ok v =>
          exact matches_emit h hne v.display
      | error fault =>
          exact .failed rfl h.toAlike
  | jump label =>
      exact matches_jump hp h.toAlike label
  | exit =>
      exact .halted 0 h.toAlike
  | setTrap label =>
      exact .running ((hset label).advance hne)
  | returnToTrap label =>
      exact matches_returnToTrap hp h.toAlike label
  | trappedJump label =>
      exact matches_jump hp (hset label).toAlike label
  | each item target body escape =>
      exact matches_startLoop hp h.toAlike item target body escape
  | noop | label name | pushFrame | popFrame | set name value | localSet name value
  | vecPush name value | add left right out =>
      exact hstore

/-- A machine that has left the new statement behind takes the same step. -/
theorem matches_step
    (hp : p.PaddedAt p' gap)
    (h : InStep gap m m')
    (hne : m'.position ≠ gap) :
    Matches gap (m.step p none) (m'.step p' none) := by
  have haction : p'.action? m'.position = p.action? m.position := by
    rw [h.position.eq_shift hne, hp.action_shift]
  cases hs : p.get? m.position with
  | none =>
      rw [Program.action?, Program.action?, hs, Option.map_none, Option.map_eq_none_iff] at haction
      rw [step_of_end hs, step_of_end haction]
      exact .halted 0 h.toAlike
  | some s =>
      rw [Program.action?, Program.action?, hs, Option.map_some, Option.map_eq_some_iff] at haction
      obtain ⟨s', hs', haction⟩ := haction
      rw [step_eq_exec hs rfl, step_eq_exec hs' rfl, haction]
      have hcount : InStep gap m.count m'.count :=
        ⟨⟨h.memory, h.out, h.traps⟩, h.position, h.jumped, h.jumped'⟩
      exact (matches_exec hp hcount hne s.action).finish (fun _ _ h => h) fun _ _ h => h

/-- A machine in front of the new statement leaves it behind and is still in step. -/
theorem step_of_gap
    (hp : p.PaddedAt p' gap)
    (h : InStep gap m m')
    (hgap : m'.position = gap) :
    ∃ m'', m'.step p' none = .running m'' ∧ InStep gap m m'' ∧ m''.position ≠ gap := by
  have haction := hp.action_gap
  rw [← hgap] at haction
  obtain ⟨s, hs, haction⟩ := Option.map_eq_some_iff.1 haction
  have hplace : SamePlace gap m.position (m'.position + 1) := by
    have hposition := h.position
    rw [hgap] at hposition ⊢
    exact hposition.leave
  have hstep : m'.step p' none =
      .running { m'.count with position := m'.position + 1 } := by
    rw [step_eq_exec hs rfl, haction]
    simp [exec, Action.update, store, finish, Machine.advance, count, h.jumped']
  refine ⟨_, hstep, ⟨⟨h.memory, h.out, h.traps⟩, hplace, h.jumped, h.jumped'⟩, ?_⟩
  simp [hgap]

/-- After at most one step of its own the machine of the padded program takes the same step. -/
theorem exists_matches_step
    (hp : p.PaddedAt p' gap)
    (h : InStep gap m m') :
    ∃ k m'', m'.run p' none k = .running m'' ∧ Matches gap (m.step p none) (m''.step p' none) := by
  by_cases hgap : m'.position = gap
  · obtain ⟨m'', hstep, hm'', hne⟩ := step_of_gap hp h hgap
    refine ⟨1, m'', ?_, matches_step hp hm'' hne⟩
    rw [run_one, hstep]
  · exact ⟨0, m', rfl, matches_step hp h hgap⟩

/-- The padded program keeps up with the program. -/
theorem exists_matches_run
    (hp : p.PaddedAt p' gap)
    (out : σ)
    (n : Nat) :
    ∃ n', n ≤ n' ∧ Matches gap ((start p out).run p none n) ((start p' out).run p' none n') :=
  Progress.Related.exists_run (fun _ _ h => exists_matches_step hp h) (inStep_start hp out) n

end Machine
end Trapline
