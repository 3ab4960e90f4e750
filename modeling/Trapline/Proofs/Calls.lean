import Trapline.Proofs.Run
import Trapline.Proofs.TrapStack
import Trapline.Source

/-!
# Calls and returns

A call sets a trap behind the call and jumps; the return takes the newest trap with the label of the
call. Nothing pairs the two, and between them the program may do what it likes: call the same label
again, loop, or set other traps. It cannot touch the traps that were pending when the call was made,
nor that of the call, without coming down to their height, and only a return does that.

Main statements:
* `pending_of_after`: the trap of a call stays with everything below it as long as the height of the
  traps stays above it.
* `return_of_lowered`: what the step that ends this is.
* `call_discipline`: a call and its return.
-/

namespace Trapline
namespace Machine

variable {σ : Type} [Sink σ] {p : Program} {limit : Option Nat}

/-- An action that sets a trap for a return to a label. -/
def IsCall (label : Name) (a : Action) : Prop :=
  a = .setTrap label ∨ a = .trappedJump label

/-- The newest trap with a label has the given number of traps below it. -/
def NewestAt (label : Name) (height : Nat) (traps : List Trap) : Prop :=
  ∃ newer trap older,
    traps = newer ++ trap :: older ∧
    trap.label = label ∧
    (∀ t ∈ newer, t.label ≠ label) ∧
    older.length = height

/-- The number of pending traps is above a height after each of the first steps. -/
def StaysAbove (p : Program) (limit : Option Nat) (height : Nat) (m : Machine σ) (n : Nat) : Prop :=
  ∀ k ≤ n, height < (m.after p limit k).traps.length

theorem traps_of_call
    {m : Machine σ}
    {a : Action}
    {label : Name}
    (hcall : IsCall label a)
    (h : m.Executes p limit a) :
    (m.step p limit).machine.traps = .ofCall label m.position :: m.traps := by
  rw [traps_of_executes h]
  rcases hcall with rfl | rfl
  · rfl
  · rw [exec, traps_jump]
    rfl

variable {trap : Trap} {older : List Trap}

/-- A step leaves a trap without a loop where it is, with everything below it, or comes down to its
height by a return. -/
theorem pending_of_step
    (p : Program)
    (limit : Option Nat)
    {m : Machine σ}
    {newer : List Trap}
    (hloop : trap.loop = none)
    (hm : m.traps = newer ++ trap :: older) :
    (∃ newer', (m.step p limit).machine.traps = newer' ++ trap :: older) ∨
    ((m.step p limit).machine.traps.length ≤ older.length ∧
      ∃ label height,
        m.Executes p limit (.returnToTrap label) ∧
        NewestAt label height m.traps ∧
        height ≤ older.length) := by
  rcases change_of_step p limit m with hsame | ⟨a, hexecutes, hchange⟩
  · exact Or.inl ⟨newer, hsame.trans hm⟩
  · rw [hm] at hchange
    rcases hchange.pending hloop with hstays | ⟨hlow, label, found, rest, rfl, hunwind, hrest⟩
    · exact Or.inl hstays
    · obtain ⟨newer', htraps, hlabel, hnewer⟩ := Trap.unwind?_eq_some_iff.1 hunwind
      exact Or.inr ⟨hlow, label, rest.length, hexecutes,
        ⟨newer', found, rest, hm.trans htraps, hlabel, hnewer, rfl⟩, hrest⟩

/-- A trap without a loop stays where it is, with everything below it, as long as the traps stay
above its height. -/
theorem pending_of_after
    {m : Machine σ}
    {n : Nat}
    (hloop : trap.loop = none)
    (hm : m.traps = trap :: older)
    (h : m.StaysAbove p limit older.length n) :
    ∃ newer, (m.after p limit n).traps = newer ++ trap :: older := by
  induction n with
  | zero =>
      exact ⟨[], hm⟩
  | succ n ih =>
      obtain ⟨newer, hnewer⟩ := ih fun k hk => h k (by omega)
      rcases pending_of_step p limit hloop hnewer with hstays | ⟨hlow, -⟩
      · exact hstays
      · have habove := h (n + 1) le_rfl
        rw [after] at habove
        omega

/-- The step that comes down to the height of a trap without a loop is a return to a label whose
newest trap is not above it. -/
theorem return_of_lowered
    {m : Machine σ}
    {n : Nat}
    (hloop : trap.loop = none)
    (hm : m.traps = trap :: older)
    (h : m.StaysAbove p limit older.length n)
    (hlow : (m.after p limit (n + 1)).traps.length ≤ older.length) :
    ∃ label height,
      (m.after p limit n).Executes p limit (.returnToTrap label) ∧
      NewestAt label height (m.after p limit n).traps ∧
      height ≤ older.length := by
  obtain ⟨newer, hnewer⟩ := pending_of_after hloop hm h
  rcases pending_of_step p limit hloop hnewer with ⟨newer', hstays⟩ | ⟨-, hreturn⟩
  · rw [after, hstays, List.length_append, List.length_cons] at hlow
    omega
  · exact hreturn

/-- A return that finds a trap without a loop goes on behind the call, with the traps below. -/
theorem step_of_return
    {m : Machine σ}
    {label : Name}
    (hloop : trap.loop = none)
    (hunwind : Trap.unwind? label m.traps = some (trap, older))
    (h : m.Executes p limit (.returnToTrap label)) :
    m.step p limit =
      .running { m.count with traps := older, position := trap.resumeAt, jumped := false } := by
  obtain ⟨s, -, hstep⟩ := step_of_executes h
  have hcount : Trap.unwind? label m.count.traps = some (trap, older) := hunwind
  simp only [hstep, exec, returnToTrap, hcount, hloop, finish]
  rfl

/-- A return without a trap fails, and nothing but the count of steps has changed. -/
theorem step_of_lost_return
    {m : Machine σ}
    {label : Name}
    (hlost : ∀ t ∈ m.traps, t.label ≠ label)
    (h : m.Executes p limit (.returnToTrap label)) :
    ∃ s,
      p.get? m.position = some s ∧
      m.step p limit =
        .failed { fault := .trapNotFound label, origin := some s.location } m.count := by
  obtain ⟨s, hget, hstep⟩ := step_of_executes h
  have hunwind : Trap.unwind? label m.count.traps = none := by
    cases hfound : Trap.unwind? label m.count.traps with
    | none => rfl
    | some found =>
        obtain ⟨newer, htraps, hlabel, -⟩ := Trap.unwind?_eq_some_iff.1 hfound
        have hmem : found.1 ∈ m.traps := by
          rw [show m.traps = newer ++ found.1 :: found.2 from htraps]
          simp
        exact absurd hlabel (hlost found.1 hmem)
  refine ⟨s, hget, ?_⟩
  simp only [hstep, exec, returnToTrap, hunwind, finish]
  rfl

/-- **Calls and returns are paired by the height of the traps.** Take any program, any limit and any
machine whose step is a call. It sets a trap without a loop on top of those pending. Now let the
machine make any number of steps, however they end, and let the number of traps stay above that
before the call. Then all these traps are in place as they were. If the next step comes down to that
number or below, it is a return, and the newest trap with its label is that of the call or a lower
one. If the next step is a return to the label of the call and no newer trap has this label, then it
goes on right behind the call, with the traps from before the call and with nothing else changed. A
return to a label that no trap has fails and leaves all as it was. -/
theorem call_discipline
    (p : Program)
    (limit : Option Nat) :
    (∀ (m called : Machine σ) (a : Action) (label : Name),
      IsCall label a →
      m.Executes p limit a →
      (m.step p limit).machine = called →
      called.traps = .ofCall label m.position :: m.traps ∧
      ∀ (n : Nat) (q : Machine σ),
        called.StaysAbove p limit m.traps.length n →
        called.after p limit n = q →
        (∃ newer, q.traps = newer ++ .ofCall label m.position :: m.traps) ∧
        ((q.step p limit).machine.traps.length ≤ m.traps.length →
          ∃ label' height,
            q.Executes p limit (.returnToTrap label') ∧
            NewestAt label' height q.traps ∧
            height ≤ m.traps.length) ∧
        (q.Executes p limit (.returnToTrap label) →
          NewestAt label m.traps.length q.traps →
          q.step p limit =
            .running {
              q.count with
              traps := m.traps
              position := m.position + 1
              jumped := false })) ∧
    ∀ (m : Machine σ) (label : Name),
      m.Executes p limit (.returnToTrap label) →
      (∀ t ∈ m.traps, t.label ≠ label) →
      ∃ s,
        p.get? m.position = some s ∧
        m.step p limit =
          .failed { fault := .trapNotFound label, origin := some s.location } m.count := by
  refine ⟨?_, fun m label h hlost => step_of_lost_return hlost h⟩
  rintro m _ a label hcall hexecutes rfl
  have hcalled := traps_of_call hcall hexecutes
  refine ⟨hcalled, ?_⟩
  rintro n _ habove rfl
  obtain ⟨newer, hnewer⟩ := pending_of_after rfl hcalled habove
  refine ⟨⟨newer, hnewer⟩, return_of_lowered rfl hcalled habove, ?_⟩
  rintro hreturn ⟨newer', found, older, htraps, hlabel, hfirst, hlength⟩
  -- there is one trap only at this height, that of the call
  obtain ⟨-, hsame⟩ := List.append_inj' (htraps.symm.trans hnewer) (by simp [hlength])
  obtain ⟨rfl, rfl⟩ := List.cons.inj hsame
  exact step_of_return rfl (Trap.unwind?_eq_some_iff.2 ⟨newer', htraps, hlabel, hfirst⟩) hreturn

/-- A subroutine that calls itself from inside a loop, once: the inner call finds nothing to loop
over. -/
def recursiveCall : String :=
  "set: :v, \"a\ntrapped_jmp: :f\nexit\nlabel: :f\neach: :x, :v, :body, :done\nlabel: :body\n" ++
    "set: :v, \"\ntrapped_jmp: :f\nreturn_to_trap: :each\nlabel: :done\nreturn_to_trap: :f"

/-- At the call on the second line no trap is pending. Eleven steps later the inner call has
returned and the loop has ended. The return that follows finds the trap of the outer call and goes
on behind that call. -/
theorem call_discipline_of_recursiveCall :
    ∃ p m q,
      Program.ofText recursiveCall "main" = .ok p ∧
      (start p (#[] : Array String)).run p none 1 = .running m ∧
      m.position = 1 ∧
      m.traps = [] ∧
      (m.step p none).machine.after p none 11 = q ∧
      q.position = 10 ∧
      (∃ newer, q.traps = newer ++ [.ofCall "f" 1]) ∧
      q.step p none = .running { q.count with traps := [], position := 2, jumped := false } := by
  -- one evaluation for everything, since loading the text takes most of it
  have hrun : ∃ p ∈ (Program.ofText recursiveCall "main").toOption,
      let x := (start p (#[] : Array String)).run p none 1
      let called := (x.machine.step p none).machine
      let q := called.after p none 11
      x.isRunning = true ∧
      x.machine.position = 1 ∧
      x.machine.traps = [] ∧
      p.action? x.machine.position = some (.trappedJump "f") ∧
      (∀ k < 12, 0 < (called.after p none k).traps.length) ∧
      q.position = 10 ∧
      p.action? q.position = some (.returnToTrap "f") ∧
      q.traps = [.ofCall "f" 1] := by
    decide +kernel
  obtain ⟨p, hload, hrunning, hposition, htraps, hcall, habove, hposition', hreturn, htraps'⟩ :=
    hrun
  have hp : Program.ofText recursiveCall "main" = .ok p := by
    cases hresult : Program.ofText recursiveCall "main" with
    | error e =>
        rw [hresult] at hload
        cases hload
    | ok p' =>
        rw [hresult] at hload
        cases hload
        rfl
  have hm := Progress.isRunning_iff.1 hrunning
  generalize ((start p (#[] : Array String)).run p none 1).machine = m at *
  have hstays : (m.step p none).machine.StaysAbove p none m.traps.length 11 := by
    intro k hk
    rw [htraps, List.length_nil]
    exact habove k (by omega)
  obtain ⟨-, hlater⟩ :=
    (call_discipline p none).1 m _ _ "f" (Or.inr rfl) ⟨hcall, rfl⟩ rfl
  obtain ⟨hpending, -, hback⟩ := hlater 11 _ hstays rfl
  have hnewest :
      NewestAt "f" m.traps.length ((m.step p none).machine.after p none 11).traps := by
    rw [htraps, htraps']
    exact ⟨[], .ofCall "f" 1, [], rfl, rfl, nofun, rfl⟩
  have hstep := hback ⟨hreturn, rfl⟩ hnewest
  rw [htraps, hposition] at hpending hstep
  exact ⟨p, m, _, hp, hm, hposition, htraps, rfl, hposition', hpending, hstep⟩

end Machine
end Trapline
