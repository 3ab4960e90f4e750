import Trapline.Proofs.Run
import Trapline.Proofs.Execution

/-!
# The step limit

The counter of a machine goes up by one with every statement that is fetched, and not at the end of
the program. A limit is compared with the counter after it went up and before the statement is
executed. So a limited run is the unlimited run, cut off in front of the first statement that would
make the counter exceed the limit.

Main statements:
* `run_limit_of_steps_le`: as long as the counter of the unlimited run does not exceed the limit,
  the limited run is the same.
* `run_limit_eq_truncation`: the two runs compared, whether or not the unlimited one ends in time.
-/

namespace Trapline
namespace Machine

variable {σ : Type}

theorem steps_jump
    (p : Program)
    (m : Machine σ)
    (label : Name) :
    (m.jump p label).machine.steps = m.steps := by
  rcases jump_cases p m label with ⟨target, -, h⟩ | ⟨-, h⟩
  · rw [h]
    rfl
  · rw [h]
    rfl

theorem steps_nextRound
    (p : Program)
    (m : Machine σ)
    (loop : Loop) :
    (m.nextRound p loop).machine.steps = m.steps := by
  rcases nextRound_cases p m loop with
    ⟨v, memory, -, -, h⟩ | ⟨memory, -, -, h⟩ | ⟨v, fault, -, -, h⟩ | ⟨fault, -, -, h⟩
  · rw [h, steps_jump]
    rfl
  · rw [h, steps_jump]
  · rw [h]
    rfl
  · rw [h]
    rfl

/-- Executing an action does not touch the counter. -/
theorem steps_exec
    [Sink σ]
    (p : Program)
    (m : Machine σ)
    (a : Action) :
    (m.exec p a).machine.steps = m.steps := by
  have hstore : (m.store (a.update m.memory)).machine.steps = m.steps := by
    cases a.update m.memory <;> rfl
  cases a with
  | put value =>
      cases hderef : m.memory.deref value with
      | error fault =>
          simp [exec, hderef, proceed, Progress.machine]
      | ok v =>
          simp only [exec, hderef, proceed, emit]
          split <;> rfl
  | jump label =>
      exact steps_jump p m label
  | trappedJump label =>
      exact steps_jump p (m.setTrap label none) label
  | returnToTrap label =>
      rcases returnToTrap_cases p m label with
        ⟨-, h⟩ | ⟨trap, older, -, -, h⟩ | ⟨trap, older, loop, -, -, h⟩
      · rw [exec, h]
        rfl
      · rw [exec, h]
        rfl
      · rw [exec, h, steps_nextRound]
  | each item target body escape =>
      rcases startLoop_cases p m item target body escape with
        ⟨items, -, h⟩ | ⟨fault, -, h⟩ | ⟨v, -, h⟩
      · rw [exec, h, steps_nextRound]
      · rw [exec, h]
        rfl
      · rw [exec, h]
        rfl
  | exit | setTrap label =>
      rfl
  | noop | label name | pushFrame | popFrame | set name value | localSet name value
  | vecPush name value | add left right out =>
      exact hstore

/-- A statement is counted however its execution ends, also when the limit forbids it. -/
theorem steps_of_step
    [Sink σ]
    {p : Program}
    (limit : Option Nat)
    {m : Machine σ}
    {s : Statement}
    (h : p.get? m.position = some s) :
    (m.step p limit).machine.steps = m.steps + 1 := by
  cases hlimit : limit.filter (· < m.steps + 1) with
  | some n =>
      rw [step_of_limit h hlimit]
      rfl
  | none =>
      have hexec := steps_exec p m.count s.action
      rw [step_eq_exec h hlimit]
      cases hresult : m.count.exec p s.action with
      | running m₁ =>
          rw [hresult] at hexec
          rw [finish, Progress.machine, advance]
          split
          · exact hexec
          · exact hexec
      | halted status m₁ | failed e m₁ =>
          rw [hresult] at hexec
          exact hexec

variable [Sink σ] {p : Program}

theorem steps_of_running
    {limit : Option Nat}
    {m m' : Machine σ}
    (h : m.step p limit = .running m') :
    m'.steps = m.steps + 1 := by
  cases hget : p.get? m.position with
  | none =>
      rw [step_of_end hget] at h
      cases h
  | some s =>
      have hsteps := steps_of_step limit hget
      rw [h] at hsteps
      exact hsteps

/-- The counter never goes down, and goes up by at most one with each step. -/
theorem steps_of_run
    (limit : Option Nat)
    (m : Machine σ)
    (n : Nat) :
    m.steps ≤ (m.run p limit n).machine.steps ∧
    (m.run p limit n).machine.steps ≤ m.steps + n := by
  induction n generalizing m with
  | zero =>
      exact ⟨Nat.le_refl _, Nat.le_refl _⟩
  | succ n ih =>
      rw [run]
      have hstep :
          m.steps ≤ (m.step p limit).machine.steps ∧
          (m.step p limit).machine.steps ≤ m.steps + 1 := by
        cases hget : p.get? m.position with
        | none =>
            rw [step_of_end hget]
            exact ⟨Nat.le_refl _, Nat.le_add_right _ _⟩
        | some s =>
            rw [steps_of_step limit hget]
            exact ⟨Nat.le_add_right _ _, Nat.le_refl _⟩
      cases hresult : m.step p limit with
      | running m' =>
          have hrunning := steps_of_running hresult
          have := ih m'
          dsimp only
          omega
      | halted status m' | failed e m' =>
          rw [hresult] at hstep
          dsimp only
          omega

/-- While a run goes on, its counter is the number of steps. -/
theorem steps_of_run_running
    {limit : Option Nat}
    {m m' : Machine σ}
    {n : Nat}
    (h : m.run p limit n = .running m') :
    m'.steps = m.steps + n := by
  induction n generalizing m with
  | zero =>
      cases h
      rfl
  | succ n ih =>
      obtain ⟨m₁, hm₁, hrun⟩ := running_of_le (Nat.le_add_left 1 n) h
      rw [run_one] at hm₁
      have hfirst := steps_of_running hm₁
      have hrest := ih hrun
      omega

/-- A step that does not make the counter exceed the limit is the same as without the limit. -/
theorem step_limit_of_steps_le
    {limit : Nat}
    {m : Machine σ}
    (h : (m.step p none).machine.steps ≤ limit) :
    m.step p (some limit) = m.step p none := by
  cases hget : p.get? m.position with
  | none =>
      rw [step_of_end hget, step_of_end hget]
  | some s =>
      rw [steps_of_step none hget] at h
      have hlimit : (some limit).filter (· < m.steps + 1) = none := by
        simp only [Option.filter_some, decide_eq_true_eq, ite_eq_right_iff, reduceCtorEq,
          imp_false, Nat.not_lt]
        exact h
      rw [step_eq_exec hget hlimit, step_eq_exec hget rfl]

/-- As long as the counter of the unlimited run does not exceed the limit, the limited run is the
same, whether or not it has stopped. -/
theorem run_limit_of_steps_le
    {limit : Nat}
    {m : Machine σ}
    {n : Nat}
    (h : (m.run p none n).machine.steps ≤ limit) :
    m.run p (some limit) n = m.run p none n := by
  induction n generalizing m with
  | zero =>
      rfl
  | succ n ih =>
      rw [run] at h ⊢
      rw [run]
      have hfirst : (m.step p none).machine.steps ≤ limit := by
        cases hresult : m.step p none with
        | running m' =>
            rw [hresult] at h
            exact Nat.le_trans (steps_of_run none m' n).1 h
        | halted status m' | failed e m' =>
            rw [hresult] at h
            exact h
      rw [step_limit_of_steps_le hfirst]
      cases hresult : m.step p none with
      | running m' =>
          rw [hresult] at h
          exact ih h
      | halted status m' | failed e m' =>
          rfl

/-- A step that goes on under a limit is the same without it. -/
theorem step_none_of_running
    {limit : Option Nat}
    {m m' : Machine σ}
    (h : m.step p limit = .running m') :
    m.step p none = .running m' := by
  cases hget : p.get? m.position with
  | none =>
      rw [step_of_end hget] at h
      cases h
  | some s =>
      cases hlimit : limit.filter (· < m.steps + 1) with
      | some n =>
          rw [step_of_limit hget hlimit] at h
          cases h
      | none =>
          rw [step_eq_exec hget hlimit] at h
          rw [step_eq_exec hget rfl, h]

theorem run_none_of_running
    {limit : Option Nat}
    {m m' : Machine σ}
    {n : Nat}
    (h : m.run p limit n = .running m') :
    m.run p none n = .running m' := by
  induction n generalizing m with
  | zero =>
      exact h
  | succ n ih =>
      obtain ⟨m₁, hm₁, hrest⟩ := running_of_le (Nat.le_add_left 1 n) h
      rw [run_one] at hm₁
      rw [run_succ_of_step (step_none_of_running hm₁)]
      exact ih hrest

/-- **A limit cuts a run off, and changes nothing else.** The counter of the unlimited run is the
number of statements that it has executed; the end of the program is not counted.

If the unlimited run stops with at most `limit` statements executed, the limited run stops in the
same way, with the same machine. If not, then the unlimited run is still going on after `limit`
statements, in front of another one. The limited run fails there, with the error placed at that
statement and with the machine of the unlimited run, except that one more statement is counted. -/
theorem run_limit_eq_truncation
    (p : Program)
    (limit : Nat)
    (out : σ) :
    (∀ n m, (start p out).run p none n = .running m →
      m.steps = n ∧
      (p.get? m.position = none → (start p out).run p none (n + 1) = .halted 0 m) ∧
      ∀ s, p.get? m.position = some s →
        ((start p out).run p none (n + 1)).machine.steps = n + 1) ∧
    (∀ n, ((start p out).run p none n).isRunning = false →
      ((start p out).run p none n).machine.steps ≤ limit →
      (start p out).run p (some limit) n = (start p out).run p none n) ∧
    ((¬ ∃ n, ((start p out).run p none n).isRunning = false ∧
        ((start p out).run p none n).machine.steps ≤ limit) →
      ∃ m s,
        (start p out).run p none limit = .running m ∧
        p.get? m.position = some s ∧
        (start p out).run p (some limit) (limit + 1) =
          .failed { fault := .stepLimitExceeded limit, origin := some s.location }
            { m with steps := limit + 1 }) := by
  have hcounter :
      ∀ n m, (start p out).run p none n = .running m → m.steps = n := by
    intro n m h
    simpa [start] using steps_of_run_running h
  refine ⟨?_, ?_, ?_⟩
  · intro n m h
    refine ⟨hcounter n m h, ?_, ?_⟩
    · intro hend
      rw [run_succ h, step_of_end hend]
    · intro s hs
      rw [run_succ h, steps_of_step none hs, hcounter n m h]
  · intro n _ hsteps
    exact run_limit_of_steps_le hsteps
  · intro hnot
    have hle : ∀ n ≤ limit, ((start p out).run p none n).machine.steps ≤ limit := by
      intro n hn
      have := (steps_of_run (p := p) none (start p out) n).2
      simp only [start, Nat.zero_add] at this ⊢
      omega
    cases hrun : (start p out).run p none limit with
    | halted status m | failed e m =>
        exact absurd ⟨limit, by rw [hrun]; rfl, hle limit (Nat.le_refl _)⟩ hnot
    | running m =>
        have hsteps : m.steps = limit := hcounter limit m hrun
        cases hget : p.get? m.position with
        | none =>
            have hend : (start p out).run p none (limit + 1) = .halted 0 m := by
              rw [run_succ hrun, step_of_end hget]
            refine absurd ⟨limit + 1, ?_, ?_⟩ hnot
            · rw [hend]
              rfl
            · rw [hend]
              exact Nat.le_of_eq hsteps
        | some s =>
            refine ⟨m, s, rfl, hget, ?_⟩
            have hlimited : (start p out).run p (some limit) limit = .running m := by
              rw [run_limit_of_steps_le (hle limit (Nat.le_refl _)), hrun]
            have hexceeded : (some limit).filter (· < m.steps + 1) = some limit := by
              simp [hsteps]
            rw [run_succ hlimited, step_of_limit hget hexceeded, count, hsteps]

/-- A program that puts two characters. -/
def twoPuts : Program := .ofCode #[
  { op := .put, args := [.char 'a'],
    location := { file := "main", line := 1 }, accepted := by decide },
  { op := .put, args := [.char 'b'],
    location := { file := "main", line := 2 }, accepted := by decide }]

/-- With a limit of two the program ends as it does without one, although a third step finds its
end. With a limit of one it fails at its second line, and the first character has been put. -/
theorem run_limit_of_twoPuts :
    (start twoPuts (#[] : Array String)).run twoPuts (some 2) 3 =
      (start twoPuts #[]).run twoPuts none 3 ∧
    ∃ m,
      (start twoPuts (#[] : Array String)).run twoPuts none 1 = .running m ∧
      m.out = #["a"] ∧
      (start twoPuts #[]).run twoPuts (some 1) 2 =
        .failed
          { fault := .stepLimitExceeded 1, origin := some { file := "main", line := 2 } }
          { m with steps := 2 } := by
  obtain ⟨-, hsame, -⟩ := run_limit_eq_truncation twoPuts 2 (#[] : Array String)
  obtain ⟨-, -, hcut⟩ := run_limit_eq_truncation twoPuts 1 (#[] : Array String)
  have hlate :
      ¬ ∃ n, ((start twoPuts (#[] : Array String)).run twoPuts none n).isRunning = false ∧
        ((start twoPuts (#[] : Array String)).run twoPuts none n).machine.steps ≤ 1 := by
    rintro ⟨n, hstopped, hsteps⟩
    have hend : (start twoPuts (#[] : Array String)).run twoPuts none (n + 3) =
        (start twoPuts #[]).run twoPuts none 3 :=
      run_of_stopped rfl (Nat.le_add_left 3 n)
    rw [← run_of_stopped hstopped (Nat.le_add_right n 3), hend] at hsteps
    exact absurd hsteps (by decide)
  obtain ⟨m, s, hm, hs, hfailed⟩ := hcut hlate
  cases hm
  cases hs
  exact ⟨hsame 3 rfl (by decide), _, rfl, rfl, hfailed⟩

end Machine
end Trapline
