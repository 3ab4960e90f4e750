import Trapline.Proofs.Run

/-!
# Two runs side by side

A relation between two machines, possibly of two programs and with two sinks, is carried over to
what steps and runs give. Two results are related when they are of the same sort: both go on, both
halt with the same status, or both fail with related errors. The relation between machines that go
on may be stronger than that between machines that have stopped.

Main statements:
* `Progress.Related.run_at`, `Progress.Related.run`: machines whose steps are related run in
  lockstep. Their errors may be related by what the last step of the first machine was.
* `Progress.Related.exists_run`: the second machine may take more steps than the first.
* `Progress.Related.exists_stop_iff`, `Progress.Related.of_stopped`: such machines stop both or
  neither, and in related ways.
-/

namespace Trapline

namespace Progress

variable {σ τ : Type}

/-- Two results of the same sort, with related machines and errors. -/
inductive Related (R S : Machine σ → Machine τ → Prop) (E : Error → Error → Prop) :
    Progress σ → Progress τ → Prop
  | running
      {m : Machine σ} {m' : Machine τ}
      (h : R m m') :
      Related R S E (.running m) (.running m')
  | halted
      {m : Machine σ} {m' : Machine τ}
      (status : Nat)
      (h : S m m') :
      Related R S E (.halted status m) (.halted status m')
  | failed
      {e e' : Error} {m : Machine σ} {m' : Machine τ}
      (he : E e e')
      (h : S m m') :
      Related R S E (.failed e m) (.failed e' m')

variable {R R' S : Machine σ → Machine τ → Prop} {E E' : Error → Error → Prop}
variable {x : Progress σ} {y : Progress τ}

theorem Related.isRunning_eq
    (h : Related R S E x y) :
    x.isRunning = y.isRunning := by
  cases h <;> rfl

theorem Related.imp
    (h : Related R S E x y)
    (hE : ∀ e e', E e e' → E' e e') :
    Related R S E' x y := by
  cases h with
  | running h =>
      exact .running h
  | halted status h =>
      exact .halted status h
  | failed he h =>
      exact .failed (hE _ _ he) h

/-- Ending two statements keeps results related, as soon as moving on and placing an error do. -/
theorem Related.finish
    {l l' : Location}
    (h : Related R S E x y)
    (hR : ∀ m m', R m m' → R' m.advance m'.advance)
    (hE : ∀ e e', E e e' → E' (e.locateIfUnplaced l) (e'.locateIfUnplaced l')) :
    Related R' S E' (Machine.finish l x) (Machine.finish l' y) := by
  cases h with
  | running h =>
      exact .running (hR _ _ h)
  | halted status h =>
      exact .halted status h
  | failed he h =>
      exact .failed (hE _ _ he) h

/-- Machines whose steps are related run in lockstep. Where they fail, their errors are related as
those of the step of the first machine that fails. -/
theorem Related.run_at
    [Sink σ]
    [Sink τ]
    {p p' : Program}
    {limit limit' : Option Nat}
    {F : Machine σ → Error → Error → Prop}
    (hstep : ∀ m m', R m m' → Related R S (F m) (m.step p limit) (m'.step p' limit'))
    {m : Machine σ}
    {m' : Machine τ}
    (h : R m m')
    (n : Nat) :
    Related R S
      (fun e e' => ∃ k q q',
        k < n ∧ m.run p limit k = .running q ∧ q.step p limit = .failed e q' ∧ F q e e')
      (m.run p limit n) (m'.run p' limit' n) := by
  induction n generalizing m m' with
  | zero =>
      exact .running h
  | succ n ih =>
      have hfirst := hstep m m' h
      rw [Machine.run, Machine.run]
      cases hx : m.step p limit with
      | running m₁ =>
          rw [hx] at hfirst
          generalize m'.step p' limit' = y at hfirst ⊢
          cases hfirst with
          | running h₁ =>
              refine (ih h₁).imp ?_
              rintro e e' ⟨k, q, q', hk, hrun, hfailed, he⟩
              refine ⟨k + 1, q, q', Nat.succ_lt_succ hk, ?_, hfailed, he⟩
              rw [Machine.run_succ_of_step hx]
              exact hrun
      | halted status m₁ =>
          rw [hx] at hfirst
          generalize m'.step p' limit' = y at hfirst ⊢
          cases hfirst with
          | halted _ h₁ =>
              exact .halted status h₁
      | failed e m₁ =>
          rw [hx] at hfirst
          generalize m'.step p' limit' = y at hfirst ⊢
          cases hfirst with
          | failed he h₁ =>
              exact .failed ⟨0, m, m₁, Nat.succ_pos n, rfl, hx, he⟩ h₁

/-- Machines whose steps are related run in lockstep. -/
theorem Related.run
    [Sink σ]
    [Sink τ]
    {p p' : Program}
    {limit limit' : Option Nat}
    (hstep : ∀ m m', R m m' → Related R S E (m.step p limit) (m'.step p' limit'))
    {m : Machine σ}
    {m' : Machine τ}
    (h : R m m')
    (n : Nat) :
    Related R S E (m.run p limit n) (m'.run p' limit' n) := by
  refine (Related.run_at hstep h n).imp ?_
  rintro e e' ⟨k, q, q', -, -, -, he⟩
  exact he

/-- When the second machine may first have to go some steps alone before its step is related, it
keeps up with the first one and is never behind. -/
theorem Related.exists_run
    [Sink σ]
    [Sink τ]
    {p p' : Program}
    {limit limit' : Option Nat}
    (hstep :
      ∀ m m', R m m' →
        ∃ k m'', m'.run p' limit' k = .running m'' ∧
          Related R S E (m.step p limit) (m''.step p' limit'))
    {m : Machine σ}
    {m' : Machine τ}
    (h : R m m')
    (n : Nat) :
    ∃ n', n ≤ n' ∧ Related R S E (m.run p limit n) (m'.run p' limit' n') := by
  induction n generalizing m m' with
  | zero =>
      exact ⟨0, Nat.le_refl 0, .running h⟩
  | succ n ih =>
      obtain ⟨k, m'', hk, hfirst⟩ := hstep m m' h
      -- a machine that has stopped stays so, and one that goes on is related again
      have hrest : ∃ n', n ≤ n' ∧
          Related R S E (m.run p limit (n + 1)) (m''.run p' limit' (n' + 1)) := by
        simp only [Machine.run]
        generalize m.step p limit = x at hfirst ⊢
        generalize m''.step p' limit' = y at hfirst ⊢
        cases hfirst with
        | running h₁ =>
            exact ih h₁
        | halted status h₁ =>
            exact ⟨n, Nat.le_refl n, .halted status h₁⟩
        | failed he h₁ =>
            exact ⟨n, Nat.le_refl n, .failed he h₁⟩
      obtain ⟨n', hn', hrelated⟩ := hrest
      refine ⟨k + (n' + 1), by omega, ?_⟩
      rw [Machine.run_add hk]
      exact hrelated

section Stopping

variable [Sink σ] [Sink τ] {p p' : Program} {limit limit' : Option Nat}
variable {m : Machine σ} {m' : Machine τ}

/-- A machine and one that keeps up with it stop both or neither. -/
theorem Related.exists_stop_iff
    (h : ∀ n, ∃ n', n ≤ n' ∧ Related R S E (m.run p limit n) (m'.run p' limit' n')) :
    (∃ n, (m.run p limit n).isRunning = false) ↔
      ∃ n', (m'.run p' limit' n').isRunning = false := by
  constructor
  · rintro ⟨n, hn⟩
    obtain ⟨n', -, hrelated⟩ := h n
    exact ⟨n', hrelated.isRunning_eq.symm.trans hn⟩
  · rintro ⟨n, hn⟩
    obtain ⟨n', hle, hrelated⟩ := h n
    refine ⟨n, ?_⟩
    rw [hrelated.isRunning_eq, Machine.run_of_stopped hn hle, hn]

/-- A machine and one that keeps up with it stop in related ways. -/
theorem Related.of_stopped
    (h : ∀ n, ∃ n', n ≤ n' ∧ Related R S E (m.run p limit n) (m'.run p' limit' n'))
    {n n' : Nat}
    (hn : (m.run p limit n).isRunning = false)
    (hn' : (m'.run p' limit' n').isRunning = false) :
    Related R S E (m.run p limit n) (m'.run p' limit' n') := by
  obtain ⟨k, -, hrelated⟩ := h n
  have hk : (m'.run p' limit' k).isRunning = false :=
    hrelated.isRunning_eq.symm.trans hn
  rw [← Machine.run_eq_of_stopped hk hn']
  exact hrelated

end Stopping

end Progress
end Trapline
