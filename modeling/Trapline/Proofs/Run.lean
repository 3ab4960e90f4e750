import Trapline.Machine

/-!
# Runs

A run is a number of steps in sequence. It can be cut at any step: the machine there goes on as
the run does. `Reachable` collects the machines that calls of `step` lead to, also after a step
that halted or failed, and an invariant of a program is what the start has and every step keeps.
-/

namespace Trapline

namespace Progress

variable {σ : Type} {x : Progress σ}

/-- The status with which a machine has halted. -/
def status? : Progress σ → Option Nat
  | halted status _ => some status
  | _ => none

/-- The error with which a machine has failed. -/
def error? : Progress σ → Option Error
  | failed e _ => some e
  | _ => none

theorem isRunning_iff :
    x.isRunning = true ↔ x = .running x.machine := by
  cases x <;> simp [isRunning, machine]

theorem status?_eq_some_iff
    {status : Nat} :
    x.status? = some status ↔ x = .halted status x.machine := by
  cases x <;> simp [status?, machine]

theorem error?_eq_some_iff
    {e : Error} :
    x.error? = some e ↔ x = .failed e x.machine := by
  cases x <;> simp [error?, machine]

end Progress

namespace Machine

variable {σ : Type} [Sink σ] {p : Program} {limit : Option Nat}

@[simp] theorem run_zero
    (m : Machine σ) :
    m.run p limit 0 = .running m := by
  rfl

@[simp] theorem run_one
    (m : Machine σ) :
    m.run p limit 1 = m.step p limit := by
  rw [run]
  cases m.step p limit <;> rfl

theorem run_succ_of_step
    {m m' : Machine σ}
    (h : m.step p limit = .running m')
    (n : Nat) :
    m.run p limit (n + 1) = m'.run p limit n := by
  rw [run, h]

/-- A run that is still going on after some steps goes on from the machine there. -/
theorem run_add
    {m m' : Machine σ}
    {a : Nat}
    (h : m.run p limit a = .running m')
    (b : Nat) :
    m.run p limit (a + b) = m'.run p limit b := by
  induction a generalizing m with
  | zero =>
      cases h
      rw [Nat.zero_add]
  | succ a ih =>
      rw [run] at h
      cases hstep : m.step p limit with
      | running m₁ =>
          rw [hstep] at h
          rw [Nat.add_right_comm, run_succ_of_step hstep]
          exact ih h
      | halted status m₁ =>
          rw [hstep] at h
          cases h
      | failed e m₁ =>
          rw [hstep] at h
          cases h

/-- The last step of a run. -/
theorem run_succ
    {m m' : Machine σ}
    {n : Nat}
    (h : m.run p limit n = .running m') :
    m.run p limit (n + 1) = m'.step p limit := by
  rw [run_add h 1, run_one]

/-- A run that is still going on has been going on all the time. -/
theorem running_of_le
    {m m' : Machine σ}
    {a b : Nat}
    (hab : a ≤ b)
    (h : m.run p limit b = .running m') :
    ∃ m₁, m.run p limit a = .running m₁ ∧ m₁.run p limit (b - a) = .running m' := by
  induction a generalizing m b with
  | zero =>
      exact ⟨m, rfl, h⟩
  | succ a ih =>
      obtain ⟨b, rfl⟩ : ∃ c, b = c + 1 := ⟨b - 1, by omega⟩
      rw [run] at h
      cases hstep : m.step p limit with
      | running m₁ =>
          rw [hstep] at h
          obtain ⟨m₂, ha, hb⟩ := ih (by omega) h
          refine ⟨m₂, ?_, ?_⟩
          · rw [run_succ_of_step hstep]
            exact ha
          · rw [Nat.add_sub_add_right]
            exact hb
      | halted status m₁ =>
          rw [hstep] at h
          cases h
      | failed e m₁ =>
          rw [hstep] at h
          cases h

/-- A run that has stopped does nothing more. -/
theorem run_of_stopped
    {m : Machine σ}
    {a b : Nat}
    (h : (m.run p limit a).isRunning = false)
    (hab : a ≤ b) :
    m.run p limit b = m.run p limit a := by
  induction a generalizing m b with
  | zero =>
      cases h
  | succ a ih =>
      obtain ⟨b, rfl⟩ : ∃ c, b = c + 1 := ⟨b - 1, by omega⟩
      rw [run] at h ⊢
      rw [run]
      cases hstep : m.step p limit with
      | running m₁ =>
          rw [hstep] at h
          exact ih h (Nat.le_of_succ_le_succ hab)
      | halted status m₁ | failed e m₁ =>
          rfl

/-- A run stops in one way only. -/
theorem run_eq_of_stopped
    {m : Machine σ}
    {a b : Nat}
    (ha : (m.run p limit a).isRunning = false)
    (hb : (m.run p limit b).isRunning = false) :
    m.run p limit a = m.run p limit b := by
  rcases Nat.le_total a b with hab | hba
  · exact (run_of_stopped ha hab).symm
  · exact run_of_stopped hb hba

/-- A run that has stopped did so in a last step. -/
theorem last_step_of_run
    {m : Machine σ}
    {n : Nat}
    {x : Progress σ}
    (h : m.run p limit n = x)
    (hx : x.isRunning = false) :
    ∃ k m₁, k < n ∧ m.run p limit k = .running m₁ ∧ m₁.step p limit = x := by
  induction n generalizing m with
  | zero =>
      cases h
      cases hx
  | succ n ih =>
      rw [run] at h
      cases hstep : m.step p limit with
      | running m₁ =>
          rw [hstep] at h
          obtain ⟨k, m₂, hk, hrun, hlast⟩ := ih h
          refine ⟨k + 1, m₂, Nat.succ_lt_succ hk, ?_, hlast⟩
          rw [run_succ_of_step hstep]
          exact hrun
      | halted status m₁ | failed e m₁ =>
          rw [hstep] at h
          exact ⟨0, m, Nat.succ_pos n, rfl, hstep.trans h⟩

/-- What a machine has and every step that goes on keeps is there as long as the run goes on. -/
theorem invariant_of_run
    {m m' : Machine σ}
    {n : Nat}
    {I : Machine σ → Prop}
    (h : m.run p limit n = .running m')
    (hstart : I m)
    (hstep : ∀ m m' : Machine σ, I m → m.step p limit = .running m' → I m') :
    I m' := by
  induction n generalizing m with
  | zero =>
      cases h
      exact hstart
  | succ n ih =>
      obtain ⟨m₁, hm₁, hrun⟩ := running_of_le (Nat.le_add_left 1 n) h
      rw [run_one] at hm₁
      exact ih hrun (hstep m m₁ hstart hm₁)

/-- The machine after a number of steps, however each of them ends. -/
def after (p : Program) (limit : Option Nat) (m : Machine σ) : Nat → Machine σ
  | 0 => m
  | n + 1 => ((m.after p limit n).step p limit).machine

/-- The machines that steps lead to from the start, however these steps end. -/
inductive Reachable (p : Program) (limit : Option Nat) (out : σ) : Machine σ → Prop
  | start :
      Reachable p limit out (start p out)
  | step
      {m : Machine σ}
      (h : Reachable p limit out m) :
      Reachable p limit out (m.step p limit).machine

/-- What the start has and every step keeps holds of every machine that is reached. -/
theorem Reachable.invariant
    {out : σ}
    {m : Machine σ}
    {I : Machine σ → Prop}
    (h : Reachable p limit out m)
    (hstart : I (Machine.start p out))
    (hstep : ∀ m : Machine σ, I m → I (m.step p limit).machine) :
    I m := by
  induction h with
  | start =>
      exact hstart
  | step _ ih =>
      exact hstep _ ih

/-- A run leads from a machine that is reached to one that is reached. -/
theorem Reachable.run
    {out : σ}
    {m : Machine σ}
    (h : Reachable p limit out m)
    (n : Nat) :
    Reachable p limit out (m.run p limit n).machine := by
  induction n generalizing m with
  | zero =>
      exact h
  | succ n ih =>
      have hnext := h.step
      rw [Machine.run]
      generalize m.step p limit = x at hnext ⊢
      cases x with
      | running m₁ =>
          exact ih hnext
      | halted status m₁ | failed e m₁ =>
          exact hnext

end Machine
end Trapline
