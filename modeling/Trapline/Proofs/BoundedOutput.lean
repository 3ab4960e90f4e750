import Mathlib.Data.List.Infix
import Mathlib.Data.Nat.Find
import Mathlib.Tactic.IntervalCases
import Trapline.Proofs.Execution
import Trapline.Proofs.Run

/-!
# Sinks with little room

A machine never looks at its sink. It hands a line over in one place, when a value is put, and until
the sink has answered it has changed nothing but the counter. So a machine on a sink with room for a
number of lines does what it does on a sink that takes every line, up to the line for which there is
no room.

The run on the other sink is the same run seen through a function on sinks (`Progress.mapOut`). It
goes through this function at every step at which the two sinks answer alike.

Main statements:
* `step_mapOut`: a step commutes with a function on sinks if writing the line that is put does.
* `run_hold`: so does a run, as long as there is room for its lines.
* `run_bounded_eq_truncation`: the two runs compared, whether or not there is room for all lines.
-/

namespace Trapline

/-- A sink that takes so many lines, whichever they are, and refuses the next one and stays as it
is. The sink that has taken some lines is given by `hold`. -/
structure Sink.TakesOnly {τ : Type} [Sink τ] (hold : Array String → τ) (room : Nat) : Prop where
  takes : ∀ lines line, lines.size < room →
    Sink.write (hold lines) line = (.ok (), hold (lines.push line))
  refuses : ∀ lines line, lines.size = room →
    ∃ e, Sink.write (hold lines) line = (.error e, hold lines)

theorem BoundedSink.takesOnly
    (room : Nat)
    (refusal : Error) :
    Sink.TakesOnly (fun lines => { room, refusal, lines : BoundedSink }) room where
  takes := by
    intro lines line h
    simp [Sink.write, BoundedSink.write, h]
  refuses := by
    intro lines line h
    exact ⟨refusal, by simp [Sink.write, BoundedSink.write, h]⟩

variable {σ τ : Type}

/-- The machine with a sink that is made from its own. -/
def Machine.mapOut (f : σ → τ) (m : Machine σ) : Machine τ where
  memory := m.memory
  traps := m.traps
  position := m.position
  jumped := m.jumped
  steps := m.steps
  out := f m.out

/-- The result with a sink that is made from its own. -/
def Progress.mapOut (f : σ → τ) : Progress σ → Progress τ
  | running m => running (m.mapOut f)
  | halted status m => halted status (m.mapOut f)
  | failed e m => failed e (m.mapOut f)

namespace Machine

variable (f : σ → τ) (p : Program)

theorem jump_mapOut
    (m : Machine σ)
    (label : Name) :
    (m.mapOut f).jump p label = (m.jump p label).mapOut f := by
  rw [jump, jump]
  cases p.label? label <;> rfl

theorem nextRound_mapOut
    (m : Machine σ)
    (loop : Loop) :
    (m.mapOut f).nextRound p loop = (m.nextRound p loop).mapOut f := by
  rcases nextRound_cases p m loop with
    ⟨v, memory, hitem, hset, h⟩ | ⟨memory, hitem, hpop, h⟩ |
    ⟨v, fault, hitem, hset, h⟩ | ⟨fault, hitem, hpop, h⟩
  · rw [h, ← jump_mapOut]
    simp [nextRound, hitem, mapOut, hset, setTrap]
  · rw [h, ← jump_mapOut]
    simp [nextRound, hitem, mapOut, hpop]
  · rw [h]
    simp [nextRound, hitem, mapOut, hset, Progress.mapOut]
  · rw [h]
    simp [nextRound, hitem, mapOut, hpop, Progress.mapOut]

theorem returnToTrap_mapOut
    (m : Machine σ)
    (label : Name) :
    (m.mapOut f).returnToTrap p label = (m.returnToTrap p label).mapOut f := by
  rcases returnToTrap_cases p m label with
    ⟨hunwind, h⟩ | ⟨trap, older, hunwind, hloop, h⟩ | ⟨trap, older, loop, hunwind, hloop, h⟩
  · rw [h]
    simp [returnToTrap, mapOut, hunwind, Progress.mapOut]
  · rw [h]
    simp [returnToTrap, mapOut, hunwind, hloop, Progress.mapOut]
  · rw [h, ← nextRound_mapOut]
    simp [returnToTrap, mapOut, hunwind, hloop]

theorem startLoop_mapOut
    (m : Machine σ)
    (item : Name)
    (target : Value)
    (body escape : Name) :
    (m.mapOut f).startLoop p item target body escape =
      (m.startLoop p item target body escape).mapOut f := by
  have hderef : (m.mapOut f).memory.deref target = m.memory.deref target := rfl
  rw [startLoop, startLoop, hderef]
  cases m.memory.deref target with
  | error fault => rfl
  | ok v =>
      cases v with
      | vector items => exact nextRound_mapOut f p { m with memory := m.memory.pushFrame } _
      | int n | float x | char c | ident name => rfl

theorem store_mapOut
    (m : Machine σ)
    (result : Except Fault Memory) :
    (m.mapOut f).store result = (m.store result).mapOut f := by
  cases result <;> rfl

variable [Sink σ] [Sink τ] {p : Program} {limit : Option Nat}

/-- The two sinks answer alike to a line, and are still related afterwards. -/
def WritesAlike (m : Machine σ) (line : String) : Prop :=
  Sink.write (f m.out) line = ((Sink.write m.out line).1, f (Sink.write m.out line).2)

variable {f} {m : Machine σ}

theorem emit_mapOut
    {line : String}
    (h : WritesAlike f m line) :
    (m.mapOut f).emit line = (m.emit line).mapOut f := by
  have hwrite : Sink.write (m.mapOut f).out line = _ := h
  rw [emit, hwrite, emit]
  obtain ⟨result, out⟩ := Sink.write m.out line
  cases result <;> rfl

/-- An action does the same on both sinks if these answer alike to the line that it puts. -/
theorem exec_mapOut
    {a : Action}
    (h : ∀ value v, a = .put value → m.memory.deref value = .ok v → WritesAlike f m v.display) :
    (m.mapOut f).exec p a = (m.exec p a).mapOut f := by
  have hstore := store_mapOut f m (a.update m.memory)
  cases a with
  | put value =>
      have hderef : (m.mapOut f).memory.deref value = m.memory.deref value := rfl
      rw [exec, exec, hderef]
      cases hv : m.memory.deref value with
      | error fault => rfl
      | ok v => exact emit_mapOut (h value v rfl hv)
  | jump label => exact jump_mapOut f p m label
  | exit | setTrap label => rfl
  | returnToTrap label => exact returnToTrap_mapOut f p m label
  | trappedJump label => exact jump_mapOut f p (m.setTrap label none) label
  | each item target body escape => exact startLoop_mapOut f p m item target body escape
  | noop | label name | pushFrame | popFrame | set name value | localSet name value
  | vecPush name value | add left right out => exact hstore

omit [Sink σ] [Sink τ] in
theorem finish_mapOut
    (location : Location)
    (x : Progress σ) :
    finish location (x.mapOut f) = (finish location x).mapOut f := by
  cases x with
  | running m =>
      simp only [Progress.mapOut, finish, advance, mapOut]
      split <;> rfl
  | halted status m | failed e m => rfl

/-- A machine is about to write a line: it puts a value that has this text, and the limit allows the
step. -/
structure Puts (p : Program) (limit : Option Nat) (m : Machine σ) (s : Statement) (line : String) :
    Prop where
  statement : p.get? m.position = some s
  value : ∃ value v, s.action = .put value ∧ m.memory.deref value = .ok v ∧ v.display = line
  allowed : limit.filter (· < m.steps + 1) = none

/-- A step does the same on both sinks if these answer alike to the line that it writes. -/
theorem step_mapOut
    (h : ∀ s line, Puts p limit m s line → WritesAlike f m line) :
    (m.mapOut f).step p limit = (m.step p limit).mapOut f := by
  cases hget : p.get? m.position with
  | none =>
      have hget' : p.get? (m.mapOut f).position = none := hget
      rw [step_of_end hget, step_of_end hget']
      rfl
  | some s =>
      have hget' : p.get? (m.mapOut f).position = some s := hget
      cases hlimit : limit.filter (· < m.steps + 1) with
      | some n =>
          have hlimit' : limit.filter (· < (m.mapOut f).steps + 1) = some n := hlimit
          rw [step_of_limit hget hlimit, step_of_limit hget' hlimit']
          rfl
      | none =>
          have hlimit' : limit.filter (· < (m.mapOut f).steps + 1) = none := hlimit
          rw [step_eq_exec hget hlimit, step_eq_exec hget' hlimit', ← finish_mapOut]
          refine congrArg (finish s.location) (exec_mapOut (m := m.count) ?_)
          intro value v ha hv
          exact h s v.display ⟨hget, ⟨value, v, ha, hv, rfl⟩, hlimit⟩

omit [Sink τ] in
theorem step_of_puts
    {s : Statement}
    {line : String}
    (h : Puts p limit m s line) :
    m.step p limit = finish s.location (m.count.emit line) := by
  obtain ⟨value, v, ha, hv, rfl⟩ := h.value
  have hv' : m.count.memory.deref value = .ok v := hv
  rw [step_eq_exec h.statement h.allowed, ha, exec, hv', proceed]

omit [Sink τ] in
/-- A step that does not leave the sink as it is has written a line. -/
theorem puts_of_out_ne
    (h : (m.step p limit).machine.out ≠ m.out) :
    ∃ s line, Puts p limit m s line := by
  rcases out_of_step p limit m with hsame | ⟨s, value, v, hget, ha, hv, -⟩
  · exact absurd hsame h
  · refine ⟨s, v.display, hget, ⟨value, v, ha, hv, rfl⟩, ?_⟩
    cases hlimit : limit.filter (· < m.steps + 1) with
    | none => rfl
    | some n =>
        rw [step_of_limit hget hlimit] at h
        exact absurd rfl h

section Lines

variable {m : Machine (Array String)} {n : Nat}

theorem out_of_puts
    {s : Statement}
    {line : String}
    (h : Puts p limit m s line) :
    (m.step p limit).machine.out = m.out.push line := by
  rw [step_of_puts h]
  exact out_advance _

/-- Lines that were written stay. -/
theorem out_prefix_of_step
    (p : Program)
    (limit : Option Nat)
    (m : Machine (Array String)) :
    m.out.toList <+: (m.step p limit).machine.out.toList := by
  by_cases hsame : (m.step p limit).machine.out = m.out
  · rw [hsame]
  · obtain ⟨s, line, hputs⟩ := puts_of_out_ne hsame
    rw [out_of_puts hputs, Array.toList_push]
    exact List.prefix_append _ _

theorem out_prefix_of_run
    (p : Program)
    (limit : Option Nat)
    (m : Machine (Array String))
    (n : Nat) :
    m.out.toList <+: (m.run p limit n).machine.out.toList := by
  induction n generalizing m with
  | zero => exact List.prefix_refl _
  | succ n ih =>
      have hfirst := out_prefix_of_step p limit m
      rw [run]
      cases hstep : m.step p limit with
      | running m' =>
          rw [hstep] at hfirst
          exact hfirst.trans (ih m')
      | halted status m' | failed e m' =>
          rw [hstep] at hfirst
          exact hfirst

variable {hold : Array String → τ} {room : Nat}

/-- A step is the same on the other sink if there is room for what has been written after it. -/
theorem step_hold
    (hsink : Sink.TakesOnly hold room)
    (h : (m.step p limit).machine.out.size ≤ room) :
    (m.mapOut hold).step p limit = (m.step p limit).mapOut hold := by
  apply step_mapOut
  intro s line hputs
  rw [out_of_puts hputs, Array.size_push] at h
  exact hsink.takes m.out line h

/-- So is a run. -/
theorem run_hold
    (hsink : Sink.TakesOnly hold room)
    (h : (m.run p limit n).machine.out.size ≤ room) :
    (m.mapOut hold).run p limit n = (m.run p limit n).mapOut hold := by
  induction n generalizing m with
  | zero => rfl
  | succ n ih =>
      have hfirst : (m.step p limit).machine.out.size ≤ room := by
        have hlast := h
        rw [run] at hlast
        cases hstep : m.step p limit with
        | running m' =>
            rw [hstep] at hlast
            have hlength := (out_prefix_of_run p limit m' n).length_le
            simp only [Array.length_toList] at hlength
            exact Nat.le_trans hlength hlast
        | halted status m' | failed e m' =>
            rw [hstep] at hlast
            exact hlast
      rw [run, step_hold hsink hfirst]
      rw [run] at h ⊢
      cases hstep : m.step p limit with
      | running m' =>
          rw [hstep] at h
          exact ih h
      | halted status m' | failed e m' => rfl

/-- The line for which there is no room is refused, and the machine stays as it is but for the
counter. -/
theorem step_refused
    (hsink : Sink.TakesOnly hold room)
    {s : Statement}
    {line : String}
    (hputs : Puts p limit m s line)
    (hsize : m.out.size = room) :
    ∃ e,
      Sink.write (hold m.out) line = (.error e, hold m.out) ∧
      (m.mapOut hold).step p limit =
        .failed (e.locateIfUnplaced s.location) (m.count.mapOut hold) := by
  obtain ⟨e, he⟩ := hsink.refuses m.out line hsize
  refine ⟨e, he, ?_⟩
  have hputs' : Puts p limit (m.mapOut hold) s line :=
    ⟨hputs.statement, hputs.value, hputs.allowed⟩
  have hwrite : Sink.write (m.mapOut hold).count.out line = (.error e, hold m.out) := he
  rw [step_of_puts hputs', emit, hwrite]
  rfl

/-- A run that writes too many lines for the room has a step that writes the first of these. -/
theorem exists_first_excess
    (hstart : m.out.size ≤ room)
    (h : ∃ n, room < (m.run p limit n).machine.out.size) :
    ∃ k q s line,
      m.run p limit k = .running q ∧
      q.out.size = room ∧
      Puts p limit q s line := by
  classical
  obtain ⟨k, hk⟩ : ∃ k, Nat.find h = k + 1 := by
    apply Nat.exists_eq_succ_of_ne_zero
    intro hzero
    have hfirst := Nat.find_spec h
    rw [hzero] at hfirst
    exact absurd hstart (Nat.not_le_of_lt hfirst)
  have hexcess := Nat.find_spec h
  have hbefore := Nat.find_min h (m := k) (by omega)
  rw [hk] at hexcess
  rw [Nat.not_lt] at hbefore
  cases hrun : m.run p limit k with
  | halted status q | failed e q =>
      -- a run that has stopped writes nothing more
      have hstopped : (m.run p limit k).isRunning = false := by rw [hrun]; rfl
      rw [run_of_stopped hstopped (Nat.le_succ k)] at hexcess
      omega
  | running q =>
      rw [hrun] at hbefore
      rw [run_succ hrun] at hexcess
      have hne : (q.step p limit).machine.out ≠ q.out := by
        intro hsame
        rw [hsame] at hexcess
        exact absurd hbefore (Nat.not_le_of_lt hexcess)
      obtain ⟨s, line, hputs⟩ := puts_of_out_ne hne
      refine ⟨k, q, s, line, hrun, ?_, hputs⟩
      rw [out_of_puts hputs, Array.size_push] at hexcess
      have hle : q.out.size ≤ room := hbefore
      omega

end Lines

/-- The run of a program on a sink that takes every line. -/
def unboundedRun (p : Program) (limit : Option Nat) (n : Nat) : Progress (Array String) :=
  (start p #[]).run p limit n

/-- **A sink has no influence until it refuses a line.** Compare the run of a program on a sink that
takes every line with the run on one that takes `room` lines and refuses the next one. If the former
never writes more lines than that, the two agree after every step in result, machine and output. If
not, then there is a statement that puts line `room + 1`. Up to there the two agree. The latter run
fails at this statement with the error of the sink. Its output is the first `room` lines of the
former run, and its memory, traps and position are those before the statement. -/
theorem run_bounded_eq_truncation
    {hold : Array String → τ}
    {room : Nat}
    (hsink : Sink.TakesOnly hold room)
    (p : Program)
    (limit : Option Nat) :
    ((∀ n, (unboundedRun p limit n).machine.out.size ≤ room) →
      ∀ n, (start p (hold #[])).run p limit n = (unboundedRun p limit n).mapOut hold) ∧
    ((∃ n, room < (unboundedRun p limit n).machine.out.size) →
      ∃ k m s value v e,
        unboundedRun p limit k = .running m ∧
        p.get? m.position = some s ∧
        s.action = .put value ∧
        m.memory.deref value = .ok v ∧
        m.out.size = room ∧
        (unboundedRun p limit (k + 1)).machine.out = m.out.push v.display ∧
        (∀ n ≤ k,
          (start p (hold #[])).run p limit n = (unboundedRun p limit n).mapOut hold) ∧
        Sink.write (hold m.out) v.display = (.error e, hold m.out) ∧
        ∀ n, k < n →
          (start p (hold #[])).run p limit n =
            .failed (e.locateIfUnplaced s.location)
              { memory := m.memory, traps := m.traps, position := m.position, jumped := m.jumped,
                steps := m.steps + 1, out := hold m.out } ∧
          m.out.toList = (unboundedRun p limit n).machine.out.toList.take room) := by
  have hstart : start p (hold #[]) = (start p (#[] : Array String)).mapOut hold := rfl
  unfold unboundedRun
  constructor
  · intro hroom n
    rw [hstart, run_hold hsink (hroom n)]
  · intro hexcess
    obtain ⟨k, m, s, line, hrun, hsize, hputs⟩ :=
      exists_first_excess (Nat.zero_le room) hexcess
    obtain ⟨e, hwrite, hstep⟩ := step_refused hsink hputs hsize
    obtain ⟨value, v, ha, hv, rfl⟩ := hputs.value
    have hnext : ((start p #[]).run p limit (k + 1)).machine.out = m.out.push v.display := by
      rw [run_succ hrun, out_of_puts hputs]
    have hsame : ∀ n ≤ k,
        (start p (hold #[])).run p limit n = ((start p #[]).run p limit n).mapOut hold := by
      intro n hn
      obtain ⟨q, hq, hrest⟩ := running_of_le hn hrun
      have hlength := (out_prefix_of_run p limit q (k - n)).length_le
      rw [hrest] at hlength
      simp only [Array.length_toList, Progress.machine] at hlength
      rw [hstart, run_hold hsink]
      rw [hq]
      exact Nat.le_trans hlength (Nat.le_of_eq hsize)
    refine ⟨k, m, s, value, v, e, hrun, hputs.statement, ha, hv, hsize, hnext, hsame, hwrite, ?_⟩
    intro n hn
    constructor
    · have hcut : (start p (hold #[])).run p limit k = .running (m.mapOut hold) := by
        rw [hsame k (Nat.le_refl k), hrun]
        rfl
      have hfailed := run_succ hcut
      rw [hstep] at hfailed
      rw [run_of_stopped (by rw [hfailed]; rfl) hn, hfailed]
      rfl
    · have hprefix := out_prefix_of_run p limit m (n - k)
      rw [← run_add hrun, Nat.add_sub_cancel' (Nat.le_of_lt hn)] at hprefix
      rw [← hsize, ← Array.length_toList]
      exact List.prefix_iff_eq_take.1 hprefix

/-- A program that puts a character again and again. -/
def endlessPuts : Program := .ofCode #[
  { op := .label, args := [.ident "main"],
    location := { file := "main", line := 1 }, accepted := Eq.refl true },
  { op := .put, args := [.char 'a'],
    location := { file := "main", line := 2 }, accepted := Eq.refl true },
  { op := .jump, args := [.ident "main"],
    location := { file := "main", line := 3 }, accepted := Eq.refl true }]

/-- A sink for two lines. -/
def roomForTwo (lines : Array String) : BoundedSink :=
  { room := 2, refusal := { fault := .unreadable "<stdout>" "full" }, lines }

/-- The run without end fails on the sink for two lines, at the statement that puts the third one.
Under a limit that stops it in front of this statement it does not touch the end of the sink. -/
theorem run_bounded_of_endlessPuts :
    2 < (unboundedRun endlessPuts none 8).machine.out.size ∧
    (∀ n, 7 < n →
      (start endlessPuts (roomForTwo #[])).run endlessPuts none n =
        .failed
          { fault := .unreadable "<stdout>" "full", origin := some { file := "main", line := 2 } }
          { memory := .empty, traps := [], position := 1, jumped := false, steps := 8,
            out := roomForTwo #["a", "a"] }) ∧
    ∀ n,
      (start endlessPuts (roomForTwo #[])).run endlessPuts (some 7) n =
        (unboundedRun endlessPuts (some 7) n).mapOut roomForTwo := by
  have hsink : Sink.TakesOnly roomForTwo 2 := BoundedSink.takesOnly 2 _
  have hexcess : 2 < (unboundedRun endlessPuts none 8).machine.out.size := by decide
  refine ⟨hexcess, ?_, ?_⟩
  · obtain ⟨-, hcut⟩ := run_bounded_eq_truncation hsink endlessPuts none
    obtain ⟨k, m, s, value, v, e, -, -, -, -, -, -, hsame, -, hfails⟩ := hcut ⟨8, hexcess⟩
    have hk : k < 8 := by
      by_contra hlate
      have hrunning := congrArg Progress.isRunning (hsame 8 (Nat.le_of_not_lt hlate))
      exact absurd hrunning (by decide)
    intro n hn
    rw [(hfails n (by omega)).1, ← (hfails 8 hk).1]
    rfl
  · refine (run_bounded_eq_truncation hsink endlessPuts (some 7)).1 ?_
    intro n
    have hstopped : ((start endlessPuts #[]).run endlessPuts (some 7) 8 :
        Progress (Array String)).isRunning = false := rfl
    rcases Nat.lt_or_ge n 8 with hn | hn
    · interval_cases n <;> decide
    · rw [unboundedRun, run_of_stopped hstopped hn]
      decide

end Machine
end Trapline
