import Mathlib.Logic.Equiv.Basic
import Trapline.Proofs.Faults
import Trapline.Proofs.Renaming
import Trapline.Proofs.Simulation

/-!
# Runs with new names

The run of a program with new names is the run of the program, with the names in its memory and its
traps changed. Nothing of a name shows in what is written, so the output stays the same. An error
is of the same kind and has the new name in it.

The faults of two steps correspond by `Fault.Renamed`. It is a relation and no function: a text
that is said to be no vector is the bare name of a variable where something was to be appended, and
an argument as it is displayed where a loop was to start.

Main statements:
* `renamed_exec`: one action, with one case for each constructor.
* `run_rename`: whole runs.
-/

namespace Trapline

/-- The fault of a step and that of the same step with new names. -/
inductive Fault.Renamed (r : Renaming) : Fault → Fault → Prop
  | invalidReference
      (name : Name) :
      Renamed r (.invalidReference name) (.invalidReference (r.onVariables name))
  | storeIdentifier
      (name : Name) :
      Renamed r (.storeIdentifier name) (.storeIdentifier (r.onVariables name))
  | popRootFrame :
      Renamed r .popRootFrame .popRootFrame
  | operandMismatch
      (left right : Kind) :
      Renamed r (.operandMismatch left right) (.operandMismatch left right)
  | unsupportedOperands
      (kind : Kind) :
      Renamed r (.unsupportedOperands kind) (.unsupportedOperands kind)
  | integerOverflow :
      Renamed r .integerOverflow .integerOverflow
  | notAVector
      (name : Name) {kind : Kind}
      (hkind : kind ≠ .vector) :
      Renamed r (.notAVector name kind) (.notAVector (r.onVariables name) kind)
  | notALoopVariable
      (name : Name) {kind : Kind}
      (hkind : kind ≠ .vector) :
      Renamed r (.notAVector (Value.ident name).display kind)
        (.notAVector (Value.ident (r.onVariables name)).display kind)
  | notALoopLiteral
      {target : Value}
      (hident : target.kind ≠ .ident)
      (hvector : target.kind ≠ .vector) :
      Renamed r (.notAVector target.display target.kind) (.notAVector target.display target.kind)
  | trapNotFound
      (label : Name) :
      Renamed r (.trapNotFound label) (.trapNotFound (r.onLabels label))
  | stepLimitExceeded
      (limit : Nat) :
      Renamed r (.stepLimitExceeded limit) (.stepLimitExceeded limit)

/-- The error of a step and that of the same step with new names. They are at the same place. An
error with which the sink has refused a line has names of its own, which stay as they are. -/
inductive Error.Renamed (r : Renaming) (Refuses : Error → Prop) : Error → Error → Prop
  | raised
      {fault fault' : Fault}
      (origin : Option Location)
      (h : Fault.Renamed r fault fault') :
      Renamed r Refuses { fault, origin } { fault := fault', origin }
  | refused
      {e : Error}
      (h : Refuses e) :
      Renamed r Refuses e e

theorem Error.Renamed.imp
    {r : Renaming}
    {Refuses Refuses' : Error → Prop}
    {e e' : Error}
    (h : Error.Renamed r Refuses e e')
    (himp : Refuses e → Refuses' e) :
    Error.Renamed r Refuses' e e' := by
  cases h with
  | raised origin h =>
      exact .raised origin h
  | refused h =>
      exact .refused (himp h)

theorem Error.Renamed.locateIfUnplaced
    {r : Renaming}
    {Refuses Refuses' : Error → Prop}
    {e e' : Error}
    {l : Location}
    (h : Error.Renamed r Refuses e e')
    (himp : Refuses e → Refuses' (e.locateIfUnplaced l)) :
    Error.Renamed r Refuses' (e.locateIfUnplaced l) (e'.locateIfUnplaced l) := by
  cases h with
  | raised origin h =>
      exact .raised (origin.or (some l)) h
  | refused h =>
      exact .refused (himp h)

namespace Renaming

variable {r : Renaming} {α β : Type} {f : α → α} {g : β → β}

/-- Two results: those of a computation with old and with new names. -/
inductive Results (r : Renaming) (f : α → α) : Except Fault α → Except Fault α → Prop
  | ok
      (a : α) :
      Results r f (.ok a) (.ok (f a))
  | error
      {fault fault' : Fault}
      (h : Fault.Renamed r fault fault') :
      Results r f (.error fault) (.error fault')

theorem Results.bind
    {x x' : Except Fault α}
    {k k' : α → Except Fault β}
    (hx : r.Results f x x')
    (hk : ∀ a, r.Results g (k a) (k' (f a))) :
    r.Results g (x >>= k) (x' >>= k') := by
  cases hx with
  | ok a =>
      exact hk a
  | error h =>
      exact .error h

end Renaming

namespace Memory

variable (r : Renaming) (m : Memory)

theorem results_deref
    (v : Value) :
    r.Results id (m.deref v) ((m.rename r.onVariables).deref (v.rename r.onVariables)) := by
  cases v with
  | ident name =>
      simp only [Value.rename, deref, get, get?_rename r.injective_onVariables]
      cases m.get? name with
      | some v =>
          exact .ok v
      | none =>
          exact .error (.invalidReference name)
  | int n | float x | char c | vector items =>
      exact .ok _

theorem results_storing
    (name : Name)
    (v : Value) :
    r.Results (rename r.onVariables) (storing name v m)
      (storing (r.onVariables name) v (m.rename r.onVariables)) := by
  unfold storing
  split
  · exact .error (.storeIdentifier name)
  · exact .ok m

theorem results_localSet
    (name : Name)
    (v : Value) :
    r.Results (rename r.onVariables) (m.localSet name v)
      ((m.rename r.onVariables).localSet (r.onVariables name) v) := by
  rw [localSet, localSet, bindInnermost_rename r.injective_onVariables]
  exact results_storing r _ name v

theorem results_set
    (name : Name)
    (v : Value) :
    r.Results (rename r.onVariables) (m.set name v)
      ((m.rename r.onVariables).set (r.onVariables name) v) := by
  rw [set, set, contains_rename r.injective_onVariables, rebind_rename r.injective_onVariables,
    bindRoot_rename r.injective_onVariables, ← apply_ite (rename r.onVariables)]
  exact results_storing r _ name v

theorem results_setOrLocal
    (name : Name)
    (v : Value) :
    r.Results (rename r.onVariables) (m.setOrLocal name v)
      ((m.rename r.onVariables).setOrLocal (r.onVariables name) v) := by
  rw [setOrLocal, setOrLocal, contains_rename r.injective_onVariables,
    rebind_rename r.injective_onVariables, bindInnermost_rename r.injective_onVariables,
    ← apply_ite (rename r.onVariables)]
  exact results_storing r _ name v

theorem results_append
    (name : Name)
    (v : Value) :
    r.Results (rename r.onVariables) (m.append name v)
      ((m.rename r.onVariables).append (r.onVariables name) v) := by
  simp only [append, get?_rename r.injective_onVariables, rebind_rename r.injective_onVariables]
  cases m.get? name with
  | none =>
      exact .error (.invalidReference name)
  | some w =>
      cases w with
      | vector items =>
          exact .ok _
      | int n | float x | char c | ident other =>
          exact .error (.notAVector name (by simp))

theorem results_popFrame :
    r.Results (rename r.onVariables) m.popFrame (m.rename r.onVariables).popFrame := by
  cases m with
  | root frame =>
      exact .error .popRootFrame
  | scope frame outer =>
      exact .ok outer

end Memory

/-- A sum is of values, in which no name is changed. -/
theorem Value.results_add
    (r : Renaming)
    (v w : Value) :
    r.Results id (v.add w) (v.add w) := by
  cases hsum : v.add w with
  | ok u =>
      exact .ok u
  | error fault =>
      rcases Value.fault_of_add hsum with rfl | ⟨rfl, -⟩ | ⟨rfl, -⟩
      · exact .error .integerOverflow
      · exact .error (.unsupportedOperands v.kind)
      · exact .error (.operandMismatch v.kind w.kind)

theorem Action.results_update
    (r : Renaming)
    (memory : Memory)
    (a : Action) :
    r.Results (Memory.rename r.onVariables) (a.update memory)
      ((a.rename r).update (memory.rename r.onVariables)) := by
  cases a with
  | pushFrame =>
      exact .ok memory.pushFrame
  | popFrame =>
      exact memory.results_popFrame r
  | set name value =>
      exact (memory.results_deref r value).bind fun v => memory.results_set r name v
  | localSet name value =>
      exact (memory.results_deref r value).bind fun v => memory.results_localSet r name v
  | vecPush name value =>
      exact (memory.results_deref r value).bind fun v => memory.results_append r name v
  | add left right out =>
      exact (memory.results_deref r left).bind fun v =>
        (memory.results_deref r right).bind fun w =>
          (v.results_add r w).bind fun u => memory.results_set r out u
  | noop | label _ | put _ | jump _ | exit | setTrap _ | returnToTrap _ | trappedJump _
  | each _ _ _ _ =>
      exact .ok memory

namespace Machine

variable {σ : Type}

/-- The machine with new names in its memory and its traps. -/
def rename (r : Renaming) (m : Machine σ) : Machine σ :=
  { m with
    memory := m.memory.rename r.onVariables
    traps := m.traps.map (Trap.rename r) }

theorem setTrap_rename
    (r : Renaming)
    (m : Machine σ)
    (label : Name)
    (loop : Option Loop) :
    (m.rename r).setTrap (r.onLabels label) (loop.map (Loop.rename r)) =
      (m.setTrap label loop).rename r := by
  rfl

theorem advance_rename
    (r : Renaming)
    (m : Machine σ) :
    (m.rename r).advance = m.advance.rename r := by
  cases hjumped : m.jumped with
  | true => simp [advance, rename, hjumped]
  | false => simp [advance, rename, hjumped]

theorem start_rename
    (r : Renaming)
    (p : Program)
    (out : σ) :
    start (p.rename r) out = (start p out).rename r := by
  rw [start, Program.entry_rename]
  rfl

/-- The second result is the first one with new names. -/
abbrev Renamed (r : Renaming) (Refuses : Error → Prop) : Progress σ → Progress σ → Prop :=
  Progress.Related (fun m m' => m' = m.rename r) (fun m m' => m' = m.rename r)
    (Error.Renamed r Refuses)

variable (r : Renaming) {Refuses : Error → Prop} (p : Program) (m : Machine σ)

theorem renamed_store
    {result result' : Except Fault Memory}
    (h : r.Results (Memory.rename r.onVariables) result result') :
    Renamed r Refuses (m.store result) ((m.rename r).store result') := by
  cases h with
  | ok memory =>
      exact .running rfl
  | error h =>
      exact .failed (.raised none h) rfl

theorem renamed_emit
    [Sink σ]
    {line : String}
    (hrefuses : ∀ e out, Sink.write m.out line = (.error e, out) → Refuses e) :
    Renamed r Refuses (m.emit line) ((m.rename r).emit line) := by
  unfold emit
  have hout : (m.rename r).out = m.out := rfl
  rw [hout]
  split
  · exact .running rfl
  · rename_i e out hwrite
    exact .failed (.refused (hrefuses e out hwrite)) rfl

theorem renamed_jump
    (label : Name) :
    Renamed r Refuses (m.jump p label) ((m.rename r).jump (p.rename r) (r.onLabels label)) := by
  simp only [jump, Program.label?_rename]
  cases p.label? label with
  | some target =>
      exact .running rfl
  | none =>
      exact .halted undeclaredLabelStatus rfl

theorem renamed_nextRound
    (loop : Loop) :
    Renamed r Refuses (m.nextRound p loop)
      ((m.rename r).nextRound (p.rename r) (loop.rename r)) := by
  have hitems : (loop.rename r).items[(loop.rename r).next]? = loop.items[loop.next]? := rfl
  have hmemory : (m.rename r).memory = m.memory.rename r.onVariables := rfl
  simp only [nextRound, hitems, hmemory]
  cases loop.items[loop.next]? with
  | none =>
      have hpop := m.memory.results_popFrame r
      generalize m.memory.popFrame = x at hpop ⊢
      generalize (m.memory.rename r.onVariables).popFrame = x' at hpop ⊢
      cases hpop with
      | ok memory =>
          exact renamed_jump r p { m with memory } loop.escape
      | error h =>
          exact .failed (.raised none h) rfl
  | some v =>
      have hset := m.memory.results_setOrLocal r loop.item v
      have hitem : (loop.rename r).item = r.onVariables loop.item := rfl
      simp only [hitem]
      generalize m.memory.setOrLocal loop.item v = x at hset ⊢
      generalize (m.memory.rename r.onVariables).setOrLocal (r.onVariables loop.item) v = x'
        at hset ⊢
      cases hset with
      | ok memory =>
          have hround : Renamed r Refuses _ _ := renamed_jump r p
            (setTrap { m with memory } Trap.loopLabel (some { loop with next := loop.next + 1 }))
            loop.body
          rw [← setTrap_rename, r.onLabels_loopLabel] at hround
          exact hround
      | error h =>
          exact .failed (.raised none h) rfl

theorem renamed_returnToTrap
    (label : Name) :
    Renamed r Refuses (m.returnToTrap p label)
      ((m.rename r).returnToTrap (p.rename r) (r.onLabels label)) := by
  have htraps : (m.rename r).traps = m.traps.map (Trap.rename r) := rfl
  simp only [returnToTrap, htraps, Trap.unwind?_rename]
  cases Trap.unwind? label m.traps with
  | none =>
      exact .failed (.raised none (.trapNotFound label)) rfl
  | some found =>
      obtain ⟨⟨label, resumeAt, loop⟩, older⟩ := found
      cases loop with
      | none =>
          exact .running rfl
      | some loop =>
          exact renamed_nextRound r p
            { m with traps := older, position := resumeAt, jumped := true } loop

theorem renamed_startLoop
    (item : Name)
    (target : Value)
    (body escape : Name) :
    Renamed r Refuses (m.startLoop p item target body escape)
      ((m.rename r).startLoop (p.rename r) (r.onVariables item) (target.rename r.onVariables)
        (r.onLabels body) (r.onLabels escape)) := by
  cases target with
  | ident name =>
      have hmemory : (m.rename r).memory = m.memory.rename r.onVariables := rfl
      have hderef := m.memory.results_deref r (.ident name)
      simp only [startLoop, hmemory]
      generalize m.memory.deref (.ident name) = x at hderef ⊢
      generalize
        (m.memory.rename r.onVariables).deref ((Value.ident name).rename r.onVariables) = x'
        at hderef ⊢
      cases hderef with
      | error h =>
          exact .failed (.raised none h) rfl
      | ok v =>
          cases v with
          | vector items =>
              exact renamed_nextRound r p { m with memory := m.memory.pushFrame }
                { item, items, body, escape, next := 0 }
          | int n | float x | char c | ident other =>
              exact .failed (.raised none (.notALoopVariable name (by simp))) rfl
  | vector items =>
      exact renamed_nextRound r p { m with memory := m.memory.pushFrame }
        { item, items, body, escape, next := 0 }
  | int n | float x | char c =>
      exact .failed (.raised none (.notALoopLiteral (by simp) (by simp))) rfl

/-- Executing an action with new names is executing the action. -/
theorem renamed_exec
    [Sink σ]
    (a : Action) :
    Renamed r (Refused m a) (m.exec p a) ((m.rename r).exec (p.rename r) (a.rename r)) := by
  have hstore : Renamed r (Refused m a) (m.store (a.update m.memory))
      ((m.rename r).store ((a.rename r).update (m.memory.rename r.onVariables))) :=
    renamed_store r m (a.results_update r m.memory)
  cases a with
  | put value =>
      have hderef := m.memory.results_deref r value
      have hmemory : (m.rename r).memory = m.memory.rename r.onVariables := rfl
      simp only [exec, Action.rename, hmemory]
      generalize (m.memory.rename r.onVariables).deref (value.rename r.onVariables) = x'
        at hderef ⊢
      cases hvalue : m.memory.deref value with
      | ok v =>
          rw [hvalue] at hderef
          cases hderef with
          | ok _ =>
              exact renamed_emit r m fun e out hwrite => ⟨value, v, out, rfl, hvalue, hwrite⟩
      | error fault =>
          rw [hvalue] at hderef
          cases hderef with
          | error h =>
              exact .failed (.raised none h) rfl
  | jump label =>
      exact renamed_jump r p m label
  | exit =>
      exact .halted 0 rfl
  | setTrap label =>
      exact .running rfl
  | returnToTrap label =>
      exact renamed_returnToTrap r p m label
  | trappedJump label =>
      exact renamed_jump r p (m.setTrap label none) label
  | each item target body escape =>
      exact renamed_startLoop r p m item target body escape
  | noop | label name | pushFrame | popFrame | set name value | localSet name value
  | vecPush name value | add left right out =>
      exact hstore

theorem renamed_step
    [Sink σ]
    (limit : Option Nat) :
    Renamed r (StepRefused p m) (m.step p limit) ((m.rename r).step (p.rename r) limit) := by
  have hget : (p.rename r).get? (m.rename r).position =
      (p.get? m.position).map (Statement.rename r) :=
    p.get?_rename r m.position
  cases hs : p.get? m.position with
  | none =>
      simp only [hs, Option.map_none] at hget
      rw [step_of_end hs, step_of_end hget]
      exact .halted 0 rfl
  | some s =>
      simp only [hs, Option.map_some] at hget
      cases hlimit : limit.filter (· < m.steps + 1) with
      | some n =>
          rw [step_of_limit hs hlimit, step_of_limit hget hlimit]
          exact .failed (.raised _ (.stepLimitExceeded n)) rfl
      | none =>
          rw [step_eq_exec hs hlimit, step_eq_exec hget hlimit, s.action_rename]
          apply (renamed_exec r p m.count s.action).finish
          · rintro m _ rfl
            exact advance_rename r m
          · intro e e' he
            exact he.locateIfUnplaced fun hrefused => ⟨s, e, hs, hrefused, rfl⟩

/-- One of the first steps of a run fails with the given error, because the sink refuses the line
that it puts. -/
def RefusedWithin [Sink σ] (p : Program) (limit : Option Nat) (m : Machine σ) (n : Nat)
    (e : Error) : Prop :=
  ∃ k q q',
    k < n ∧
    m.run p limit k = .running q ∧
    q.step p limit = .failed e q' ∧
    StepRefused p q e

/-- **Names of variables and names of labels are two name spaces, and names do not matter.** Take
any commands that pass the check, in particular those of a loaded program, and give new names to
their variables and to their labels. The commands with new names pass the check as well. After any
number of steps, with any limit and on any sink, the run with new names has come to the same
position with the same counter and the same output, with the same variables in each frame and the
same traps under their new names. It goes on, halts with the same status, or fails at the same
place with the same fault up to new names, exactly as the run with the old names does. Only an
error with which the sink refuses a line of the run is the very same error. -/
theorem run_rename
    [Sink σ]
    {commands : List Command}
    {p : Program}
    (hp : Program.ofCommands commands = .ok p)
    (r : Renaming) :
    ∃ p',
      Program.ofCommands (commands.map (Command.rename r)) = .ok p' ∧
      ∀ (limit : Option Nat) (out : σ) (n : Nat),
        Progress.Related
          (fun m m' => m' = m.rename r)
          (fun m m' => m' = m.rename r)
          (Error.Renamed r (RefusedWithin p limit (start p out) n))
          ((start p out).run p limit n)
          ((start p' out).run p' limit n) := by
  refine ⟨p.rename r, Program.ofCommands_rename r hp, ?_⟩
  intro limit out n
  refine (Progress.Related.run_at (F := fun m => Error.Renamed r (StepRefused p m)) ?_ ?_ n).imp ?_
  · rintro m _ rfl
    exact renamed_step r p m limit
  · exact start_rename r p out
  · rintro e e' ⟨k, q, q', hk, hq, hfailed, he⟩
    exact he.imp fun hrefused => ⟨k, q, q', hk, hq, hfailed, hrefused⟩

/-- New names for two variables; the labels keep theirs. -/
def swapXY : Renaming where
  onVariables := Equiv.swap "x" "y"
  onLabels := id
  injective_onVariables := Equiv.injective _
  injective_onLabels := Function.injective_id
  onLabels_entryLabel := rfl
  onLabels_loopLabel := rfl

/-- A script that uses one name for a variable and for a label. -/
def sharedName : List Command :=
  List.map (fun (line, name, args) => { name, args, location := { file := "main", line } }) [
    (1, "set", [.ident "x", .int 1]),
    (2, "jmp", [.ident "x"]),
    (3, "label", [.ident "x"]),
    (4, "put", [.ident "x"]),
    (5, "put", [.ident "y"])]

/-- The script fails because it puts a variable that is not bound. With new names it fails in the
same place for want of the other variable, after the same output. -/
theorem run_rename_of_sharedName :
    ∃ p p' m,
      Program.ofCommands sharedName = .ok p ∧
      Program.ofCommands (sharedName.map (Command.rename swapXY)) = .ok p' ∧
      (start p (#[] : Array String)).run p none 5 =
        .failed
          { fault := .invalidReference "y", origin := some { file := "main", line := 5 } } m ∧
      m.out = #["1"] ∧
      (start p' (#[] : Array String)).run p' none 5 =
        .failed
          { fault := .invalidReference "x", origin := some { file := "main", line := 5 } }
          (m.rename swapXY) := by
  have hp : Program.ofCommands sharedName = .ok _ := rfl
  obtain ⟨p', hp', hrun⟩ := run_rename (σ := Array String) hp swapXY
  refine ⟨_, p', _, hp, hp', rfl, rfl, ?_⟩
  have hfive := hrun none #[] 5
  generalize (start p' (#[] : Array String)).run p' none 5 = y at hfive ⊢
  change Progress.Related _ _ _ (.failed _ _) y at hfive
  cases hfive with
  | failed he hm =>
      subst hm
      cases he with
      | raised origin hfault =>
          cases hfault
          rfl
      | refused hrefused =>
          -- an array takes every line
          obtain ⟨k, q, q', -, -, -, s, e₀, -, ⟨value, v, out, -, -, hwrite⟩, -⟩ := hrefused
          cases hwrite

end Machine
end Trapline
