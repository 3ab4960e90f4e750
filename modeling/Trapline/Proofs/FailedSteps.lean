import Trapline.Proofs.Identifiers

/-!
# What a failed step leaves behind

Several actions change a machine in stages, and a later stage may fail. A loop takes a frame of its
own before it binds its first element, and a return drops traps and moves the position before the
loop of the trap goes on. In a loaded program nothing of this shows after a failure, with a single
exception: a loop has no element left, and someone else has dropped its frame. The return to such a
loop is stranded. It fails for want of a frame, and the traps are gone by then.

Main statements:
* `failed_of_exec`: what an action that fails has changed.
* `state_of_failed_step`: what a step that fails leaves behind.
-/

namespace Trapline

theorem Memory.popFrame_eq_error_iff
    {m : Memory}
    {fault : Fault} :
    m.popFrame = .error fault ↔ m.depth = 1 ∧ fault = .popRootFrame := by
  cases m with
  | root frame =>
      simp [popFrame, depth, eq_comm]
  | scope frame outer =>
      have hdepth := outer.one_le_depth
      simp only [popFrame, depth, reduceCtorEq, false_iff, not_and]
      omega

namespace Machine

variable {σ : Type}

/-- Returning to a label leads to the trap of a loop that has no element left, while there is no
frame but the root. -/
structure Stranded (m : Machine σ) (label : Name) (trap : Trap) (older : List Trap) : Prop where
  unwind : Trap.unwind? label m.traps = some (trap, older)
  exhausted : ∃ loop, trap.loop = some loop ∧ loop.items.length ≤ loop.next
  root : m.memory.depth = 1

/-- The machine back at a trap, with only older traps pending. -/
def backAt (m : Machine σ) (trap : Trap) (older : List Trap) : Machine σ :=
  { m with traps := older, position := trap.resumeAt, jumped := true }

variable {p : Program} {m m' : Machine σ} {e : Error}

/-- A loop that fails has changed nothing. Without identifiers among its elements it fails only
when it is to leave and there is no frame to drop. -/
theorem failed_of_nextRound
    {loop : Loop}
    (hloop : ∀ v ∈ loop.items, v.IdentFree)
    (h : m.nextRound p loop = .failed e m') :
    loop.items.length ≤ loop.next ∧
    m.memory.depth = 1 ∧
    e = { fault := .popRootFrame } ∧
    m' = m := by
  rcases nextRound_cases p m loop with
    ⟨v, memory, hv, hset, hround⟩ | ⟨memory, hv, hpop, hround⟩ |
    ⟨v, fault, hv, hset, hround⟩ | ⟨fault, hv, hpop, hround⟩
  · rw [hround] at h
    exact absurd h (jump_ne_failed _ _ _ _ _)
  · rw [hround] at h
    exact absurd h (jump_ne_failed _ _ _ _ _)
  · obtain ⟨hident, -⟩ := Memory.fault_of_storing hset
    rw [(hloop v (List.mem_of_getElem? hv)).isIdent] at hident
    cases hident
  · obtain ⟨hroot, rfl⟩ := Memory.popFrame_eq_error_iff.1 hpop
    rw [hround] at h
    cases h
    exact ⟨List.getElem?_eq_none_iff.1 hv, hroot, rfl, rfl⟩

theorem IdentFree.count
    (hm : m.IdentFree) :
    m.count.IdentFree :=
  ⟨hm.memory, hm.traps⟩

theorem stranded_count_iff
    {label : Name}
    {trap : Trap}
    {older : List Trap} :
    m.count.Stranded label trap older ↔ m.Stranded label trap older := by
  constructor
  · intro h
    exact ⟨h.unwind, h.exhausted, h.root⟩
  · intro h
    exact ⟨h.unwind, h.exhausted, h.root⟩

/-- A return that is stranded fails back at the trap. -/
theorem Stranded.returnToTrap
    {label : Name}
    {trap : Trap}
    {older : List Trap}
    (h : m.Stranded label trap older)
    (p : Program) :
    m.returnToTrap p label = .failed { fault := .popRootFrame } (m.backAt trap older) := by
  obtain ⟨loop, hloop, hexhausted⟩ := h.exhausted
  have hitem : loop.items[loop.next]? = none := List.getElem?_eq_none hexhausted
  have hpop : m.memory.popFrame = .error .popRootFrame :=
    Memory.popFrame_eq_error_iff.2 ⟨h.root, rfl⟩
  simp [Machine.returnToTrap, h.unwind, hloop, nextRound, hitem, hpop, backAt]

/-- A return that fails has changed nothing, or it is stranded. -/
theorem failed_of_returnToTrap
    {label : Name}
    (hm : m.IdentFree)
    (h : m.returnToTrap p label = .failed e m') :
    m' = m ∨
    ∃ trap older,
      m.Stranded label trap older ∧ e.fault = .popRootFrame ∧ m' = m.backAt trap older := by
  rcases returnToTrap_cases p m label with
    ⟨-, hreturn⟩ | ⟨trap, older, -, -, hreturn⟩ | ⟨trap, older, loop, hunwind, hloop, hreturn⟩
  · rw [hreturn] at h
    cases h
    exact Or.inl rfl
  · rw [hreturn] at h
    cases h
  · rw [hreturn] at h
    obtain ⟨newer, htraps, -⟩ := Trap.unwind?_eq_some_iff.1 hunwind
    have htrap : trap.IdentFree := hm.traps trap (by simp [htraps])
    obtain ⟨hexhausted, hroot, rfl, rfl⟩ := failed_of_nextRound (htrap loop hloop) h
    exact Or.inr ⟨trap, older, ⟨hunwind, ⟨loop, hloop, hexhausted⟩, hroot⟩, rfl, rfl⟩

/-- A loop that cannot start has changed nothing: with a frame of its own it could not fail. -/
theorem failed_of_startLoop
    {item body escape : Name}
    {target : Value}
    (hm : m.IdentFree)
    (htarget : target.IsLiteral)
    (h : m.startLoop p item target body escape = .failed e m') :
    m' = m := by
  rcases startLoop_cases p m item target body escape with
    ⟨items, hitems, hstart⟩ | ⟨fault, -, hstart⟩ | ⟨v, -, hstart⟩
  · rw [hstart] at h
    have hfree := identFree_of_deref hm.memory htarget hitems
    obtain ⟨-, hroot, -⟩ := failed_of_nextRound (Value.identFree_vector_iff.1 hfree) h
    have hdepth := m.memory.one_le_depth
    rw [Memory.depth_pushFrame] at hroot
    omega
  · rw [hstart] at h
    cases h
    rfl
  · rw [hstart] at h
    cases h
    rfl

/-- An action with literal arguments that fails has changed nothing, or it is a stranded return.
The sink has to be as it was when it refuses a line. -/
theorem failed_of_exec
    [Sink σ]
    (hsink : ∀ (out out' : σ) (line : String) (e : Error),
      Sink.write out line = (.error e, out') → out' = out)
    {a : Action}
    (hm : m.IdentFree)
    (ha : ∀ value ∈ a.args, value.IsLiteral)
    (h : m.exec p a = .failed e m') :
    m' = m ∨
    ∃ label trap older,
      a = .returnToTrap label ∧
      m.Stranded label trap older ∧
      e.fault = .popRootFrame ∧
      m' = m.backAt trap older := by
  have hstore : m.store (a.update m.memory) = .failed e m' → m' = m := by
    intro h
    cases hupdate : a.update m.memory with
    | ok memory =>
        rw [hupdate] at h
        cases h
    | error fault =>
        rw [hupdate] at h
        cases h
        rfl
  cases a with
  | put value =>
      cases hderef : m.memory.deref value with
      | error fault =>
          simp only [exec, hderef, proceed, Progress.failed.injEq] at h
          exact Or.inl h.2.symm
      | ok v =>
          simp only [exec, hderef, proceed, emit] at h
          split at h
          · cases h
          · rename_i e' out hwrite
            obtain rfl := hsink _ _ _ _ hwrite
            cases h
            exact Or.inl rfl
  | jump label =>
      exact absurd h (jump_ne_failed p m label e m')
  | trappedJump label =>
      exact absurd h (jump_ne_failed p (m.setTrap label none) label e m')
  | returnToTrap label =>
      rcases failed_of_returnToTrap hm h with hsame | ⟨trap, older, hstranded⟩
      · exact Or.inl hsame
      · exact Or.inr ⟨label, trap, older, rfl, hstranded⟩
  | each item target body escape =>
      exact Or.inl (failed_of_startLoop hm (ha target (by simp [Action.args])) h)
  | exit | setTrap label =>
      cases h
  | noop | label name | pushFrame | popFrame | set name value | localSet name value
  | vecPush name value | add left right out =>
      exact Or.inl (hstore h)

/-- **A failed step leaves the machine as it was.** Take any program loaded from files or from a
text, any sink that a refused line does not change, and any machine that steps lead to. A step that
fails is counted, and the memory and the output are as they were. So are the traps, the position
and the mark of a jump, unless the step is a stranded return and fails for want of a frame. Such a
step alone has dropped the trap and all newer ones, and its jump to the trap is left to be done. -/
theorem state_of_failed_step
    [Sink σ]
    (hsink : ∀ (out out' : σ) (line : String) (e : Error),
      Sink.write out line = (.error e, out') → out' = out)
    {p : Program}
    (hp : (∃ (read : Reader) (entry : String), read.load entry = .ok p) ∨
      ∃ text file, Program.ofText text file = .ok p)
    {limit : Option Nat}
    {out : σ}
    {m m' : Machine σ}
    {e : Error}
    (hm : Reachable p limit out m)
    (h : m.step p limit = .failed e m') :
    m'.memory = m.memory ∧
    m'.out = m.out ∧
    m'.steps = m.steps + 1 ∧
    (∀ label trap older,
      p.action? m.position = some (.returnToTrap label) →
      m.Stranded label trap older →
      e.fault = .popRootFrame →
      m'.traps = older ∧ m'.position = trap.resumeAt ∧ m'.jumped = true) ∧
    ((¬ ∃ label trap older,
        p.action? m.position = some (.returnToTrap label) ∧
        m.Stranded label trap older ∧
        e.fault = .popRootFrame) →
      m'.traps = m.traps ∧ m'.position = m.position ∧ m'.jumped = m.jumped) := by
  have hliterals : p.HasLiterals := by
    rcases hp with ⟨read, entry, h⟩ | ⟨text, file, h⟩
    · exact Program.hasLiterals_of_load h
    · exact Program.hasLiterals_of_load h
  have hfree : m.IdentFree := hm.identFree hliterals
  obtain ⟨s, hget, ⟨n, hn, rfl⟩ | ⟨e₀, hexec, rfl⟩⟩ := failed_of_step h
  · refine ⟨rfl, rfl, rfl, ?_, fun _ => ⟨rfl, rfl, rfl⟩⟩
    intro label trap older _ _ hfault
    rw [hn] at hfault
    cases hfault
  · have haction : p.action? m.position = some s.action := by
      rw [Program.action?, hget, Option.map_some]
    have hback :
        ∀ label trap older,
          p.action? m.position = some (.returnToTrap label) →
          m.Stranded label trap older →
          e₀.fault = .popRootFrame →
          m'.traps = older ∧ m'.position = trap.resumeAt ∧ m'.jumped = true := by
      intro label trap older hreturn hstranded _
      rw [haction, Option.some.injEq] at hreturn
      rw [hreturn, exec, (stranded_count_iff.2 hstranded).returnToTrap p] at hexec
      cases hexec
      exact ⟨rfl, rfl, rfl⟩
    rcases failed_of_exec hsink hfree.count (hliterals _ s hget) hexec with
      rfl | ⟨label, trap, older, hreturn, hcount, hfault, rfl⟩
    · exact ⟨rfl, rfl, rfl, hback, fun _ => ⟨rfl, rfl, rfl⟩⟩
    · refine ⟨rfl, rfl, rfl, hback, ?_⟩
      intro hnone
      rw [hreturn] at haction
      exact absurd ⟨label, trap, older, haction, stranded_count_iff.1 hcount, hfault⟩ hnone

/-- A script that drops the frame of its loop in the body of the loop. -/
def droppedFrame : String :=
  "each: :x, \"a, :body, :end\nlabel: :body\npopframe\nreturn_to_trap: :each\nlabel: :end"

/-- A sink without room for any line. -/
def noRoom : BoundedSink where
  room := 0
  refusal := { fault := .unreadable "out" "full" }

/-- The script is back at its loop with nothing but the root frame. The return fails and leaves the
memory as it was, but the trap of the loop is gone, and the position is right behind the loop. -/
theorem state_of_failed_step_of_droppedFrame :
    ∃ p m e m',
      Program.ofText droppedFrame "main" = .ok p ∧
      Reachable p none noRoom m ∧
      m.step p none = .failed e m' ∧
      e.fault = .popRootFrame ∧
      m.traps.length = 1 ∧
      m.position = 3 ∧
      m'.memory = m.memory ∧
      m'.traps = [] ∧
      m'.position = 1 ∧
      m'.jumped = true := by
  let loop : Loop :=
    { item := "x", items := [.char 'a'], body := "body", escape := "end", next := 1 }
  let trap : Trap := { label := "each", resumeAt := 1, loop := some loop }
  have hrun :
      ((Program.ofText droppedFrame "main").toOption.map fun p =>
        let m := ((start p noRoom).run p none 3).machine
        (m.position, p.action? m.position, m.traps, m.memory.depth,
          (m.step p none).error?.map Error.fault)) =
        some (3, some (.returnToTrap "each"), [trap], 1, some .popRootFrame) := by
    decide +kernel
  cases hp : Program.ofText droppedFrame "main" with
  | error e =>
      rw [hp] at hrun
      cases hrun
  | ok p =>
      rw [hp] at hrun
      simp only [Except.toOption, Option.map_some, Option.some.injEq, Prod.mk.injEq] at hrun
      have hm : Reachable p none noRoom ((start p noRoom).run p none 3).machine :=
        Reachable.start.run 3
      generalize ((start p noRoom).run p none 3).machine = m at hrun hm
      obtain ⟨hposition, haction, htraps, hroot, hfault⟩ := hrun
      obtain ⟨e, herror, hfault⟩ := Option.map_eq_some_iff.1 hfault
      have h := Progress.error?_eq_some_iff.1 herror
      have hstranded : m.Stranded "each" trap [] := by
        refine ⟨?_, ⟨loop, rfl, Nat.le_refl 1⟩, hroot⟩
        rw [htraps]
        rfl
      have hsink : ∀ (out out' : BoundedSink) (line : String) (e : Error),
          Sink.write out line = (.error e, out') → out' = out := by
        intro out out' line e hwrite
        simp only [Sink.write, BoundedSink.write] at hwrite
        split at hwrite
        · cases hwrite
        · cases hwrite
          rfl
      obtain ⟨hmemory, -, -, hback, -⟩ :=
        state_of_failed_step hsink (Or.inr ⟨_, _, hp⟩) hm h
      obtain ⟨htraps', hposition', hjumped⟩ := hback "each" trap [] haction hstranded hfault
      exact ⟨p, m, e, _, rfl, hm, h, hfault, by rw [htraps]; rfl, hposition, hmemory,
        htraps', hposition', hjumped⟩

end Machine
end Trapline
