import Trapline.Proofs.Control
import Trapline.Proofs.Labels
import Trapline.Proofs.Run

/-!
# Where pending traps come from

As long as a run goes on, its control state is tied to the statements of the program. The position
lies in the program or at its end. A plain trap was set by a statement and returns right behind it.
The trap of a loop belongs to the statement that started the loop, but does not stay behind it: a
round is started after the position was moved to where the last trap returns, so each round sets
its trap one further than the round before. The position that such a trap returns to is overwritten
before it is used, and it may lie beyond the end of the program.

Main statements:
* `Turn.setIn`, `Turn.position_le`: what a turn keeps.
* `control_of_run`: the control state of every machine that a run goes through.
-/

namespace Trapline

namespace Trap

/-- A trap that stands where a statement of the program puts it. -/
inductive SetIn (p : Program) : Trap → Prop
  | plain
      {label : Name} {q : Nat}
      (haction :
        p.action? q = some (.setTrap label) ∨ p.action? q = some (.trappedJump label)) :
      SetIn p { label, resumeAt := q + 1, loop := none }
  | round
      (rest : Loop) {q : Nat} {target : Value}
      (haction : p.action? q = some (.each rest.item target rest.body rest.escape))
      (hfirst : 1 ≤ rest.next)
      (hlast : rest.next ≤ rest.items.length) :
      SetIn p { label := loopLabel, resumeAt := q + rest.next, loop := some rest }

/-- What is left pending by a return was set where it was before. -/
theorem setIn_of_unwind
    {p : Program}
    {label : Name}
    {traps older : List Trap}
    {trap : Trap}
    (htraps : ∀ trap ∈ traps, trap.SetIn p)
    (h : unwind? label traps = some (trap, older)) :
    trap.SetIn p ∧ ∀ trap ∈ older, trap.SetIn p := by
  obtain ⟨newer, rfl, -⟩ := unwind?_eq_some_iff.1 h
  constructor
  · exact htraps trap (by simp)
  · intro trap htrap
    exact htraps trap (by simp [htrap])

end Trap

namespace Turn

variable {p : Program} {position position' : Nat} {traps traps' : List Trap} {a : Action}

/-- A turn sets its traps where the statement puts them. -/
theorem setIn
    (haction : p.action? position = some a)
    (h : Turn p position traps a position' traps')
    (htraps : ∀ trap ∈ traps, trap.SetIn p) :
    ∀ trap ∈ traps', trap.SetIn p := by
  cases h with
  | next | jump | skip =>
      exact htraps
  | setTrap label =>
      exact List.forall_mem_cons.2 ⟨.plain (Or.inl haction), htraps⟩
  | trappedJump hlabel =>
      exact List.forall_mem_cons.2 ⟨.plain (Or.inr haction), htraps⟩
  | @enter item body escape _ _ items _ hitem hlabel =>
      have hlength : 0 < items.length := (List.getElem?_eq_some_iff.1 hitem).1
      refine List.forall_mem_cons.2 ⟨?_, htraps⟩
      exact .round { item, items, body, escape, next := 1 } haction le_rfl hlength
  | back hunwind hloop | leave hunwind hloop hlabel =>
      exact (Trap.setIn_of_unwind htraps hunwind).2
  | @again _ trap older loop _ _ hunwind hloop hitem hlabel =>
      obtain ⟨htrap, holder⟩ := Trap.setIn_of_unwind htraps hunwind
      have hlength : loop.next < loop.items.length := (List.getElem?_eq_some_iff.1 hitem).1
      refine List.forall_mem_cons.2 ⟨?_, holder⟩
      cases htrap with
      | plain =>
          cases hloop
      | round _ hstart hfirst hlast =>
          cases hloop
          exact .round { loop with next := loop.next + 1 } hstart (Nat.le_add_left 1 _) hlength

/-- A turn leads to a statement of the program or to its end. -/
theorem position_le
    (haction : p.action? position = some a)
    (h : Turn p position traps a position' traps')
    (htraps : ∀ trap ∈ traps, trap.SetIn p) :
    position' ≤ p.size := by
  cases h with
  | next | setTrap =>
      exact Program.lt_size_of_action haction
  | jump hlabel | trappedJump hlabel | enter _ hlabel | skip hlabel | again _ _ _ hlabel
  | leave _ _ hlabel =>
      exact (Program.lt_size_of_label hlabel).le
  | @back label trap older hunwind hloop =>
      obtain ⟨htrap, -⟩ := Trap.setIn_of_unwind htraps hunwind
      cases htrap with
      | plain hset =>
          exact hset.elim Program.lt_size_of_action Program.lt_size_of_action
      | round =>
          cases hloop

end Turn

namespace Machine

variable {σ : Type}

/-- A control state that fits the program. -/
structure InControl (p : Program) (m : Machine σ) : Prop where
  jumped : m.jumped = false
  position : m.position ≤ p.size
  traps : ∀ trap ∈ m.traps, trap.SetIn p

theorem InControl.step
    [Sink σ]
    {p : Program}
    {limit : Option Nat}
    {m m' : Machine σ}
    (hm : m.InControl p)
    (h : m.step p limit = .running m') :
    m'.InControl p := by
  obtain ⟨a, haction, hturn, hjumped⟩ := turn_of_step hm.jumped h
  exact ⟨hjumped, hturn.position_le haction hm.traps, hturn.setIn haction hm.traps⟩

theorem InControl.start
    (p : Program)
    (out : σ) :
    (Machine.start p out).InControl p :=
  ⟨rfl, p.entry_le_size, nofun⟩

/-- **The control state of a running machine.** As long as a run goes on, no jump is left to be
done, the position lies in the program or at its end, and there is a frame. A pending trap without
a loop has the label of a statement that sets traps, and returns right behind that statement. A
pending trap with a loop has the label of loops and belongs to a statement that starts this very
loop; between one and all of the elements have been taken, and the trap lies that many positions
behind the statement. -/
theorem control_of_run
    [Sink σ]
    {p : Program}
    {limit : Option Nat}
    {out : σ}
    {n : Nat}
    {m : Machine σ}
    (h : (Machine.start p out).run p limit n = .running m) :
    m.jumped = false ∧
    m.position ≤ p.size ∧
    1 ≤ m.memory.frames.length ∧
    (∀ trap ∈ m.traps, trap.loop = none →
      ∃ q < p.size,
        (p.action? q = some (.setTrap trap.label) ∨
          p.action? q = some (.trappedJump trap.label)) ∧
        trap.resumeAt = q + 1) ∧
    (∀ trap ∈ m.traps, ∀ loop, trap.loop = some loop →
      trap.label = Trap.loopLabel ∧
      ∃ q < p.size,
        (∃ target, p.action? q = some (.each loop.item target loop.body loop.escape)) ∧
        1 ≤ loop.next ∧
        loop.next ≤ loop.items.length ∧
        trap.resumeAt = q + loop.next) := by
  have hm : m.InControl p :=
    invariant_of_run h (InControl.start p out) fun _ _ hm hstep => hm.step hstep
  refine ⟨hm.jumped, hm.position, ?_, ?_, ?_⟩
  · rw [← Memory.depth_eq_length_frames]
    exact m.memory.one_le_depth
  · intro trap htrap hplain
    cases hm.traps trap htrap with
    | @plain label q haction =>
        have hq : q < p.size :=
          haction.elim Program.lt_size_of_action Program.lt_size_of_action
        exact ⟨q, hq, haction, rfl⟩
    | round =>
        cases hplain
  · intro trap htrap loop hloop
    cases hm.traps trap htrap with
    | plain =>
        cases hloop
    | @round rest q target haction hfirst hlast =>
        cases hloop
        exact ⟨rfl, q, Program.lt_size_of_action haction, ⟨target, haction⟩, hfirst, hlast, rfl⟩

/-- A loop over five elements in a program of four statements. -/
def longLoop : Program := .ofCode #[
  { op := .each,
    args := [.ident "x", .ofChars ['a', 'b', 'c', 'd', 'e'], .ident "body", .ident "end"],
    location := { file := "main", line := 1 }, accepted := Eq.refl true },
  { op := .label, args := [.ident "body"],
    location := { file := "main", line := 2 }, accepted := Eq.refl true },
  { op := .returnToTrap, args := [.ident "each"],
    location := { file := "main", line := 3 }, accepted := Eq.refl true },
  { op := .label, args := [.ident "end"],
    location := { file := "main", line := 4 }, accepted := Eq.refl true }]

/-- In its last round the trap of the loop lies beyond the end of the program, five positions behind
the statement that started the loop. -/
theorem control_of_longLoop :
    ∃ m,
      (start longLoop (#[] : Array String)).run longLoop none 9 = .running m ∧
      ∃ trap ∈ m.traps, ∃ loop,
        trap.loop = some loop ∧
        longLoop.size < trap.resumeAt ∧
        ∃ q < longLoop.size,
          (∃ target, longLoop.action? q = some (.each loop.item target loop.body loop.escape)) ∧
          loop.next = 5 ∧
          trap.resumeAt = q + loop.next := by
  have hrun :
      (start longLoop (#[] : Array String)).run longLoop none 9 =
        .running ((start longLoop (#[] : Array String)).run longLoop none 9).machine := rfl
  obtain ⟨-, -, -, -, hloops⟩ := control_of_run hrun
  obtain ⟨-, q, hq, haction, -, -, hresume⟩ := hloops _ List.mem_cons_self _ rfl
  exact ⟨_, hrun, _, List.mem_cons_self, _, rfl, by decide, q, hq, haction, rfl, hresume⟩

end Machine
end Trapline
