import Mathlib.Data.Multiset.DershowitzManna
import Mathlib.Tactic.Abel
import Trapline.Proofs.Control
import Trapline.Proofs.Labels
import Trapline.Proofs.Run

/-!
# Programs that stop

A program whose jumps and loops only lead forward stops without a limit, although returns to traps
lead backward and loops go over vectors of any length.

The measure is a multiset of numbers. The position counts for what is left of the program behind
it, and a plain trap for what is left behind the place that it returns to. A loop counts for what
is left behind its start, once for each round to come and once for the way out. A step replaces
something in the multiset by smaller numbers: a jump replaces the position, a return to a plain
trap takes away the position, and a new round takes away one of the rounds to come. The numbers of
loops are odd and those of positions even, so that a position in the body lies between that of the
loop and the round that leads to it.

Main statements:
* `Turn.controlWeight_lt`: every turn makes the measure smaller.
* `exists_stop_of_labelsForward`: the run of such a program halts or fails.
-/

namespace Trapline

namespace Program

/-- Jumps and loops lead to later positions, if to any. -/
def LabelsForward (p : Program) : Prop :=
  ∀ position a, p.action? position = some a →
    ∀ label ∈ a.targets, ∀ target, p.label? label = some target → position < target

/-- What is left of a program behind a position. -/
def weight (p : Program) (position : Nat) : Nat :=
  2 * (p.size - position)

theorem labelsForward_iff
    (p : Program) :
    p.LabelsForward ↔
      ∀ position < p.size, ∀ a ∈ p.action? position,
        ∀ label ∈ a.targets, ∀ target ∈ p.label? label, position < target := by
  constructor
  · intro h position _ a ha label hlabel target htarget
    exact h position a ha label hlabel target htarget
  · intro h position a ha label hlabel target htarget
    exact h position (lt_size_of_action ha) a ha label hlabel target htarget

instance (p : Program) : Decidable p.LabelsForward :=
  decidable_of_iff _ p.labelsForward_iff.symm

theorem weight_lt
    {p : Program}
    {position target : Nat}
    (hsize : position < p.size)
    (htarget : position < target) :
    p.weight target + 1 < p.weight position := by
  unfold weight
  omega

end Program

namespace Trap

/-- The position of the loop whose trap this is: each round moves the trap on by one. -/
def origin (trap : Trap) (loop : Loop) : Nat :=
  trap.resumeAt - loop.next

/-- A trap of a loop that leads to later positions. -/
def IsForward (p : Program) (trap : Trap) : Prop :=
  ∀ loop, trap.loop = some loop →
    trap.origin loop < p.size ∧
    ∀ label ∈ [loop.body, loop.escape], ∀ target,
      p.label? label = some target → trap.origin loop < target

/-- What a trap counts for. -/
def weights (p : Program) (trap : Trap) : Multiset Nat :=
  match trap.loop with
  | none => {p.weight trap.resumeAt}
  | some loop =>
      Multiset.replicate (loop.items.length - loop.next + 1) (p.weight (trap.origin loop) - 1)

/-- What a stack of traps counts for. -/
def allWeights (p : Program) (traps : List Trap) : Multiset Nat :=
  (traps.map (weights p)).sum

@[simp] theorem allWeights_cons
    (p : Program)
    (trap : Trap)
    (traps : List Trap) :
    allWeights p (trap :: traps) = trap.weights p + allWeights p traps := by
  simp [allWeights]

@[simp] theorem allWeights_append
    (p : Program)
    (newer older : List Trap) :
    allWeights p (newer ++ older) = allWeights p newer + allWeights p older := by
  simp [allWeights]

theorem weights_of_plain
    (p : Program)
    {trap : Trap}
    (h : trap.loop = none) :
    trap.weights p = {p.weight trap.resumeAt} := by
  simp [weights, h]

theorem weights_of_loop
    (p : Program)
    {trap : Trap}
    {loop : Loop}
    (h : trap.loop = some loop) :
    trap.weights p =
      Multiset.replicate (loop.items.length - loop.next + 1) (p.weight (trap.origin loop) - 1) := by
  simp [weights, h]

theorem isForward_of_plain
    (p : Program)
    {trap : Trap}
    (h : trap.loop = none) :
    trap.IsForward p := by
  intro loop hloop
  rw [h] at hloop
  cases hloop

end Trap

namespace Loop

theorem weights_trapAt
    (p : Program)
    (loop : Loop)
    (position : Nat) :
    (loop.trapAt position).weights p =
      Multiset.replicate (loop.items.length - (loop.next + 1) + 1)
        (p.weight (position - loop.next) - 1) := by
  rw [Trap.weights_of_loop p rfl]
  simp [Trap.origin, trapAt]

/-- The trap of a round leads forward if the loop does. -/
theorem isForward_trapAt
    {p : Program}
    {loop : Loop}
    {position : Nat}
    (hsize : position - loop.next < p.size)
    (hlabels :
      ∀ label ∈ [loop.body, loop.escape], ∀ target,
        p.label? label = some target → position - loop.next < target) :
    (loop.trapAt position).IsForward p := by
  intro rest hrest
  cases hrest
  have horigin :
      (loop.trapAt position).origin { loop with next := loop.next + 1 } =
        position - loop.next := by
    simp [Trap.origin, trapAt]
  rw [horigin]
  exact ⟨hsize, hlabels⟩

end Loop

/-- What the control state of a machine counts for. -/
def controlWeight (p : Program) (position : Nat) (traps : List Trap) : Multiset Nat :=
  {p.weight position} + Trap.allWeights p traps

namespace Turn

variable {p : Program} {position position' : Nat} {traps traps' : List Trap} {a : Action}

/-- A turn of a program that leads forward keeps the traps so. -/
theorem isForward
    (hforward : p.LabelsForward)
    (haction : p.action? position = some a)
    (h : Turn p position traps a position' traps')
    (htraps : ∀ trap ∈ traps, trap.IsForward p) :
    ∀ trap ∈ traps', trap.IsForward p := by
  cases h with
  | next | jump | skip =>
      exact htraps
  | setTrap | trappedJump =>
      exact List.forall_mem_cons.2 ⟨Trap.isForward_of_plain p rfl, htraps⟩
  | enter =>
      refine List.forall_mem_cons.2 ⟨Loop.isForward_trapAt ?_ ?_, htraps⟩
      · exact Program.lt_size_of_action haction
      · exact hforward position _ haction
  | back hunwind | leave hunwind =>
      obtain ⟨newer, rfl, -⟩ := Trap.unwind?_eq_some_iff.1 hunwind
      intro trap htrap
      exact htraps trap (by simp [htrap])
  | again hunwind hloop =>
      obtain ⟨newer, rfl, -⟩ := Trap.unwind?_eq_some_iff.1 hunwind
      obtain ⟨hsize, hlabels⟩ := htraps _ (by simp) _ hloop
      refine List.forall_mem_cons.2 ⟨Loop.isForward_trapAt hsize hlabels, ?_⟩
      intro trap htrap
      exact htraps trap (by simp [htrap])

/-- Going forward, also with a new trap, replaces the position. -/
theorem controlWeight_lt_of_forward
    {new : Multiset Nat}
    (hposition : p.weight position' < p.weight position)
    (htraps : Trap.allWeights p traps' = new + Trap.allWeights p traps)
    (hnew : ∀ b ∈ new, b < p.weight position) :
    (controlWeight p position' traps').IsDershowitzMannaLT (controlWeight p position traps) := by
  refine ⟨Trap.allWeights p traps, {p.weight position'} + new, {p.weight position}, ?_, ?_, ?_, ?_⟩
  · simp
  · rw [controlWeight, htraps, ← add_assoc, add_comm]
  · rw [controlWeight, add_comm]
  · intro b hb
    refine ⟨p.weight position, Multiset.mem_singleton_self _, ?_⟩
    rcases Multiset.mem_add.1 hb with hb | hb
    · rw [Multiset.mem_singleton.1 hb]
      exact hposition
    · exact hnew b hb

/-- A return takes away the position and the newer traps. What it keeps of its own trap stays, and
the rest of the trap is replaced. -/
theorem controlWeight_lt_of_return
    {trap : Trap}
    {newer older : List Trap}
    {kept gone new : Multiset Nat}
    (htrap : trap.weights p = kept + gone)
    (hnext : controlWeight p position' traps' = new + (kept + Trap.allWeights p older))
    (hnew : ∀ b ∈ new, ∃ c ∈ gone, b < c) :
    (controlWeight p position' traps').IsDershowitzMannaLT
      (controlWeight p position (newer ++ trap :: older)) := by
  refine ⟨kept + Trap.allWeights p older, new,
    {p.weight position} + Trap.allWeights p newer + gone, ?_, ?_, ?_, ?_⟩
  · simp
  · rw [hnext, add_comm]
  · rw [controlWeight, Trap.allWeights_append, Trap.allWeights_cons, htrap]
    abel
  · intro b hb
    obtain ⟨c, hc, hbc⟩ := hnew b hb
    exact ⟨c, Multiset.mem_add.2 (Or.inr hc), hbc⟩

/-- Every turn of a program that leads forward makes the measure smaller. -/
theorem controlWeight_lt
    (hforward : p.LabelsForward)
    (haction : p.action? position = some a)
    (h : Turn p position traps a position' traps')
    (htraps : ∀ trap ∈ traps, trap.IsForward p) :
    (controlWeight p position' traps').IsDershowitzMannaLT (controlWeight p position traps) := by
  have hsize : position < p.size := Program.lt_size_of_action haction
  have hnext : p.weight (position + 1) + 1 < p.weight position :=
    Program.weight_lt hsize (Nat.lt_succ_self position)
  have hlabel :
      ∀ {label target}, label ∈ a.targets → p.label? label = some target →
        p.weight target + 1 < p.weight position := by
    intro label target hmem hlabel
    exact Program.weight_lt hsize (hforward position a haction label hmem target hlabel)
  cases h with
  | next =>
      exact controlWeight_lt_of_forward (by omega) (zero_add _).symm (by simp)
  | jump htarget | skip htarget =>
      have := hlabel (by simp [Action.targets]) htarget
      exact controlWeight_lt_of_forward (by omega) (zero_add _).symm (by simp)
  | setTrap label =>
      refine controlWeight_lt_of_forward (by omega) (Trap.allWeights_cons p _ _) ?_
      rw [Trap.weights_of_plain p rfl]
      simp only [Multiset.mem_singleton, forall_eq]
      omega
  | trappedJump htarget =>
      have := hlabel (by simp [Action.targets]) htarget
      refine controlWeight_lt_of_forward (by omega) (Trap.allWeights_cons p _ _) ?_
      rw [Trap.weights_of_plain p rfl]
      simp only [Multiset.mem_singleton, forall_eq]
      omega
  | enter hitem htarget =>
      have := hlabel (by simp [Action.targets]) htarget
      refine controlWeight_lt_of_forward (by omega) (Trap.allWeights_cons p _ _) ?_
      rw [Loop.weights_trapAt]
      intro b hb
      rw [Multiset.eq_of_mem_replicate hb, Nat.sub_zero]
      omega
  | back hunwind hloop =>
      -- the trap becomes the position
      obtain ⟨newer, rfl, -⟩ := Trap.unwind?_eq_some_iff.1 hunwind
      exact controlWeight_lt_of_return
        ((Trap.weights_of_plain p hloop).trans (add_zero _).symm) (zero_add _).symm (by simp)
  | @again _ trap older loop _ _ hunwind hloop hitem htarget =>
      -- one round less is to come
      obtain ⟨newer, rfl, -⟩ := Trap.unwind?_eq_some_iff.1 hunwind
      obtain ⟨hstart, hlabels⟩ := htraps trap (by simp) loop hloop
      have hbody : p.weight position' + 1 < p.weight (trap.origin loop) :=
        Program.weight_lt hstart (hlabels _ (by simp) position' htarget)
      have htrap : trap.weights p =
          (loop.trapAt trap.resumeAt).weights p + {p.weight (trap.origin loop) - 1} := by
        have hrounds : loop.items.length - (loop.next + 1) + 1 = loop.items.length - loop.next := by
          have := (List.getElem?_eq_some_iff.1 hitem).1
          omega
        rw [Trap.weights_of_loop p hloop, Loop.weights_trapAt, hrounds, Multiset.replicate_succ,
          ← Multiset.singleton_add, add_comm]
        rfl
      refine controlWeight_lt_of_return htrap (congrArg _ (Trap.allWeights_cons p _ _)) ?_
      simp only [Multiset.mem_singleton, forall_eq, exists_eq_left]
      omega
  | @leave _ trap _ loop _ hunwind hloop htarget =>
      obtain ⟨newer, rfl, -⟩ := Trap.unwind?_eq_some_iff.1 hunwind
      obtain ⟨hstart, hlabels⟩ := htraps trap (by simp) loop hloop
      have hescape : p.weight position' + 1 < p.weight (trap.origin loop) :=
        Program.weight_lt hstart (hlabels _ (by simp) position' htarget)
      have hposition : controlWeight p position' traps' =
          {p.weight position'} + (0 + Trap.allWeights p traps') := by
        rw [controlWeight, zero_add]
      refine controlWeight_lt_of_return
        ((Trap.weights_of_loop p hloop).trans (zero_add _).symm) hposition ?_
      intro b hb
      rw [Multiset.mem_singleton.1 hb]
      refine ⟨_, Multiset.mem_replicate.2 ⟨Nat.succ_ne_zero _, rfl⟩, ?_⟩
      omega

end Turn

namespace Machine

variable {σ : Type} [Sink σ] {p : Program}

/-- A machine in a program that leads forward stops, whatever is in memory. -/
theorem exists_stop
    (hforward : p.LabelsForward)
    (m : Machine σ)
    (hjumped : m.jumped = false)
    (htraps : ∀ trap ∈ m.traps, trap.IsForward p) :
    ∃ n, (m.run p none n).isRunning = false := by
  have hwellFounded :
      WellFounded (Multiset.IsDershowitzMannaLT : Multiset Nat → Multiset Nat → Prop) :=
    Multiset.wellFounded_isDershowitzMannaLT
  induction hweight : controlWeight p m.position m.traps using hwellFounded.induction
    generalizing m with
  | _ weight ih =>
      cases hstep : m.step p none with
      | running m' =>
          obtain ⟨a, haction, hturn, hjumped'⟩ := turn_of_step hjumped hstep
          subst hweight
          obtain ⟨n, hn⟩ :=
            ih _ (hturn.controlWeight_lt hforward haction htraps) m' hjumped'
              (hturn.isForward hforward haction htraps) rfl
          refine ⟨n + 1, ?_⟩
          rw [run_succ_of_step hstep]
          exact hn
      | halted status m' | failed e m' =>
          refine ⟨1, ?_⟩
          rw [run_one, hstep]
          rfl

/-- A program whose jumps and loops lead forward, if anywhere, stops without a limit: it halts with
a status or fails. Traps may return anywhere, and loops may go over vectors of any length. -/
theorem exists_stop_of_labelsForward
    (hforward : p.LabelsForward)
    (out : σ) :
    ∃ n m,
      (∃ status, (start p out).run p none n = .halted status m) ∨
      ∃ e, (start p out).run p none n = .failed e m := by
  obtain ⟨n, hn⟩ := exists_stop hforward (start p out) rfl (by simp [start])
  cases hrun : (start p out).run p none n with
  | running m =>
      rw [hrun] at hn
      cases hn
  | halted status m =>
      exact ⟨n, m, Or.inl ⟨status, hrun⟩⟩
  | failed e m =>
      exact ⟨n, m, Or.inr ⟨e, hrun⟩⟩

/-- A loop in a loop, run through a second time by a return to a trap before it. -/
def nestedLoops : List Command :=
  List.map (fun (name, args) => { name, args, location := { file := "main", line := 1 } }) [
    ("set_trap", [.ident "again"]),
    ("each", [.ident "x", .vector [.int 1, .int 2], .ident "outer", .ident "end"]),
    ("label", [.ident "outer"]),
    ("each", [.ident "y", .vector [.int 3], .ident "inner", .ident "next"]),
    ("label", [.ident "inner"]),
    ("return_to_trap", [.ident "each"]),
    ("label", [.ident "next"]),
    ("return_to_trap", [.ident "each"]),
    ("label", [.ident "end"]),
    ("return_to_trap", [.ident "again"])]

/-- The nested loops pass the check and lead forward, so they stop, although their traps return to
earlier commands. -/
theorem exists_stop_of_nestedLoops :
    ∃ p,
      Program.ofCommands nestedLoops = .ok p ∧
      p.LabelsForward ∧
      ∃ n m,
        (∃ status, (start p (#[] : Array String)).run p none n = .halted status m) ∨
        ∃ e, (start p (#[] : Array String)).run p none n = .failed e m := by
  have hforward :
      ((Program.ofCommands nestedLoops).toOption.map fun p => decide p.LabelsForward) =
        some true := by
    decide +kernel
  cases hp : Program.ofCommands nestedLoops with
  | error e =>
      rw [hp] at hforward
      cases hforward
  | ok p =>
      rw [hp] at hforward
      have hp' : p.LabelsForward := of_decide_eq_true (Option.some.inj hforward)
      exact ⟨p, rfl, hp', exists_stop_of_labelsForward hp' #[]⟩

end Machine
end Trapline
