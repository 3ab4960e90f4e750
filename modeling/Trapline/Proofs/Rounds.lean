import Mathlib.Tactic.Choose
import Trapline.Proofs.Control
import Trapline.Proofs.Run

/-!
# The rounds of a loop

A loop has no end that could be seen in the program. It goes on whenever a return meets the trap of
its current round, and the code in between may do anything, start other loops included. What it has
to leave alone is little: at the end of each round the trap of the round is the newest one of its
label, and the frame of the loop is the innermost one (`AtRoundEnd`). The trap has to be the one
that was set when the round was entered (`EndsRound`). Traps with equal contents cannot be told
apart, but one that has been dropped leaves a stack that is not higher than before the loop.

`RoundStart p s loop k t m` follows the loop that starts at `s`: after `t` steps it has been asked
for its element `k`, and `m` is the machine then. A loop that has the element is in its body, and a
loop that has run out of elements has left for its escape label (`Arrives`).

Main statements:
* `step_of_each`, `step_of_roundEnd`: the two steps that ask a loop for an element.
* `Pending.of_run`: as long as the loop is not dropped, its trap is that of a round, and rounds
  never go back.
* `entersRound_iff`: the times at which a loop enters its body.
* `rounds_of_each`: the loop visits every element in order and once, and then leaves with the frames
  and the traps from before.
-/

namespace Trapline

namespace Memory

/-- The element of a round can be bound, and is what its name then stands for. -/
theorem exists_setOrLocal
    (m : Memory)
    (name : Name)
    {v : Value}
    (hv : v.isIdent = false) :
    ∃ memory,
      m.setOrLocal name v = .ok memory ∧
      memory.depth = m.depth ∧
      memory.get name = .ok v := by
  cases hcontains : m.contains name with
  | true =>
      refine ⟨m.rebind name v, ?_, depth_rebind m name v, ?_⟩
      · simp [setOrLocal, storing, hv, hcontains]
      · simp [get, get?_rebind, hcontains]
  | false =>
      refine ⟨m.bindInnermost name v, ?_, depth_bindInnermost m name v, ?_⟩
      · simp [setOrLocal, storing, hv, hcontains]
      · simp [get, get?_bindInnermost]

theorem exists_popFrame
    {m : Memory}
    (h : 1 < m.depth) :
    ∃ memory, m.popFrame = .ok memory ∧ memory.depth + 1 = m.depth := by
  cases m with
  | root frame =>
      simp [depth] at h
  | scope frame outer =>
      exact ⟨outer, rfl, rfl⟩

end Memory

namespace Loop

/-- The trap of a round of a loop that was started at a position. The place to return to moves on
by one with each round. -/
def roundTrap (loop : Loop) (position k : Nat) : Trap :=
  trapAt { loop with next := k } (position + k)

theorem roundTrap_injective
    {loop : Loop}
    {position k k' : Nat}
    (h : loop.roundTrap position k = loop.roundTrap position k') :
    k = k' := by
  have hresume : position + k + 1 = position + k' + 1 := congrArg Trap.resumeAt h
  omega

/-- The trap that follows the trap of a round is that of the next round. -/
theorem trapAt_of_roundTrap
    {loop rest : Loop}
    {position k : Nat}
    (h : (loop.roundTrap position k).loop = some rest) :
    rest.trapAt (loop.roundTrap position k).resumeAt = loop.roundTrap position (k + 1) := by
  cases h
  rfl

end Loop

namespace Machine

variable {σ : Type}

/-- The trap of a round is pending, right on top of the traps from before the loop. -/
def Pending (s : Machine σ) (loop : Loop) (k : Nat) (m : Machine σ) : Prop :=
  ∃ newer, m.traps = newer ++ loop.roundTrap s.position k :: s.traps

/-- The end of a round: a return that meets the trap of the round, with the frame of the loop on
top of those from before. -/
structure AtRoundEnd (p : Program) (s : Machine σ) (loop : Loop) (k : Nat) (r : Machine σ) :
    Prop where
  action : p.action? r.position = some (.returnToTrap Trap.loopLabel)
  depth : r.memory.depth = s.memory.depth + 1
  traps :
    ∃ newer,
      r.traps = newer ++ loop.roundTrap s.position k :: s.traps ∧
      ∀ t ∈ newer, t.label ≠ Trap.loopLabel

/-- A machine right after a loop has bound an element and jumped to its body. -/
structure InBody (s : Machine σ) (loop : Loop) (bodyAt k : Nat) (v : Value) (m : Machine σ) :
    Prop where
  position : m.position = bodyAt
  depth : m.memory.depth = s.memory.depth + 1
  item : m.memory.get loop.item = .ok v
  traps : m.traps = loop.roundTrap s.position k :: s.traps
  jumped : m.jumped = false

/-- A machine right after a loop has dropped its frame and jumped to its escape label. -/
structure HasLeft (s : Machine σ) (escapeAt : Nat) (memory : Memory) (m : Machine σ) :
    Prop where
  position : m.position = escapeAt
  depth : m.memory.depth = s.memory.depth
  popFrame : memory.popFrame = .ok m.memory
  traps : m.traps = s.traps
  jumped : m.jumped = false

/-- Where a loop goes that is asked for an element. -/
def Arrives (s : Machine σ) (loop : Loop) (bodyAt escapeAt k : Nat) (memory : Memory)
    (m : Machine σ) : Prop :=
  (∃ v, loop.items[k]? = some v ∧ InBody s loop bodyAt k v m) ∨
  (loop.items[k]? = none ∧ HasLeft s escapeAt memory m)

/-- The loop that starts at a machine is asked for the given element after the given number of
steps. A round ends where its end is reached first. -/
inductive RoundStart [Sink σ] (p : Program) (s : Machine σ) (loop : Loop) :
    Nat → Nat → Machine σ → Prop
  | first
      {m : Machine σ}
      (hstep : s.step p none = .running m) :
      RoundStart p s loop 0 1 m
  | next
      {k t j : Nat}
      {m r m' : Machine σ}
      (hstart : RoundStart p s loop k t m)
      (hrun : m.run p none j = .running r)
      (hend : AtRoundEnd p s loop k r)
      (hfirst : ∀ i < j, ∀ q, m.run p none i = .running q → ¬ AtRoundEnd p s loop k q)
      (hstep : r.step p none = .running m') :
      RoundStart p s loop (k + 1) (t + j + 1) m'

/-- From the entry of a round, steps lead to its end, and all the way the trap that was set at the
entry is kept: the traps stay higher than they were before the loop. -/
def EndsRound [Sink σ] (p : Program) (s : Machine σ) (loop : Loop) (k : Nat) (m : Machine σ) :
    Prop :=
  ∃ j r,
    m.run p none j = .running r ∧
    AtRoundEnd p s loop k r ∧
    ∀ i ≤ j, ∀ q, m.run p none i = .running q → s.traps.length < q.traps.length

/-- The step that ends at a time starts a round: the trap of the round lies on the traps from
before the loop, and it was not pending there before the step. -/
def EntersRound [Sink σ] (p : Program) (s : Machine σ) (loop : Loop) (k t : Nat) : Prop :=
  ∃ i r m,
    t = i + 1 ∧
    s.run p none i = .running r ∧
    r.step p none = .running m ∧
    m.traps = loop.roundTrap s.position k :: s.traps ∧
    ¬ Pending s loop k r

variable {p : Program} {s : Machine σ} {loop : Loop} {bodyAt escapeAt : Nat}

theorem AtRoundEnd.pending
    {k : Nat}
    {r : Machine σ}
    (h : AtRoundEnd p s loop k r) :
    Pending s loop k r := by
  obtain ⟨newer, htraps, -⟩ := h.traps
  exact ⟨newer, htraps⟩

theorem pending_of_traps
    {k : Nat}
    {m : Machine σ}
    (h : m.traps = loop.roundTrap s.position k :: s.traps) :
    Pending s loop k m :=
  ⟨[], h⟩

theorem Pending.length_lt
    {k : Nat}
    {m : Machine σ}
    (h : Pending s loop k m) :
    s.traps.length < m.traps.length := by
  obtain ⟨newer, htraps⟩ := h
  rw [htraps, List.length_append, List.length_cons]
  omega

/-- At most one round is pending. -/
theorem Pending.unique
    {k k' : Nat}
    {m : Machine σ}
    (h : Pending s loop k m)
    (h' : Pending s loop k' m) :
    k = k' := by
  obtain ⟨newer, htraps⟩ := h
  obtain ⟨newer', htraps'⟩ := h'
  have hsame :
      loop.roundTrap s.position k :: s.traps = loop.roundTrap s.position k' :: s.traps :=
    List.append_inj_right' (htraps.symm.trans htraps') (by simp)
  exact Loop.roundTrap_injective (List.cons.inj hsame).1

/-- A loop that is asked for an element binds it and jumps to the body, or drops its frame and
jumps to its escape label. -/
theorem arrives_of_nextRound
    (loop : Loop)
    {m : Machine σ}
    {k : Nat}
    (hitems : ∀ v ∈ loop.items, v.isIdent = false)
    (hbody : p.label? loop.body = some bodyAt)
    (hescape : p.label? loop.escape = some escapeAt)
    (hposition : m.position = s.position + k)
    (hdepth : m.memory.depth = s.memory.depth + 1)
    (htraps : m.traps = s.traps) :
    ∃ m',
      m.nextRound p { loop with next := k } = .running m' ∧
      Arrives s loop bodyAt escapeAt k m.memory m'.advance := by
  cases hitem : loop.items[k]? with
  | some v =>
      obtain ⟨memory, hset, hdepth', hget⟩ :=
        m.memory.exists_setOrLocal loop.item (hitems v (List.mem_of_getElem? hitem))
      refine ⟨{ m with
        memory, traps := loop.roundTrap s.position k :: s.traps, position := bodyAt,
        jumped := true }, ?_, ?_⟩
      · simp [nextRound, hitem, hset, jump, hbody, setTrap, Loop.roundTrap, Loop.trapAt,
          hposition, htraps]
      · rw [advance_of_jumped rfl]
        exact Or.inl ⟨v, hitem, rfl, hdepth'.trans hdepth, hget, rfl, rfl⟩
  | none =>
      have hframes : 1 < m.memory.depth := by
        have := s.memory.one_le_depth
        omega
      obtain ⟨memory, hpop, hdepth'⟩ := Memory.exists_popFrame hframes
      refine ⟨{ m with memory, position := escapeAt, jumped := true }, ?_, ?_⟩
      · simp [nextRound, hitem, hpop, jump, hescape]
      · have hdepth'' : memory.depth = s.memory.depth := by omega
        rw [advance_of_jumped rfl]
        exact Or.inr ⟨hitem, rfl, hdepth'', hpop, htraps, rfl⟩

variable [Sink σ]

/-- Without a limit, a step executes the action at the position. -/
theorem step_of_action
    {m : Machine σ}
    {a : Action}
    (h : p.action? m.position = some a) :
    ∃ location, m.step p none = finish location (m.count.exec p a) := by
  obtain ⟨statement, hget, rfl⟩ := Option.map_eq_some_iff.1 h
  exact ⟨statement.location, step_eq_exec hget rfl⟩

/-- The start of a loop over a vector asks it for its first element. -/
theorem step_of_each
    {item body escape : Name}
    {target : Value}
    {items : List Value}
    (haction : p.action? s.position = some (.each item target body escape))
    (htarget : s.memory.deref target = .ok (.vector items))
    (hitems : ∀ v ∈ items, v.isIdent = false)
    (hbody : p.label? body = some bodyAt)
    (hescape : p.label? escape = some escapeAt) :
    ∃ m,
      s.step p none = .running m ∧
      Arrives s { item, items, body, escape, next := 0 } bodyAt escapeAt 0
        s.memory.pushFrame m := by
  obtain ⟨location, hstep⟩ := step_of_action haction
  obtain ⟨m, hround, harrives⟩ :=
    arrives_of_nextRound { item, items, body, escape, next := 0 } (s := s) (k := 0)
      (m := { s.count with memory := s.memory.pushFrame }) hitems hbody hescape rfl rfl rfl
  refine ⟨m.advance, ?_, harrives⟩
  have hexec : s.count.exec p (.each item target body escape) = .running m := by
    have hcount : s.count.memory.deref target = .ok (.vector items) := htarget
    simp only [exec, startLoop, hcount]
    exact hround
  rw [hstep, hexec, finish]

/-- The end of a round asks the loop for the element after that of the round. -/
theorem step_of_roundEnd
    {k : Nat}
    {r : Machine σ}
    (hitems : ∀ v ∈ loop.items, v.isIdent = false)
    (hbody : p.label? loop.body = some bodyAt)
    (hescape : p.label? loop.escape = some escapeAt)
    (hend : AtRoundEnd p s loop k r) :
    ∃ m,
      r.step p none = .running m ∧
      Arrives s loop bodyAt escapeAt (k + 1) r.memory m := by
  obtain ⟨location, hstep⟩ := step_of_action hend.action
  obtain ⟨newer, htraps, hnewer⟩ := hend.traps
  have hunwind :
      Trap.unwind? Trap.loopLabel r.traps =
        some (loop.roundTrap s.position k, s.traps) :=
    Trap.unwind?_eq_some_iff.2 ⟨newer, htraps, rfl, hnewer⟩
  obtain ⟨m, hround, harrives⟩ :=
    arrives_of_nextRound loop (s := s) (k := k + 1)
      (m := { r.count with
        traps := s.traps, position := s.position + (k + 1), jumped := true })
      hitems hbody hescape rfl hend.depth rfl
  refine ⟨m.advance, ?_, harrives⟩
  have hexec : r.count.exec p (.returnToTrap Trap.loopLabel) = .running m := by
    have hcount :
        Trap.unwind? Trap.loopLabel r.count.traps =
          some (loop.roundTrap s.position k, s.traps) := hunwind
    simp only [exec, returnToTrap, hcount]
    exact hround
  rw [hstep, hexec, finish]

theorem RoundStart.run
    {k t : Nat}
    {m : Machine σ}
    (h : RoundStart p s loop k t m) :
    s.run p none t = .running m := by
  induction h with
  | first hstep =>
      rw [run_one, hstep]
  | next _ hrun _ _ hstep ih =>
      have hend := (run_add ih _).trans hrun
      rw [run_succ hend, hstep]

/-- A round comes to its end for the first time in one place only. -/
theorem first_roundEnd_unique
    {k j j' : Nat}
    {m r r' : Machine σ}
    (hrun : m.run p none j = .running r)
    (hend : AtRoundEnd p s loop k r)
    (hfirst : ∀ i < j, ∀ q, m.run p none i = .running q → ¬ AtRoundEnd p s loop k q)
    (hrun' : m.run p none j' = .running r')
    (hend' : AtRoundEnd p s loop k r')
    (hfirst' : ∀ i < j', ∀ q, m.run p none i = .running q → ¬ AtRoundEnd p s loop k q) :
    j = j' ∧ r = r' := by
  obtain rfl : j = j' := by
    rcases Nat.lt_trichotomy j j' with hlt | heq | hgt
    · exact absurd hend (hfirst' j hlt r hrun)
    · exact heq
    · exact absurd hend' (hfirst j' hgt r' hrun')
  exact ⟨rfl, Progress.running.inj (hrun.symm.trans hrun')⟩

/-- A loop is asked for each element at one time only. -/
theorem RoundStart.unique
    {k t t' : Nat}
    {m m' : Machine σ}
    (h : RoundStart p s loop k t m)
    (h' : RoundStart p s loop k t' m') :
    t = t' ∧ m = m' := by
  induction h generalizing t' m' with
  | first hstep =>
      cases h' with
      | first hstep' =>
          exact ⟨rfl, Progress.running.inj (hstep.symm.trans hstep')⟩
  | @next k t j m r m₁ _ hrun hend hfirst hstep ih =>
      cases h' with
      | @next _ t₂ j₂ m₂ r₂ _ hstart₂ hrun₂ hend₂ hfirst₂ hstep₂ =>
          obtain ⟨rfl, rfl⟩ := ih hstart₂
          obtain ⟨rfl, rfl⟩ :=
            first_roundEnd_unique hrun hend hfirst hrun₂ hend₂ hfirst₂
          exact ⟨rfl, Progress.running.inj (hstep.symm.trans hstep₂)⟩

/-- A round that reaches its end reaches it for a first time. -/
theorem exists_first_roundEnd
    {k j : Nat}
    {m r : Machine σ}
    (hrun : m.run p none j = .running r)
    (hend : AtRoundEnd p s loop k r) :
    ∃ j' r',
      j' ≤ j ∧
      m.run p none j' = .running r' ∧
      AtRoundEnd p s loop k r' ∧
      ∀ i < j', ∀ q, m.run p none i = .running q → ¬ AtRoundEnd p s loop k q := by
  induction j using Nat.strong_induction_on generalizing r with
  | _ j ih =>
      by_cases hearlier :
          ∃ i < j, ∃ q, m.run p none i = .running q ∧ AtRoundEnd p s loop k q
      · obtain ⟨i, hi, q, hq, hqend⟩ := hearlier
        obtain ⟨j', r', hj', hfirst⟩ := ih i hi hq hqend
        exact ⟨j', r', Nat.le_trans hj' (Nat.le_of_lt hi), hfirst⟩
      · refine ⟨j, r, Nat.le_refl j, hrun, hend, ?_⟩
        intro i hi q hq hqend
        exact hearlier ⟨i, hi, q, hq, hqend⟩

theorem EndsRound.exists_roundEnd
    {k : Nat}
    {m : Machine σ}
    (h : EndsRound p s loop k m) :
    ∃ j r, m.run p none j = .running r ∧ AtRoundEnd p s loop k r := by
  obtain ⟨j, r, hrun, hend, -⟩ := h
  exact ⟨j, r, hrun, hend⟩

/-- Until a round comes to its end for the first time, the traps stay higher than they were before
the loop. -/
theorem EndsRound.high
    {k j : Nat}
    {m : Machine σ}
    (h : EndsRound p s loop k m)
    (hfirst : ∀ i < j, ∀ q, m.run p none i = .running q → ¬ AtRoundEnd p s loop k q) :
    ∀ i ≤ j, ∀ q, m.run p none i = .running q → s.traps.length < q.traps.length := by
  obtain ⟨j', r, hrun, hend, hhigh⟩ := h
  have hj : j ≤ j' := by
    by_contra hlate
    exact hfirst j' (Nat.lt_of_not_le hlate) r hrun hend
  intro i hi
  exact hhigh i (Nat.le_trans hi hj)

/-- As long as the loop is not dropped its trap is that of a round, and rounds never go back. -/
theorem Pending.of_run
    {k n : Nat}
    {m r : Machine σ}
    (hpending : Pending s loop k m)
    (hjumped : m.jumped = false)
    (hrun : m.run p none n = .running r)
    (hhigh : ∀ i ≤ n, ∀ q, m.run p none i = .running q → s.traps.length < q.traps.length) :
    r.jumped = false ∧ ∃ k', k ≤ k' ∧ Pending s loop k' r := by
  induction n generalizing r with
  | zero =>
      cases hrun
      exact ⟨hjumped, k, Nat.le_refl k, hpending⟩
  | succ n ih =>
      obtain ⟨q, hq, hlast⟩ := running_of_le (Nat.le_add_right n 1) hrun
      rw [Nat.add_sub_cancel_left, run_one] at hlast
      obtain ⟨hqjumped, k', hk', newer, htraps⟩ :=
        ih hq fun i hi => hhigh i (Nat.le_succ_of_le hi)
      obtain ⟨a, -, hturn, hrjumped⟩ := turn_of_step hqjumped hlast
      rw [htraps] at hturn
      obtain ⟨newer', trap, htraps', hsame | ⟨rest, hrest, hnext⟩⟩ :=
        hturn.pending (hhigh (n + 1) (Nat.le_refl _) r hrun)
      · subst hsame
        exact ⟨hrjumped, k', hk', newer', htraps'⟩
      · -- the loop has been asked for its next element
        rw [Loop.trapAt_of_roundTrap hrest] at hnext
        subst hnext
        exact ⟨hrjumped, k' + 1, Nat.le_succ_of_le hk', newer', htraps'⟩

/-- Within a round that does not drop the loop the trap of the round is pending all the time. -/
theorem Pending.within
    {k i j : Nat}
    {m q r : Machine σ}
    (hpending : Pending s loop k m)
    (hjumped : m.jumped = false)
    (hrun : m.run p none j = .running r)
    (hend : Pending s loop k r)
    (hhigh : ∀ i ≤ j, ∀ q, m.run p none i = .running q → s.traps.length < q.traps.length)
    (hij : i ≤ j)
    (hq : m.run p none i = .running q) :
    Pending s loop k q := by
  obtain ⟨hqjumped, k', hk', hqpending⟩ :=
    hpending.of_run hjumped hq fun a ha => hhigh a (Nat.le_trans ha hij)
  obtain ⟨q', hq', hrest⟩ := running_of_le hij hrun
  obtain rfl := Progress.running.inj (hq.symm.trans hq')
  obtain ⟨-, k'', hk'', hrpending⟩ := hqpending.of_run hqjumped hrest (by
    intro a ha x hx
    exact hhigh (i + a) (by omega) x ((run_add hq a).trans hx))
  -- the round at the end is the one at the start, so no other one came in between
  have hback : k'' = k := hrpending.unique hend
  have hsame : k' = k := by omega
  exact hsame ▸ hqpending

theorem RoundStart.of_zero
    {t : Nat}
    {m : Machine σ}
    (h : RoundStart p s loop 0 t m) :
    t = 1 ∧ s.step p none = .running m := by
  cases h with
  | first hstep =>
      exact ⟨rfl, hstep⟩

theorem RoundStart.of_succ
    {k t' : Nat}
    {m' : Machine σ}
    (h : RoundStart p s loop (k + 1) t' m') :
    ∃ t m j r,
      RoundStart p s loop k t m ∧
      t' = t + j + 1 ∧
      m.run p none j = .running r ∧
      AtRoundEnd p s loop k r ∧
      (∀ i < j, ∀ q, m.run p none i = .running q → ¬ AtRoundEnd p s loop k q) ∧
      r.step p none = .running m' := by
  cases h with
  | next hstart hrun hend hfirst hstep =>
      exact ⟨_, _, _, _, hstart, rfl, hrun, hend, hfirst, hstep⟩

omit [Sink σ] in
theorem Arrives.inBody
    {k : Nat}
    {memory : Memory}
    {m : Machine σ}
    (h : Arrives s loop bodyAt escapeAt k memory m)
    (hk : k < loop.items.length) :
    InBody s loop bodyAt k loop.items[k] m := by
  rcases h with ⟨v, hv, hbody⟩ | ⟨hnone, -⟩
  · rw [List.getElem?_eq_getElem hk] at hv
    cases hv
    exact hbody
  · rw [List.getElem?_eq_none_iff] at hnone
    omega

omit [Sink σ] in
theorem Arrives.hasLeft
    {k : Nat}
    {memory : Memory}
    {m : Machine σ}
    (h : Arrives s loop bodyAt escapeAt k memory m)
    (hk : loop.items.length ≤ k) :
    HasLeft s escapeAt memory m := by
  rcases h with ⟨v, hv, -⟩ | ⟨-, hleft⟩
  · rw [List.getElem?_eq_none hk] at hv
    cases hv
  · exact hleft

section Schedule

/-! The times at which a loop is asked for its elements, and the machines then. -/

variable {n : Nat} {entry : Nat → Nat} {machine : Nat → Machine σ}
  (hstart : ∀ k ≤ n, RoundStart p s loop k (entry k) (machine k))

include hstart

/-- A round lasts from its entry to the entry after it. -/
theorem round_of_schedule
    {k : Nat}
    (hk : k < n) :
    ∃ j r,
      entry (k + 1) = entry k + j + 1 ∧
      (machine k).run p none j = .running r ∧
      AtRoundEnd p s loop k r ∧
      (∀ i < j, ∀ q, (machine k).run p none i = .running q → ¬ AtRoundEnd p s loop k q) ∧
      r.step p none = .running (machine (k + 1)) := by
  obtain ⟨t, m, j, r, hprevious, ht, hrun, hend, hfirst, hstep⟩ := (hstart (k + 1) hk).of_succ
  obtain ⟨rfl, rfl⟩ := hprevious.unique (hstart k (Nat.le_of_lt hk))
  exact ⟨j, r, ht, hrun, hend, hfirst, hstep⟩

theorem entry_lt
    {k : Nat}
    (hk : k < n) :
    entry k < entry (k + 1) := by
  obtain ⟨j, r, hentry, -⟩ := round_of_schedule hstart hk
  omega

omit hstart [Sink σ] in
/-- A time between the first entry and the last one lies in a round. -/
theorem exists_round
    {t : Nat}
    (hfirst : entry 0 ≤ t)
    (hlast : t < entry n) :
    ∃ k < n, entry k ≤ t ∧ t < entry (k + 1) := by
  induction n with
  | zero =>
      omega
  | succ n ih =>
      by_cases ht : t < entry n
      · obtain ⟨k, hk, hround⟩ := ih ht
        exact ⟨k, Nat.lt_succ_of_lt hk, hround⟩
      · exact ⟨n, Nat.lt_succ_self n, Nat.le_of_not_lt ht, hlast⟩

/-- The end of a round, and where the loop goes from there. -/
theorem arrives_of_schedule
    (hitems : ∀ v ∈ loop.items, v.isIdent = false)
    (hbody : p.label? loop.body = some bodyAt)
    (hescape : p.label? loop.escape = some escapeAt)
    {k : Nat}
    (hk : k < n) :
    ∃ r,
      s.run p none (entry (k + 1) - 1) = .running r ∧
      AtRoundEnd p s loop k r ∧
      Arrives s loop bodyAt escapeAt (k + 1) r.memory (machine (k + 1)) := by
  obtain ⟨j, r, hentry, hrun, hend, -, hstep⟩ := round_of_schedule hstart hk
  obtain ⟨m, hstep', harrives⟩ := step_of_roundEnd hitems hbody hescape hend
  obtain rfl := Progress.running.inj (hstep.symm.trans hstep')
  refine ⟨r, ?_, hend, harrives⟩
  rw [hentry, Nat.add_sub_cancel, run_add (hstart k (Nat.le_of_lt hk)).run]
  exact hrun

section Arrival

variable (hitems : ∀ v ∈ loop.items, v.isIdent = false)
  (hbody : p.label? loop.body = some bodyAt)
  (hescape : p.label? loop.escape = some escapeAt)
  {memory : Memory}
  (hzero : Arrives s loop bodyAt escapeAt 0 memory (machine 0))

include hitems hbody hescape hzero

/-- A loop that is asked for an element which it has goes to its body. -/
theorem inBody_of_schedule
    {k : Nat}
    (hk : k < n)
    (hlength : k < loop.items.length) :
    InBody s loop bodyAt k loop.items[k] (machine k) := by
  cases k with
  | zero =>
      exact hzero.inBody hlength
  | succ k =>
      obtain ⟨r, -, -, harrives⟩ :=
        arrives_of_schedule hstart hitems hbody hescape (Nat.lt_of_succ_lt hk)
      exact harrives.inBody hlength

/-- A loop that is asked for an element which it has not leaves, and drops its frame. -/
theorem hasLeft_of_schedule
    (hle : loop.items.length ≤ n) :
    ∃ memory',
      HasLeft s escapeAt memory' (machine n) ∧
      (n = 0 → memory' = memory) ∧
      (n ≠ 0 → ∃ r, s.run p none (entry n - 1) = .running r ∧ memory' = r.memory) := by
  cases n with
  | zero =>
      exact ⟨memory, hzero.hasLeft hle, fun _ => rfl, fun hne => absurd rfl hne⟩
  | succ n =>
      obtain ⟨r, hr, -, harrives⟩ :=
        arrives_of_schedule hstart hitems hbody hescape (Nat.lt_succ_self n)
      exact ⟨r.memory, harrives.hasLeft hle, fun hn => absurd hn (Nat.succ_ne_zero n),
        fun _ => ⟨r, hr, rfl⟩⟩

end Arrival

/-- From its entry up to the entry after it, the trap of a round is pending all the time. -/
theorem pending_of_schedule
    (htraps : ∀ k < n, (machine k).traps = loop.roundTrap s.position k :: s.traps)
    (hjumped : ∀ k < n, (machine k).jumped = false)
    (hends : ∀ k < n, EndsRound p s loop k (machine k))
    {k t : Nat}
    {q : Machine σ}
    (hk : k < n)
    (hentry : entry k ≤ t)
    (hnext : t < entry (k + 1))
    (hq : s.run p none t = .running q) :
    Pending s loop k q := by
  obtain ⟨j, r, hround, hrun, hend, hfirst, -⟩ := round_of_schedule hstart hk
  have hmachine := (hstart k (Nat.le_of_lt hk)).run
  refine (pending_of_traps (htraps k hk)).within (hjumped k hk) hrun hend.pending
    ((hends k hk).high hfirst) (i := t - entry k) (by omega) ?_
  rw [← run_add hmachine, Nat.add_sub_cancel' hentry]
  exact hq

/-- A loop enters its body at the times of the schedule, and at no other until it leaves. -/
theorem entersRound_iff
    (htraps : ∀ k < n, (machine k).traps = loop.roundTrap s.position k :: s.traps)
    (hjumped : ∀ k < n, (machine k).jumped = false)
    (hleft : (machine n).traps = s.traps)
    (hends : ∀ k < n, EndsRound p s loop k (machine k))
    {k t : Nat}
    (ht : t ≤ entry n) :
    EntersRound p s loop k t ↔ k < n ∧ t = entry k := by
  -- the round in which an entry falls is known from the traps at the next entry
  have hround :
      ∀ i ≤ n, (machine i).traps = loop.roundTrap s.position k :: s.traps → i = k ∧ i < n := by
    intro i hi hi'
    rcases Nat.lt_or_eq_of_le hi with hlt | rfl
    · exact ⟨(pending_of_traps (htraps i hlt)).unique (pending_of_traps hi'), hlt⟩
    · rw [hleft] at hi'
      exact absurd (congrArg List.length hi') (by simp)
  constructor
  · rintro ⟨i, r, m, rfl, hr, hstep, hm, hnew⟩
    have hmrun : s.run p none (i + 1) = .running m := (run_succ hr).trans hstep
    obtain ⟨hzero, hzerostep⟩ := (hstart 0 (Nat.zero_le n)).of_zero
    rcases Nat.eq_zero_or_pos i with rfl | hpos
    · -- the start of the loop
      cases hr
      obtain rfl := Progress.running.inj (hstep.symm.trans hzerostep)
      obtain ⟨rfl, hn⟩ := hround 0 (Nat.zero_le n) hm
      exact ⟨hn, hzero.symm⟩
    · obtain ⟨c, hc, hcle, hclt⟩ := exists_round (Nat.le_trans hzero.le hpos) ht
      have hpending := pending_of_schedule hstart htraps hjumped hends hc hcle hclt hr
      rcases Nat.lt_or_eq_of_le hclt with hinside | hend
      · -- inside a round nothing is entered
        have hpending' :=
          pending_of_schedule hstart htraps hjumped hends hc (by omega) hinside hmrun
        obtain rfl := hpending'.unique (pending_of_traps hm)
        exact absurd hpending hnew
      · -- the end of a round
        have hnext := (hstart (c + 1) hc).run
        rw [← hend] at hnext
        obtain rfl := Progress.running.inj (hmrun.symm.trans hnext)
        obtain ⟨rfl, hn⟩ := hround (c + 1) hc hm
        exact ⟨hn, hend⟩
  · rintro ⟨hk, rfl⟩
    cases k with
    | zero =>
        obtain ⟨hzero, hzerostep⟩ := (hstart 0 (Nat.zero_le n)).of_zero
        refine ⟨0, s, machine 0, hzero, rfl, hzerostep, htraps 0 hk, ?_⟩
        intro hpending
        exact absurd hpending.length_lt (Nat.lt_irrefl _)
    | succ k =>
        obtain ⟨j, r, hentry, hrun, hend, -, hstep⟩ :=
          round_of_schedule hstart (Nat.lt_of_succ_lt hk)
        have hr := (run_add (hstart k (by omega)).run j).trans hrun
        refine ⟨entry k + j, r, machine (k + 1), hentry, hr, hstep, htraps (k + 1) hk, ?_⟩
        intro hpending
        have := hpending.unique hend.pending
        omega

end Schedule

/-- A loop is asked for all its elements and once more, if every round reaches its end. -/
theorem exists_roundStart
    {n k : Nat}
    {m₀ : Machine σ}
    (hitems : ∀ v ∈ loop.items, v.isIdent = false)
    (hbody : p.label? loop.body = some bodyAt)
    (hescape : p.label? loop.escape = some escapeAt)
    (hfirst : s.step p none = .running m₀)
    (hrounds :
      ∀ k < n, ∀ t m, RoundStart p s loop k t m →
        ∃ j r, m.run p none j = .running r ∧ AtRoundEnd p s loop k r)
    (hk : k ≤ n) :
    ∃ t m, RoundStart p s loop k t m := by
  induction k with
  | zero =>
      exact ⟨1, m₀, .first hfirst⟩
  | succ k ih =>
      obtain ⟨t, m, hstart⟩ := ih (Nat.le_of_succ_le hk)
      obtain ⟨j, r, hrun, hend⟩ := hrounds k hk t m hstart
      obtain ⟨j, r, -, hrun, hend, hearlier⟩ := exists_first_roundEnd hrun hend
      obtain ⟨m', hstep, -⟩ := step_of_roundEnd hitems hbody hescape hend
      exact ⟨t + j + 1, m', .next hstart hrun hend hearlier hstep⟩

/-- **The rounds of a loop.** A loop whose rounds all reach their end visits the elements that its
vector had when it started, each once and in order, and enters its body at no other time. It then
leaves for its escape label, with the frames and the traps from before. A round reaches its end with
the trap that was set when it was entered, and not with another one of the same contents. -/
theorem rounds_of_each
    {item body escape : Name}
    {target : Value}
    {items : List Value}
    (haction : p.action? s.position = some (.each item target body escape))
    (htarget : s.memory.deref target = .ok (.vector items))
    (hitems : ∀ v ∈ items, v.isIdent = false)
    (hbody : p.label? body = some bodyAt)
    (hescape : p.label? escape = some escapeAt)
    (hloop : loop = { item, items, body, escape, next := 0 })
    (hrounds :
      ∀ k < items.length, ∀ t m, RoundStart p s loop k t m → EndsRound p s loop k m) :
    ∃ entry : Nat → Nat,
      entry 0 = 1 ∧
      (∀ k v, items[k]? = some v →
        entry k < entry (k + 1) ∧
        (∃ m,
          s.run p none (entry k) = .running m ∧
          RoundStart p s loop k (entry k) m ∧
          InBody s loop bodyAt k v m) ∧
        ∃ r,
          s.run p none (entry (k + 1) - 1) = .running r ∧
          AtRoundEnd p s loop k r) ∧
      (∃ m memory,
        s.run p none (entry items.length) = .running m ∧
        RoundStart p s loop items.length (entry items.length) m ∧
        HasLeft s escapeAt memory m ∧
        (items = [] → memory = s.memory.pushFrame) ∧
        (items ≠ [] → ∃ r,
          s.run p none (entry items.length - 1) = .running r ∧ memory = r.memory)) ∧
      ∀ k, ∀ t ≤ entry items.length,
        EntersRound p s loop k t ↔ k < items.length ∧ t = entry k := by
  subst hloop
  obtain ⟨m₀, hfirst, harrives⟩ := step_of_each haction htarget hitems hbody hescape
  have hexists := fun k (hk : k ≤ items.length) =>
    exists_roundStart hitems hbody hescape hfirst
      (fun k hk t m h => (hrounds k hk t m h).exists_roundEnd) hk
  have : Nonempty (Machine σ) := ⟨s⟩
  choose! entry machine hstart using hexists
  obtain ⟨hzero, hzerostep⟩ := (hstart 0 (Nat.zero_le _)).of_zero
  obtain rfl : m₀ = machine 0 := Progress.running.inj (hfirst.symm.trans hzerostep)
  have hin := fun k (hk : k < items.length) =>
    inBody_of_schedule hstart hitems hbody hescape harrives hk hk
  obtain ⟨memory, hleft, hnone, hsome⟩ :=
    hasLeft_of_schedule hstart hitems hbody hescape harrives (Nat.le_refl _)
  have hlast := hstart items.length (Nat.le_refl _)
  refine ⟨entry, hzero, ?_, ⟨machine items.length, memory, hlast.run, hlast, hleft, ?_, ?_⟩, ?_⟩
  · intro k v hv
    obtain ⟨hk, rfl⟩ := List.getElem?_eq_some_iff.1 hv
    have hk' := hstart k (Nat.le_of_lt hk)
    obtain ⟨r, hr, hend, -⟩ := arrives_of_schedule hstart hitems hbody hescape hk
    exact ⟨entry_lt hstart hk, ⟨machine k, hk'.run, hk', hin k hk⟩, r, hr, hend⟩
  · intro hnil
    exact hnone (List.length_eq_zero_iff.2 hnil)
  · intro hne
    exact hsome fun hlength => hne (List.length_eq_zero_iff.1 hlength)
  · intro k t ht
    exact entersRound_iff hstart (fun k hk => (hin k hk).traps) (fun k hk => (hin k hk).jumped)
      hleft.traps (fun k hk => hrounds k hk _ _ (hstart k (Nat.le_of_lt hk))) ht

/-- A loop over a variable that its body appends to. -/
def growingLoop : Program := .ofCode #[
  { op := .each, args := [.ident "x", .ident "xs", .ident "body", .ident "end"],
    location := { file := "main", line := 1 }, accepted := by decide },
  { op := .label, args := [.ident "body"],
    location := { file := "main", line := 2 }, accepted := by decide },
  { op := .vecPush, args := [.ident "xs", .ident "x"],
    location := { file := "main", line := 3 }, accepted := by decide },
  { op := .returnToTrap, args := [.ident "each"],
    location := { file := "main", line := 4 }, accepted := by decide },
  { op := .label, args := [.ident "end"],
    location := { file := "main", line := 5 }, accepted := by decide }]

/-- The machine before the loop, with two elements in the variable. -/
def beforeGrowingLoop : Machine (Array String) :=
  { start growingLoop #[] with
    memory := Memory.empty.bindRoot "xs" (.vector [.int 1, .int 2]) }

/-- The loop over the two elements. -/
def growingRounds : Loop :=
  { item := "x", items := [.int 1, .int 2], body := "body", escape := "end", next := 0 }

/-- The loop is asked for an element after one step, after four and after seven. -/
theorem roundStart_of_growingLoop
    {k : Nat}
    (hk : k ≤ 2) :
    RoundStart growingLoop beforeGrowingLoop growingRounds k (3 * k + 1)
      (beforeGrowingLoop.run growingLoop none (3 * k + 1)).machine := by
  induction k with
  | zero =>
      exact .first rfl
  | succ k ih =>
      obtain rfl | rfl : k = 0 ∨ k = 1 := by omega
      all_goals
        refine .next (j := 2) (ih (by omega)) rfl ⟨rfl, rfl, [], rfl, by simp⟩ ?_ rfl
        intro i hi q hq hend
        obtain rfl | rfl : i = 0 ∨ i = 1 := by omega
        all_goals
          cases hq
          exact absurd hend.action (by decide)

theorem endsRound_of_growingLoop
    {k t : Nat}
    {m : Machine (Array String)}
    (hk : k < 2)
    (h : RoundStart growingLoop beforeGrowingLoop growingRounds k t m) :
    EndsRound growingLoop beforeGrowingLoop growingRounds k m := by
  obtain ⟨-, rfl⟩ := h.unique (roundStart_of_growingLoop (Nat.le_of_lt hk))
  obtain rfl | rfl : k = 0 ∨ k = 1 := by omega
  all_goals
    refine ⟨2, _, rfl, ⟨rfl, rfl, [], rfl, by simp⟩, ?_⟩
    intro i hi q hq
    obtain rfl | rfl | rfl : i = 0 ∨ i = 1 ∨ i = 2 := by omega
    all_goals
      cases hq
      exact Nat.zero_lt_one

/-- The loop visits the two elements that were there when it started, after one step and after four.
It leaves after seven steps, and has entered its body at no other time. -/
theorem rounds_of_growingLoop :
    (∀ k v, [Value.int 1, .int 2][k]? = some v →
      ∃ m,
        beforeGrowingLoop.run growingLoop none (3 * k + 1) = .running m ∧
        m.position = 1 ∧
        m.memory.get "x" = .ok v) ∧
    (∃ m,
      beforeGrowingLoop.run growingLoop none 7 = .running m ∧
      m.position = 4 ∧
      m.memory.depth = 1 ∧
      m.traps = []) ∧
    ∀ k, ∀ t ≤ 7,
      EntersRound growingLoop beforeGrowingLoop growingRounds k t ↔ k < 2 ∧ t = 3 * k + 1 := by
  have haction :
      growingLoop.action? beforeGrowingLoop.position =
        some (.each "x" (.ident "xs") "body" "end") := rfl
  have htarget :
      beforeGrowingLoop.memory.deref (.ident "xs") = .ok (.vector [.int 1, .int 2]) := rfl
  have hitems : ∀ v ∈ [Value.int 1, .int 2], v.isIdent = false := by
    simp [Value.isIdent]
  have hbody : growingLoop.label? "body" = some 1 := rfl
  have hescape : growingLoop.label? "end" = some 4 := rfl
  have hloop :
      growingRounds =
        { item := "x", items := [.int 1, .int 2], body := "body", escape := "end", next := 0 } :=
    rfl
  obtain ⟨entry, hzero, hrounds, ⟨m, memory, hm, hlast, hleft, -⟩, hexact⟩ :=
    rounds_of_each haction htarget hitems hbody hescape hloop fun k hk t m =>
      endsRound_of_growingLoop hk
  have hentry : ∀ k < 2, entry k = 3 * k + 1 := by
    intro k hk
    obtain ⟨-, ⟨m, -, hstart, -⟩, -⟩ := hrounds k _ (List.getElem?_eq_getElem hk)
    exact (hstart.unique (roundStart_of_growingLoop (Nat.le_of_lt hk))).1
  have hend : entry 2 = 7 := (hlast.unique (roundStart_of_growingLoop (Nat.le_refl 2))).1
  refine ⟨?_, ⟨m, hend ▸ hm, hleft.position, hleft.depth, hleft.traps⟩, ?_⟩
  · intro k v hv
    obtain ⟨-, ⟨m, hm, -, hbody⟩, -⟩ := hrounds k v hv
    have hk : k < 2 := (List.getElem?_eq_some_iff.1 hv).1
    exact ⟨m, hentry k hk ▸ hm, hbody.position, hbody.item⟩
  · intro k t ht
    have hlength : [Value.int 1, .int 2].length = 2 := rfl
    rw [hlength] at hexact
    rw [hexact k t (hend ▸ ht)]
    refine and_congr_right fun hk => ?_
    rw [hentry k hk]

end Machine
end Trapline
