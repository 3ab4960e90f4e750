import Trapline.Proofs.Rounds

/-!
# Runs from point to point

A point of a run is all of a machine but the number of statements it has executed. One point leads
to another if every machine at the first comes to the second without a limit (`Leads`). This is
transitive, so a piece of a program is followed by a chain of points, one for each statement.

A loop is followed by an invariant on the number of the round, the memory and the output. Each round
has to lead from the body to a return that meets the trap of the round, and the loop then leads to
its escape label.

Main statements:
* `leads_of_update`, `leads_of_put`: the statements that move on to the next one.
* `leads_of_each`: the rule for loops.
-/

namespace Trapline

/-- A place in a run, together with all that the machine has there. -/
structure Point (σ : Type) where
  position : Nat
  memory : Memory
  traps : List Trap
  out : σ

namespace Machine

variable {σ : Type}

/-- The machine is between two statements, at the point. -/
structure IsAt (m : Machine σ) (q : Point σ) : Prop where
  position : m.position = q.position
  memory : m.memory = q.memory
  traps : m.traps = q.traps
  out : m.out = q.out
  jumped : m.jumped = false

variable [Sink σ] {p : Program}

/-- The machine comes to the point. -/
def Reaches (p : Program) (m : Machine σ) (q : Point σ) : Prop :=
  ∃ n m', m.run p none n = .running m' ∧ m'.IsAt q

/-- Every machine at the first point comes to the second. -/
def Leads (p : Program) (q r : Point σ) : Prop :=
  ∀ m : Machine σ, m.IsAt q → Reaches p m r

theorem Reaches.trans
    {m : Machine σ}
    {q r : Point σ}
    (h : Reaches p m q)
    (hqr : Leads p q r) :
    Reaches p m r := by
  obtain ⟨n, m', hrun, hq⟩ := h
  obtain ⟨n', m'', hrun', hr⟩ := hqr m' hq
  exact ⟨n + n', m'', (run_add hrun n').trans hrun', hr⟩

/-- Executing the action at the position is the first step of a run. -/
theorem Reaches.of_exec
    {m m' : Machine σ}
    {a : Action}
    {q : Point σ}
    (haction : p.action? m.position = some a)
    (hexec : m.count.exec p a = .running m')
    (h : Reaches p m'.advance q) :
    Reaches p m q := by
  obtain ⟨location, hstep⟩ := step_of_action haction
  rw [hexec, finish] at hstep
  obtain ⟨n, m'', hrun, hq⟩ := h
  exact ⟨n + 1, m'', (run_succ_of_step hstep n).trans hrun, hq⟩

theorem IsAt.reaches
    {m : Machine σ}
    {q : Point σ}
    (h : m.IsAt q) :
    Reaches p m q :=
  ⟨0, m, rfl, h⟩

theorem Leads.trans
    {q r r' : Point σ}
    (h : Leads p q r)
    (h' : Leads p r r') :
    Leads p q r' :=
  fun m hm => (h m hm).trans h'

instance : Trans (@Leads σ _ p) (@Leads σ _ p) (@Leads σ _ p) where
  trans := Leads.trans

omit [Sink σ] in
/-- A machine that has not jumped moves on to the next statement. -/
theorem isAt_advance
    {m : Machine σ}
    {q : Point σ}
    (hposition : m.position + 1 = q.position)
    (hmemory : m.memory = q.memory)
    (htraps : m.traps = q.traps)
    (hout : m.out = q.out)
    (hjumped : m.jumped = false) :
    m.advance.IsAt q := by
  rw [advance_of_not_jumped hjumped]
  exact ⟨hposition, hmemory, htraps, hout, hjumped⟩

/-- A statement that only works on the memory leads to the next one. -/
theorem leads_of_update
    {q : Point σ}
    {a : Action}
    {memory : Memory}
    (haction : p.action? q.position = some a)
    (hexec : ∀ m : Machine σ, m.exec p a = m.store (a.update m.memory))
    (hupdate : a.update q.memory = .ok memory) :
    Leads p q { q with position := q.position + 1, memory } := by
  intro m hm
  have hupdate' : a.update m.count.memory = .ok memory := hm.memory ▸ hupdate
  have hstore : m.count.exec p a = .running { m.count with memory } := by
    rw [hexec, hupdate', store]
  refine .of_exec (hm.position ▸ haction) hstore (IsAt.reaches ?_)
  exact isAt_advance (congrArg (· + 1) hm.position) rfl hm.traps hm.out hm.jumped

/-- A line that the sink takes leads to the next statement. -/
theorem leads_of_put
    {q : Point σ}
    {value v : Value}
    {out : σ}
    (haction : p.action? q.position = some (.put value))
    (hvalue : q.memory.deref value = .ok v)
    (hwrite : Sink.write q.out v.display = (.ok (), out)) :
    Leads p q { q with position := q.position + 1, out } := by
  intro m hm
  have hvalue' : m.count.memory.deref value = .ok v := hm.memory ▸ hvalue
  have hwrite' : Sink.write m.count.out v.display = (.ok (), out) := hm.out ▸ hwrite
  have hemit : m.count.exec p (.put value) = .running { m.count with out } := by
    rw [exec, hvalue', proceed, emit, hwrite']
  refine .of_exec (hm.position ▸ haction) hemit (IsAt.reaches ?_)
  exact isAt_advance (congrArg (· + 1) hm.position) hm.memory hm.traps rfl hm.jumped

section Loops

/-! A loop over a vector, with a memory and an output that it has at the end. -/

variable {q : Point σ} (loop : Loop) {bodyAt escapeAt : Nat} {memory' : Memory} {out' : σ}
  (Inv : Nat → Memory → σ → Prop)
  (hitems : ∀ v ∈ loop.items, v.isIdent = false)
  (hbody : p.label? loop.body = some bodyAt)
  (hescape : p.label? loop.escape = some escapeAt)
  (hround :
    ∀ k v memory memory₁ out,
      loop.items[k]? = some v →
      Inv k memory out →
      memory.setOrLocal loop.item v = .ok memory₁ →
      ∃ returnAt memory₂ out₂,
        p.action? returnAt = some (.returnToTrap Trap.loopLabel) ∧
        Inv (k + 1) memory₂ out₂ ∧
        Leads p
          ⟨bodyAt, memory₁, loop.roundTrap q.position k :: q.traps, out⟩
          ⟨returnAt, memory₂, loop.roundTrap q.position k :: q.traps, out₂⟩)
  (hleave :
    ∀ memory out, Inv loop.items.length memory out →
      memory.popFrame = .ok memory' ∧ out = out')

include hitems hbody hescape hround hleave

/-- A loop that is asked for an element goes through the rounds that are left. -/
theorem reaches_of_nextRound
    {k : Nat}
    {m : Machine σ}
    (hk : k ≤ loop.items.length)
    (hinv : Inv k m.memory m.out)
    (hposition : m.position = q.position + k)
    (htraps : m.traps = q.traps) :
    ∃ m',
      m.nextRound p { loop with next := k } = .running m' ∧
      Reaches p m'.advance ⟨escapeAt, memory', q.traps, out'⟩ := by
  -- the induction is on the number of elements that are left
  obtain ⟨left, hleft⟩ := Nat.exists_eq_add_of_le hk
  induction left generalizing k m with
  | zero =>
      obtain rfl : k = loop.items.length := hleft.symm
      obtain ⟨hpop, hout⟩ := hleave _ _ hinv
      refine ⟨{ m with memory := memory', position := escapeAt, jumped := true }, ?_, ?_⟩
      · simp [nextRound, hpop, jump, hescape]
      · rw [advance_of_jumped rfl]
        exact IsAt.reaches ⟨rfl, rfl, htraps, hout, rfl⟩
  | succ left ih =>
      have hlt : k < loop.items.length := by omega
      have hitem : loop.items[k]? = some loop.items[k] := List.getElem?_eq_getElem hlt
      obtain ⟨memory₁, hset, -, -⟩ :=
        m.memory.exists_setOrLocal loop.item (hitems _ (List.getElem_mem hlt))
      obtain ⟨returnAt, memory₂, out₂, hreturn, hinv₂, hleads⟩ :=
        hround k _ m.memory memory₁ m.out hitem hinv hset
      refine ⟨{ m with
        memory := memory₁, traps := loop.roundTrap q.position k :: q.traps, position := bodyAt,
        jumped := true }, ?_, ?_⟩
      · simp [nextRound, hitem, hset, jump, hbody, setTrap, Loop.roundTrap, Loop.trapAt,
          hposition, htraps]
      · rw [advance_of_jumped rfl]
        -- the return at the end of the round asks for the next element
        refine Reaches.trans (hleads _ ?_) ?_
        · exact ⟨rfl, rfl, rfl, rfl, rfl⟩
        intro r hr
        obtain ⟨m', hnext, hreaches⟩ :=
          ih (m := { r.count with
              traps := q.traps, position := q.position + (k + 1), jumped := true })
            hlt (hr.memory ▸ hr.out ▸ hinv₂) rfl rfl (by omega)
        have hunwind :
            Trap.unwind? Trap.loopLabel r.count.traps =
              some (loop.roundTrap q.position k, q.traps) :=
          Trap.unwind?_eq_some_iff.2 ⟨[], hr.traps, rfl, by simp⟩
        have hreturn' : p.action? r.position = some (.returnToTrap Trap.loopLabel) :=
          (congrArg p.action? hr.position).trans hreturn
        refine .of_exec hreturn' ?_ hreaches
        simp only [exec, returnToTrap, hunwind]
        exact hnext

/-- **The rule for loops.** If an invariant holds with a new frame on top, and each round takes it
on to the next number and comes to a return with the trap of the round on top, then the loop leads
to its escape label with what the invariant says after the last round. -/
theorem leads_of_each
    {target : Value}
    (haction : p.action? q.position = some (.each loop.item target loop.body loop.escape))
    (htarget : q.memory.deref target = .ok (.vector loop.items))
    (hstart : Inv 0 q.memory.pushFrame q.out) :
    Leads p q ⟨escapeAt, memory', q.traps, out'⟩ := by
  intro m hm
  obtain ⟨m', hround', hreaches⟩ :=
    reaches_of_nextRound loop Inv hitems hbody hescape hround hleave
      (k := 0) (m := { m.count with memory := m.memory.pushFrame })
      (Nat.zero_le _) (by simpa [hm.memory, hm.out, count] using hstart) hm.position hm.traps
  refine .of_exec (hm.position ▸ haction) ?_ hreaches
  have htarget' : m.count.memory.deref target = .ok (.vector loop.items) := hm.memory ▸ htarget
  simp only [exec, startLoop, htarget']
  exact hround'

end Loops

end Machine
end Trapline
