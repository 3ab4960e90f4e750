import Trapline.Proofs.Execution
import Trapline.Proofs.Loading

/-!
# Faults of a run

An action fails for one of eight causes, each with its own condition on the values that the action
uses (`Raises`), or because the sink refused the line that it puts. Together with the step limit
these are all the ways in which a step can fail (`raises_of_step`).

Main statement: `step_fault_of_ofCommands`. In a program that was checked no step ever fails with
an internal fault, whatever the names and the arguments of the commands were.
-/

namespace Trapline

namespace Fault

/-- Whether a fault is one that running a program can raise. -/
def isRunFault : Fault → Bool
  | invalidReference _ | storeIdentifier _ | popRootFrame | operandMismatch _ _
  | unsupportedOperands _ | integerOverflow | notAVector _ _ | trapNotFound _
  | stepLimitExceeded _ => true
  | _ => false

/-- Whether a fault is an internal one. -/
def isInternal : Fault → Bool
  | internal _ => true
  | _ => false

theorem isInternal_eq_false_of_isRunFault
    {fault : Fault}
    (h : fault.isRunFault = true) :
    fault.isInternal = false := by
  cases fault with
  | internal message => cases h
  | _ => rfl

end Fault

namespace Memory

variable {m m' : Memory} {name : Name} {v : Value} {fault : Fault}

theorem fault_of_get
    (h : m.get name = .error fault) :
    fault = .invalidReference name := by
  unfold get at h
  split at h
  · cases h
  · cases h
    rfl

theorem fault_of_deref
    (h : m.deref v = .error fault) :
    ∃ name, fault = .invalidReference name := by
  cases v with
  | ident name =>
      exact ⟨name, fault_of_get h⟩
  | int n | float x | char c | vector items =>
      cases h

/-- Storing fails only on an identifier. This covers all three ways to store a value. -/
theorem fault_of_storing
    (h : storing name v m = .error fault) :
    v.isIdent = true ∧ fault = .storeIdentifier name := by
  unfold storing at h
  split at h
  · rename_i hident
    cases h
    exact ⟨hident, rfl⟩
  · cases h

theorem fault_of_append
    (h : m.append name v = .error fault) :
    fault = .invalidReference name ∨ ∃ kind, fault = .notAVector name kind := by
  unfold append at h
  split at h
  · cases h
    exact Or.inl rfl
  · cases h
  · cases h
    exact Or.inr ⟨_, rfl⟩

theorem fault_of_popFrame
    (h : m.popFrame = .error fault) :
    fault = .popRootFrame := by
  cases m with
  | root frame =>
      cases h
      rfl
  | scope frame outer =>
      cases h

end Memory

namespace Value

/-- A sum fails when it is too large, and when its parts are of different kinds or of a kind
without addition. -/
theorem fault_of_add
    {v w : Value}
    {fault : Fault}
    (h : v.add w = .error fault) :
    fault = .integerOverflow ∨
    (fault = .unsupportedOperands v.kind ∧ (v.kind = .char ∨ v.kind = .ident)) ∨
    (fault = .operandMismatch v.kind w.kind ∧ v.kind ≠ w.kind) := by
  unfold add at h
  split at h
  · split at h
    · cases h
    · cases h
      exact Or.inl rfl
  · cases h
  · cases h
  · rename_i hint hfloat hvector
    split at h
    · rename_i hkind
      cases h
      refine Or.inr (Or.inl ⟨rfl, ?_⟩)
      cases v <;> cases w <;> simp at hint hfloat hvector hkind ⊢
    · rename_i hkind
      cases h
      exact Or.inr (Or.inr ⟨rfl, hkind⟩)

/-- A sum is never an identifier. -/
theorem isIdent_of_add
    {v w u : Value}
    (h : v.add w = .ok u) :
    u.isIdent = false := by
  unfold add at h
  split at h
  · split at h
    · cases h
      rfl
    · cases h
  · cases h
    rfl
  · cases h
    rfl
  · split at h
    · cases h
    · cases h

end Value

namespace Machine

variable {σ : Type}

/-- The values that an action works with: what its operands stand for, the elements of a vector
among these, and the elements of the loops that it may return to. -/
inductive Uses (m : Machine σ) (a : Action) : Value → Prop
  | operand
      {value v : Value}
      (hvalue : value ∈ a.args)
      (hv : m.memory.deref value = .ok v) :
      Uses m a v
  | element
      {value v : Value} {items : List Value}
      (hvalue : value ∈ a.args)
      (hitems : m.memory.deref value = .ok (.vector items))
      (hv : v ∈ items) :
      Uses m a v
  | pending
      {trap : Trap} {loop : Loop} {v : Value}
      (htrap : trap ∈ m.traps)
      (hloop : trap.loop = some loop)
      (hv : v ∈ loop.items) :
      Uses m a v

/-- The faults that an action may raise, with what has to be the case for each. -/
inductive Raises (m : Machine σ) (a : Action) : Fault → Prop
  | unbound (name : Name) : Raises m a (.invalidReference name)
  | identifier
      (name : Name) {v : Value}
      (hv : Uses m a v)
      (hident : v.isIdent = true) :
      Raises m a (.storeIdentifier name)
  | rootFrame : Raises m a .popRootFrame
  | overflow : Raises m a .integerOverflow
  | unsupported
      {v : Value}
      (hv : Uses m a v)
      (hkind : v.kind = .char ∨ v.kind = .ident) :
      Raises m a (.unsupportedOperands v.kind)
  | mismatch
      {v w : Value}
      (hv : Uses m a v)
      (hw : Uses m a w) :
      Raises m a (.operandMismatch v.kind w.kind)
  | noVector (name : String) (kind : Kind) : Raises m a (.notAVector name kind)
  | noTrap (label : Name) : Raises m a (.trapNotFound label)

theorem Raises.isRunFault
    {m : Machine σ}
    {a : Action}
    {fault : Fault}
    (h : Raises m a fault) :
    fault.isRunFault = true := by
  cases h <;> rfl

theorem raises_of_deref
    {m : Machine σ}
    {a : Action}
    {value : Value}
    {fault : Fault}
    (h : m.memory.deref value = .error fault) :
    Raises m a fault := by
  obtain ⟨name, rfl⟩ := Memory.fault_of_deref h
  exact .unbound name

/-- Storing what an operand stands for raises a fault only when that is an identifier. -/
theorem raises_of_storing
    {m : Machine σ}
    {a : Action}
    {memory : Memory}
    {name : Name}
    {v : Value}
    {fault : Fault}
    (hv : Uses m a v)
    (h : Memory.storing name v memory = .error fault) :
    Raises m a fault := by
  obtain ⟨hident, rfl⟩ := Memory.fault_of_storing h
  exact .identifier name hv hident

theorem raises_of_add
    {m : Machine σ}
    {a : Action}
    {v w : Value}
    {fault : Fault}
    (hv : Uses m a v)
    (hw : Uses m a w)
    (h : v.add w = .error fault) :
    Raises m a fault := by
  rcases Value.fault_of_add h with rfl | ⟨rfl, hkind⟩ | ⟨rfl, -⟩
  · exact .overflow
  · exact .unsupported hv hkind
  · exact .mismatch hv hw

/-- The faults of an action on variables. -/
theorem raises_of_update
    {m : Machine σ}
    {a : Action}
    {fault : Fault}
    (h : a.update m.memory = .error fault) :
    Raises m a fault := by
  cases a with
  | popFrame =>
      obtain rfl := Memory.fault_of_popFrame h
      exact .rootFrame
  | set name value =>
      rcases bind_eq_error_iff.1 h with h | ⟨v, hv, h⟩
      · exact raises_of_deref h
      · exact raises_of_storing (.operand (by simp [Action.args]) hv) h
  | localSet name value =>
      rcases bind_eq_error_iff.1 h with h | ⟨v, hv, h⟩
      · exact raises_of_deref h
      · exact raises_of_storing (.operand (by simp [Action.args]) hv) h
  | vecPush name value =>
      rcases bind_eq_error_iff.1 h with h | ⟨v, hv, h⟩
      · exact raises_of_deref h
      · rcases Memory.fault_of_append h with rfl | ⟨kind, rfl⟩
        · exact .unbound name
        · exact .noVector name kind
  | add left right out =>
      rcases bind_eq_error_iff.1 h with h | ⟨v, hv, h⟩
      · exact raises_of_deref h
      rcases bind_eq_error_iff.1 h with h | ⟨w, hw, h⟩
      · exact raises_of_deref h
      rcases bind_eq_error_iff.1 h with h | ⟨u, hu, h⟩
      · exact raises_of_add (.operand (by simp [Action.args]) hv)
          (.operand (by simp [Action.args]) hw) h
      · -- the sum itself is always storable
        obtain ⟨hident, -⟩ := Memory.fault_of_storing h
        rw [Value.isIdent_of_add hu] at hident
        cases hident
  | noop | label _ | put _ | pushFrame | jump _ | exit | setTrap _ | returnToTrap _
  | trappedJump _ | each _ _ _ _ =>
      cases h

theorem jump_ne_failed
    (p : Program)
    (m : Machine σ)
    (label : Name)
    (e : Error)
    (m' : Machine σ) :
    m.jump p label ≠ .failed e m' := by
  rcases jump_cases p m label with ⟨target, -, h⟩ | ⟨-, h⟩
  · rw [h]
    exact nofun
  · rw [h]
    exact nofun

/-- The faults of a loop: an element that is an identifier, or no frame that could be dropped. -/
theorem fault_of_nextRound
    {p : Program}
    {m m' : Machine σ}
    {loop : Loop}
    {e : Error}
    (h : m.nextRound p loop = .failed e m') :
    e = { fault := .popRootFrame } ∨
    ∃ v ∈ loop.items, v.isIdent = true ∧ e = { fault := .storeIdentifier loop.item } := by
  rcases nextRound_cases p m loop with
    ⟨v, memory, hv, hset, hround⟩ | ⟨memory, hv, hpop, hround⟩ |
    ⟨v, fault, hv, hset, hround⟩ | ⟨fault, hv, hpop, hround⟩
  · rw [hround] at h
    exact absurd h (jump_ne_failed _ _ _ _ _)
  · rw [hround] at h
    exact absurd h (jump_ne_failed _ _ _ _ _)
  · obtain ⟨hident, rfl⟩ := Memory.fault_of_storing hset
    rw [hround] at h
    cases h
    exact Or.inr ⟨v, List.mem_of_getElem? hv, hident, rfl⟩
  · obtain rfl := Memory.fault_of_popFrame hpop
    rw [hround] at h
    cases h
    exact Or.inl rfl

theorem raises_of_returnToTrap
    {p : Program}
    {m m' : Machine σ}
    {a : Action}
    {label : Name}
    {e : Error}
    (h : m.returnToTrap p label = .failed e m') :
    ∃ fault, e = { fault } ∧ Raises m a fault := by
  rcases returnToTrap_cases p m label with
    ⟨-, hreturn⟩ | ⟨trap, older, -, -, hreturn⟩ | ⟨trap, older, loop, hunwind, hloop, hreturn⟩
  · rw [hreturn] at h
    cases h
    exact ⟨_, rfl, .noTrap label⟩
  · rw [hreturn] at h
    cases h
  · rw [hreturn] at h
    obtain ⟨newer, htraps, -⟩ := Trap.unwind?_eq_some_iff.1 hunwind
    have htrap : trap ∈ m.traps := by
      rw [htraps]
      simp
    rcases fault_of_nextRound h with rfl | ⟨v, hv, hident, rfl⟩
    · exact ⟨_, rfl, .rootFrame⟩
    · exact ⟨_, rfl, .identifier loop.item (.pending htrap hloop hv) hident⟩

theorem raises_of_startLoop
    {p : Program}
    {m m' : Machine σ}
    {item body escape : Name}
    {target : Value}
    {e : Error}
    (h : m.startLoop p item target body escape = .failed e m') :
    ∃ fault, e = { fault } ∧ Raises m (.each item target body escape) fault := by
  rcases startLoop_cases p m item target body escape with
    ⟨items, hitems, hstart⟩ | ⟨fault, hderef, hstart⟩ | ⟨v, -, hstart⟩
  · rw [hstart] at h
    rcases fault_of_nextRound h with rfl | ⟨v, hv, hident, rfl⟩
    · exact ⟨_, rfl, .rootFrame⟩
    · exact ⟨_, rfl, .identifier item (.element (by simp [Action.args]) hitems hv) hident⟩
  · rw [hstart] at h
    cases h
    exact ⟨fault, rfl, raises_of_deref hderef⟩
  · rw [hstart] at h
    cases h
    exact ⟨_, rfl, .noVector _ _⟩

/-- The sink refused with the given error the line that an action puts. -/
def Refused [Sink σ] (m : Machine σ) (a : Action) (e : Error) : Prop :=
  ∃ value v out,
    a = .put value ∧
    m.memory.deref value = .ok v ∧
    Sink.write m.out v.display = (.error e, out)

/-- The statement at the position puts a line that the sink refused, with an error that is the given
one at the place of the statement. -/
def StepRefused [Sink σ] (p : Program) (m : Machine σ) (e : Error) : Prop :=
  ∃ s e₀,
    p.get? m.position = some s ∧
    Refused m s.action e₀ ∧
    e = e₀.locateIfUnplaced s.location

/-- An action fails with a fault of its own or because the sink refused a line. -/
theorem raises_of_exec
    [Sink σ]
    {p : Program}
    {m m' : Machine σ}
    {a : Action}
    {e : Error}
    (h : m.exec p a = .failed e m') :
    Refused m a e ∨ ∃ fault, e = { fault } ∧ Raises m a fault := by
  have hstore :
      ∀ {result : Except Fault Memory},
        (∀ fault, result = .error fault → Raises m a fault) →
        m.store result = .failed e m' →
        Refused m a e ∨ ∃ fault, e = { fault } ∧ Raises m a fault := by
    intro result hraises h
    cases result with
    | ok memory =>
        cases h
    | error fault =>
        cases h
        exact Or.inr ⟨fault, rfl, hraises fault rfl⟩
  cases a with
  | put value =>
      cases hderef : m.memory.deref value with
      | error fault =>
          simp only [exec, hderef, proceed, Progress.failed.injEq] at h
          exact Or.inr ⟨fault, h.1.symm, raises_of_deref hderef⟩
      | ok v =>
          simp only [exec, hderef, proceed, emit] at h
          split at h
          · cases h
          · rename_i e' out hwrite
            cases h
            exact Or.inl ⟨value, v, out, rfl, hderef, hwrite⟩
  | jump label =>
      exact absurd h (jump_ne_failed p m label e m')
  | trappedJump label =>
      exact absurd h (jump_ne_failed p (m.setTrap label none) label e m')
  | returnToTrap label =>
      exact Or.inr (raises_of_returnToTrap h)
  | each item target body escape =>
      exact Or.inr (raises_of_startLoop h)
  | exit | setTrap label =>
      cases h
  | noop | label name | pushFrame | popFrame | set name value | localSet name value
  | vecPush name value | add left right out =>
      exact hstore (fun _ => raises_of_update) h

/-- A step fails at the limit, because the sink refused a line, or with a fault of the action at
the position. -/
theorem raises_of_step
    [Sink σ]
    {p : Program}
    {limit : Option Nat}
    {m m' : Machine σ}
    {e : Error}
    (h : m.step p limit = .failed e m') :
    ∃ s,
      p.get? m.position = some s ∧
      ((∃ n, e.fault = .stepLimitExceeded n) ∨
        (∃ e₀, Refused m.count s.action e₀ ∧ e = e₀.locateIfUnplaced s.location) ∨
        Raises m.count s.action e.fault) := by
  obtain ⟨s, hget, ⟨n, hn, -⟩ | ⟨e₀, hexec, rfl⟩⟩ := failed_of_step h
  · exact ⟨s, hget, Or.inl ⟨n, hn⟩⟩
  · rcases raises_of_exec hexec with hrefused | ⟨fault, rfl, hraises⟩
    · exact ⟨s, hget, Or.inr (Or.inl ⟨e₀, hrefused, rfl⟩)⟩
    · exact ⟨s, hget, Or.inr (Or.inr hraises)⟩

/-- **No internal faults in checked programs.** Take any list of commands that passes the check,
hand-made ones included, and any machine, whether a run reaches it or not. If a step fails, then
the command at the position is one of the list and names an operation, and the failure is the step
limit, a fault that a run may raise, or the sink's own error. It is not an internal fault unless
the sink itself fails with one. -/
theorem step_fault_of_ofCommands
    [Sink σ]
    (hsink : ∀ (out out' : σ) (line : String) (e : Error),
      Sink.write out line = (.error e, out') → e.fault.isInternal = false)
    {commands : List Command}
    {p : Program}
    (hp : Program.ofCommands commands = .ok p)
    {limit : Option Nat}
    {m m' : Machine σ}
    {e : Error}
    (h : m.step p limit = .failed e m') :
    ∃ c op,
      commands[m.position]? = some c ∧
      Op.ofName? c.name = some op ∧
      e.fault.isInternal = false ∧
      ((∃ n, e.fault = .stepLimitExceeded n) ∨
        ∃ e₀,
          m.count.execute p c.args op = .failed e₀ m' ∧
          e = e₀.locateIfUnplaced c.location ∧
          (e₀.fault.isRunFault = true ∨
            op = .put ∧ ∃ line out', Sink.write m.out line = (.error e₀, out'))) := by
  obtain ⟨s, hget, hfailed⟩ := failed_of_step h
  obtain ⟨c, hc, hs⟩ := Program.command_of_get? hp hget
  obtain ⟨hop, hargs, hlocation⟩ := Statement.eq_of_ofCommand hs
  refine ⟨c, s.op, hc, hop, ?_⟩
  rcases hfailed with ⟨n, hn, -⟩ | ⟨e₀, hexec, rfl⟩
  · refine ⟨?_, Or.inl ⟨n, hn⟩⟩
    rw [hn]
    rfl
  · have hexecute : m.count.execute p c.args s.op = .failed e₀ m' := by
      rw [← hargs, execute_statement, hexec]
    rw [hlocation]
    rcases raises_of_exec hexec with ⟨value, v, out', hput, -, hwrite⟩ | ⟨fault, rfl, hraises⟩
    · have hinternal : e₀.fault.isInternal = false := hsink _ _ _ _ hwrite
      have hop' : s.op = .put := by
        rw [← s.op_action, hput]
        rfl
      exact ⟨hinternal,
        Or.inr ⟨e₀, hexecute, rfl, Or.inr ⟨hop', _, out', hwrite⟩⟩⟩
    · exact ⟨Fault.isInternal_eq_false_of_isRunFault hraises.isRunFault,
        Or.inr ⟨_, hexecute, rfl, Or.inl hraises.isRunFault⟩⟩

/-- A loop over a vector that holds an identifier, as no line of a script can have it. -/
def identifierLoop : Command where
  name := "each"
  args := [.ident "x", .vector [.ident "y"], .ident "body", .ident "end"]
  location := { file := "hand", line := 1 }

/-- The hand-made loop passes the check and fails at once, with a fault that a run may raise. -/
theorem step_fault_of_identifierLoop :
    ∃ p m' e,
      Program.ofCommands [identifierLoop] = .ok p ∧
      (start p #[] : Machine (Array String)).step p none = .failed e m' ∧
      e.fault = .storeIdentifier "x" ∧
      e.fault.isInternal = false := by
  have hnever :
      ∀ {p : Program} {m' : Machine (Array String)} {e : Error},
        Program.ofCommands [identifierLoop] = .ok p →
        (start p #[]).step p none = .failed e m' →
        e.fault.isInternal = false := by
    intro p m' e hp h
    obtain ⟨-, -, -, -, hinternal, -⟩ :=
      step_fault_of_ofCommands (fun _ _ _ _ hwrite => by cases hwrite) hp h
    exact hinternal
  exact ⟨_, _, _, rfl, rfl, rfl, hnever rfl rfl⟩

end Machine
end Trapline
