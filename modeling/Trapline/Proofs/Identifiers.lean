import Trapline.Proofs.Faults
import Trapline.Proofs.Run
import Trapline.Proofs.Stored

/-!
# Identifiers are never stored

Storing a value refuses an identifier, but it looks at the value only from outside: an identifier
inside a vector would pass, and appending to a vector is not checked at all. What keeps identifiers
out of the memory is that no line of a script has one inside a vector. From there on every value
that a machine computes, stores or keeps for a loop is free of identifiers at any depth.

Main statement: `identFree_of_load`, for all programs that were loaded from files or from a text.
-/

namespace Trapline

namespace Value

/-- A value is an identifier or has one inside, at any depth. -/
inductive HasIdent : Value → Prop
  | here (name : Name) : HasIdent (.ident name)
  | inside
      {v : Value} {items : List Value}
      (hv : v ∈ items)
      (h : HasIdent v) :
      HasIdent (.vector items)

/-- A value without identifiers. -/
def IdentFree (v : Value) : Prop :=
  ¬ v.HasIdent

theorem identFree_int
    (n : Int64) :
    (int n).IdentFree := by
  intro h
  cases h

theorem identFree_float
    (x : Binary32) :
    (float x).IdentFree := by
  intro h
  cases h

theorem identFree_char
    (c : Char) :
    (char c).IdentFree := by
  intro h
  cases h

theorem identFree_vector_iff
    {items : List Value} :
    (vector items).IdentFree ↔ ∀ v ∈ items, v.IdentFree := by
  constructor
  · intro h v hv hident
    exact h (.inside hv hident)
  · intro h hident
    cases hident with
    | inside hv hv' =>
        exact h _ hv hv'

theorem identFree_ofChars
    (chars : List Char) :
    (ofChars chars).IdentFree := by
  rw [ofChars, identFree_vector_iff]
  intro v hv
  obtain ⟨c, -, rfl⟩ := List.mem_map.1 hv
  exact identFree_char c

theorem IdentFree.isIdent
    {v : Value}
    (h : v.IdentFree) :
    v.isIdent = false := by
  cases v with
  | ident name =>
      exact absurd (.here name) h
  | int n | float x | char c | vector items =>
      rfl

theorem IdentFree.kind_ne
    {v : Value}
    (h : v.IdentFree) :
    v.kind ≠ .ident := by
  cases v with
  | ident name =>
      exact absurd (.here name) h
  | int n | float x | char c | vector items =>
      exact nofun

/-- The elements of a joined vector come from its two parts. -/
theorem IdentFree.append
    {vs ws : List Value}
    (hv : (vector vs).IdentFree)
    (hw : (vector ws).IdentFree) :
    (vector (vs ++ ws)).IdentFree := by
  rw [identFree_vector_iff] at hv hw ⊢
  intro v h
  rcases List.mem_append.1 h with h | h
  · exact hv v h
  · exact hw v h

theorem IdentFree.add
    {v w u : Value}
    (hv : v.IdentFree)
    (hw : w.IdentFree)
    (h : v.add w = .ok u) :
    u.IdentFree := by
  unfold Value.add at h
  split at h
  · split at h
    · cases h
      exact identFree_int _
    · cases h
  · cases h
    exact identFree_float _
  · cases h
    exact hv.append hw
  · split at h
    · cases h
    · cases h

/-- An argument of a command is an identifier by itself or has none inside. -/
def IsLiteral (v : Value) : Prop :=
  v.isIdent = true ∨ v.IdentFree

end Value

namespace Argument

/-- Reading an argument gives an identifier or a value without any. -/
theorem isLiteral_of_parse
    {text : List Char}
    {v : Value}
    (h : parse text = .ok v) :
    v.IsLiteral := by
  unfold parse at h
  split at h
  · cases h
  · split at h
    · rename_i rest _
      cases hread : Integer.read rest with
      | error fault =>
          rw [hread] at h
          cases h
      | ok n =>
          rw [hread] at h
          cases h
          exact Or.inr (Value.identFree_int n)
    · split at h
      · cases h
        exact Or.inr (Value.identFree_float _)
      · split at h
        · split at h
          · cases h
          · cases h
            exact Or.inr (Value.identFree_char _)
        · split at h
          · cases h
            exact Or.inr (Value.identFree_ofChars _)
          · split at h
            · cases h
              exact Or.inl rfl
            · cases h

/-- The argument of a label is an identifier. -/
theorem isLiteral_of_parseLabel
    {text : List Char}
    {v : Value}
    (h : parseLabel text = .ok v) :
    v.IsLiteral := by
  simp only [parseLabel] at h
  generalize hname : (if text.head? = some ':' then text.tail else text) = name at h
  by_cases hempty : name.isEmpty = true
  · rw [if_pos hempty] at h
    cases h
  · rw [if_neg hempty] at h
    cases h
    exact Or.inl rfl

end Argument

namespace Command

theorem isLiteral_of_parse
    {text : String}
    {location : Location}
    {c : Command}
    (h : parse text location = .ok c) :
    ∀ v ∈ c.args, v.IsLiteral := by
  unfold parse at h
  simp only at h
  split at h
  · cases h
    simp
  · split at h
    · rename_i args hargs
      cases h
      intro v hv
      unfold parseArguments at hargs
      split at hargs
      · obtain ⟨piece, -, hpiece⟩ := exists_of_mem_mapM hargs hv
        exact Argument.isLiteral_of_parseLabel hpiece
      · obtain ⟨piece, -, hpiece⟩ := exists_of_mem_mapM hargs hv
        exact Argument.isLiteral_of_parse hpiece
    · cases h

end Command

namespace Program

/-- No argument in a program has an identifier inside a vector. -/
def HasLiterals (p : Program) : Prop :=
  ∀ position s, p.get? position = some s → ∀ v ∈ s.action.args, v.IsLiteral

theorem hasLiterals_of_load
    {read : Reader}
    {entry : String}
    {p : Program}
    (h : read.load entry = .ok p) :
    p.HasLiterals := by
  intro position s hs v hv
  obtain ⟨lines, line, c, -, -, hc, hs⟩ := Reader.line_of_load h hs
  obtain ⟨-, hargs, -⟩ := Statement.eq_of_ofCommand hs
  rw [s.args_action, hargs] at hv
  exact Command.isLiteral_of_parse hc v hv

end Program

namespace Trap

/-- No element that a trap keeps for its loop has an identifier. -/
def IdentFree (trap : Trap) : Prop :=
  ∀ loop, trap.loop = some loop → ∀ v ∈ loop.items, v.IdentFree

end Trap

namespace Machine

variable {σ : Type}

/-- No value in memory and no element of a pending loop has an identifier. -/
structure IdentFree (m : Machine σ) : Prop where
  memory : m.memory.All Value.IdentFree
  traps : ∀ trap ∈ m.traps, trap.IdentFree

theorem identFree_of_deref
    {memory : Memory}
    {value v : Value}
    (hmemory : memory.All Value.IdentFree)
    (hvalue : value.IsLiteral)
    (h : memory.deref value = .ok v) :
    v.IdentFree := by
  cases value with
  | ident name =>
      simp only [Memory.deref, Memory.get] at h
      split at h
      · rename_i w hw
        cases h
        exact hmemory.get? hw
      · cases h
  | int n | float x | char c | vector items =>
      cases h
      rcases hvalue with hident | hfree
      · cases hident
      · exact hfree

/-- An action with literal arguments uses no value with an identifier. -/
theorem Uses.identFree
    {m : Machine σ}
    {a : Action}
    {v : Value}
    (hm : m.IdentFree)
    (ha : ∀ value ∈ a.args, value.IsLiteral)
    (h : Uses m a v) :
    v.IdentFree := by
  cases h with
  | operand hvalue hv =>
      exact identFree_of_deref hm.memory (ha _ hvalue) hv
  | element hvalue hitems hv =>
      have hfree := identFree_of_deref hm.memory (ha _ hvalue) hitems
      exact Value.identFree_vector_iff.1 hfree _ hv
  | pending htrap hloop hv =>
      exact hm.traps _ htrap _ hloop _ hv

/-- Such an action raises no fault about storing or adding identifiers. -/
theorem Raises.sparesIdents
    {m : Machine σ}
    {a : Action}
    {fault : Fault}
    (h : Raises m a fault)
    (hm : m.IdentFree)
    (ha : ∀ value ∈ a.args, value.IsLiteral) :
    (∀ name, fault ≠ .storeIdentifier name) ∧
    (∀ kind, fault = .unsupportedOperands kind → kind = .char) ∧
    ∀ left right, fault = .operandMismatch left right → left ≠ .ident ∧ right ≠ .ident := by
  cases h with
  | identifier name hv hident =>
      rw [(hv.identFree hm ha).isIdent] at hident
      cases hident
  | @unsupported v hv hkind =>
      refine ⟨nofun, ?_, nofun⟩
      rintro kind ⟨⟩
      rcases hkind with hkind | hkind
      · exact hkind
      · exact absurd hkind (hv.identFree hm ha).kind_ne
  | @mismatch v w hv hw =>
      refine ⟨nofun, nofun, ?_⟩
      rintro left right ⟨⟩
      exact ⟨(hv.identFree hm ha).kind_ne, (hw.identFree hm ha).kind_ne⟩
  | unbound | rootFrame | overflow | noVector | noTrap =>
      exact ⟨nofun, nofun, nofun⟩

theorem IdentFree.setTrap
    {m : Machine σ}
    {label : Name}
    {loop : Option Loop}
    (hm : m.IdentFree)
    (hloop : ∀ l, loop = some l → ∀ v ∈ l.items, v.IdentFree) :
    (m.setTrap label loop).IdentFree := by
  refine ⟨hm.memory, ?_⟩
  intro trap htrap
  rcases List.mem_cons.1 htrap with rfl | htrap
  · exact hloop
  · exact hm.traps trap htrap

theorem IdentFree.jump
    {m : Machine σ}
    (hm : m.IdentFree)
    (p : Program)
    (label : Name) :
    (m.jump p label).machine.IdentFree := by
  rcases jump_cases p m label with ⟨target, -, h⟩ | ⟨-, h⟩
  · rw [h]
    exact ⟨hm.memory, hm.traps⟩
  · rw [h]
    exact hm

theorem IdentFree.nextRound
    {m : Machine σ}
    {loop : Loop}
    (hm : m.IdentFree)
    (hloop : ∀ v ∈ loop.items, v.IdentFree)
    (p : Program) :
    (m.nextRound p loop).machine.IdentFree := by
  rcases nextRound_cases p m loop with
    ⟨v, memory, hv, hset, h⟩ | ⟨memory, -, hpop, h⟩ | ⟨v, fault, -, -, h⟩ | ⟨fault, -, -, h⟩
  · rw [h]
    have hmemory : memory.All Value.IdentFree :=
      hm.memory.setOrLocal (hloop v (List.mem_of_getElem? hv)) hset
    have hbound : IdentFree { m with memory } := ⟨hmemory, hm.traps⟩
    refine (hbound.setTrap ?_).jump p loop.body
    intro l hl
    cases hl
    exact hloop
  · rw [h]
    have hpopped : IdentFree { m with memory } := ⟨hm.memory.popFrame hpop, hm.traps⟩
    exact hpopped.jump p loop.escape
  · rw [h]
    exact hm
  · rw [h]
    exact hm

theorem IdentFree.returnToTrap
    {m : Machine σ}
    (hm : m.IdentFree)
    (p : Program)
    (label : Name) :
    (m.returnToTrap p label).machine.IdentFree := by
  have hunwound :
      ∀ {trap older},
        Trap.unwind? label m.traps = some (trap, older) →
        trap.IdentFree ∧ ∀ t ∈ older, t.IdentFree := by
    intro trap older hunwind
    obtain ⟨newer, htraps, -⟩ := Trap.unwind?_eq_some_iff.1 hunwind
    refine ⟨hm.traps trap (by simp [htraps]), ?_⟩
    intro t ht
    exact hm.traps t (by simp [htraps, ht])
  rcases returnToTrap_cases p m label with
    ⟨-, h⟩ | ⟨trap, older, hunwind, -, h⟩ | ⟨trap, older, loop, hunwind, hloop, h⟩
  · rw [h]
    exact hm
  · rw [h]
    exact ⟨hm.memory, (hunwound hunwind).2⟩
  · rw [h]
    have hback :
        IdentFree { m with traps := older, position := trap.resumeAt, jumped := true } :=
      ⟨hm.memory, (hunwound hunwind).2⟩
    exact hback.nextRound ((hunwound hunwind).1 loop hloop) p

theorem IdentFree.startLoop
    {m : Machine σ}
    {item body escape : Name}
    {target : Value}
    (hm : m.IdentFree)
    (htarget : target.IsLiteral)
    (p : Program) :
    (m.startLoop p item target body escape).machine.IdentFree := by
  rcases startLoop_cases p m item target body escape with
    ⟨items, hitems, h⟩ | ⟨fault, -, h⟩ | ⟨v, -, h⟩
  · rw [h]
    have hfree := identFree_of_deref hm.memory htarget hitems
    have hpushed : IdentFree { m with memory := m.memory.pushFrame } :=
      ⟨hm.memory.pushFrame, hm.traps⟩
    exact hpushed.nextRound (Value.identFree_vector_iff.1 hfree) p
  · rw [h]
    exact hm
  · rw [h]
    exact hm

theorem IdentFree.store
    {m : Machine σ}
    {result : Except Fault Memory}
    (hm : m.IdentFree)
    (h : ∀ memory, result = .ok memory → memory.All Value.IdentFree) :
    (m.store result).machine.IdentFree := by
  cases result with
  | ok memory =>
      exact ⟨h memory rfl, hm.traps⟩
  | error fault =>
      exact hm

theorem identFree_of_update
    {a : Action}
    {memory memory' : Memory}
    (hmemory : memory.All Value.IdentFree)
    (ha : ∀ value ∈ a.args, value.IsLiteral)
    (h : a.update memory = .ok memory') :
    memory'.All Value.IdentFree := by
  cases a with
  | pushFrame =>
      cases h
      exact hmemory.pushFrame
  | popFrame =>
      exact hmemory.popFrame h
  | set name value =>
      obtain ⟨v, hv, h⟩ := bind_eq_ok_iff.1 h
      exact hmemory.set (identFree_of_deref hmemory (ha value (by simp [Action.args])) hv) h
  | localSet name value =>
      obtain ⟨v, hv, h⟩ := bind_eq_ok_iff.1 h
      exact hmemory.localSet (identFree_of_deref hmemory (ha value (by simp [Action.args])) hv) h
  | vecPush name value =>
      obtain ⟨v, hv, h⟩ := bind_eq_ok_iff.1 h
      have hfree := identFree_of_deref hmemory (ha value (by simp [Action.args])) hv
      refine hmemory.append ?_ h
      intro items hitems
      exact hitems.append (Value.identFree_vector_iff.2 (by simpa using hfree))
  | add left right out =>
      obtain ⟨v, hv, h⟩ := bind_eq_ok_iff.1 h
      obtain ⟨w, hw, h⟩ := bind_eq_ok_iff.1 h
      obtain ⟨u, hu, h⟩ := bind_eq_ok_iff.1 h
      have hleft := identFree_of_deref hmemory (ha left (by simp [Action.args])) hv
      have hright := identFree_of_deref hmemory (ha right (by simp [Action.args])) hw
      exact hmemory.set (hleft.add hright hu) h
  | noop | label _ | put _ | jump _ | exit | setTrap _ | returnToTrap _ | trappedJump _
  | each _ _ _ _ =>
      cases h
      exact hmemory

/-- Executing an action with literal arguments keeps a machine free of identifiers, however the
action ends. -/
theorem IdentFree.exec
    [Sink σ]
    {m : Machine σ}
    {a : Action}
    (hm : m.IdentFree)
    (ha : ∀ value ∈ a.args, value.IsLiteral)
    (p : Program) :
    (m.exec p a).machine.IdentFree := by
  have hstore : (m.store (a.update m.memory)).machine.IdentFree :=
    hm.store fun _ => identFree_of_update hm.memory ha
  have hplain : ∀ label, (m.setTrap label none).IdentFree := by
    intro label
    apply hm.setTrap
    intro loop hloop
    cases hloop
  cases a with
  | put value =>
      cases hderef : m.memory.deref value with
      | error fault =>
          simp only [Machine.exec, hderef, proceed]
          exact hm
      | ok v =>
          simp only [Machine.exec, hderef, proceed, emit]
          split
          · exact ⟨hm.memory, hm.traps⟩
          · exact ⟨hm.memory, hm.traps⟩
  | jump label =>
      exact hm.jump p label
  | exit =>
      exact hm
  | setTrap label =>
      exact hplain label
  | trappedJump label =>
      exact (hplain label).jump p label
  | returnToTrap label =>
      exact hm.returnToTrap p label
  | each item target body escape =>
      exact hm.startLoop (ha target (by simp [Action.args])) p
  | noop | label name | pushFrame | popFrame | set name value | localSet name value
  | vecPush name value | add left right out =>
      exact hstore

theorem IdentFree.step
    [Sink σ]
    {p : Program}
    {m : Machine σ}
    (hp : p.HasLiterals)
    (hm : m.IdentFree)
    (limit : Option Nat) :
    (m.step p limit).machine.IdentFree := by
  have hcount : m.count.IdentFree := ⟨hm.memory, hm.traps⟩
  rcases machine_of_step p limit m with h | h | ⟨s, hget, h | h⟩
  · rw [h]
    exact hm
  · rw [h]
    exact hcount
  · rw [h]
    exact hcount.exec (hp _ _ hget) p
  · rw [h]
    have hexec := hcount.exec (hp _ _ hget) p
    unfold advance
    split
    · exact ⟨hexec.memory, hexec.traps⟩
    · exact ⟨hexec.memory, hexec.traps⟩

/-- Every machine that a program with literal arguments reaches is free of identifiers. -/
theorem Reachable.identFree
    [Sink σ]
    {p : Program}
    {limit : Option Nat}
    {out : σ}
    {m : Machine σ}
    (hp : p.HasLiterals)
    (h : Reachable p limit out m) :
    m.IdentFree := by
  apply h.invariant
  · exact ⟨Memory.All.empty, nofun⟩
  · intro m hm
    exact hm.step hp limit

/-- **Loaded programs never store an identifier.** Take any program loaded from files or from a
text, any sink and any machine that steps lead to. No value in a frame and no element of a pending
loop is an identifier or has one inside. No value that is put has one, and the next step does
nothing to the sink but write the text of the value that its argument stands for. If the next step
fails, then with the sink's own error, or neither because an identifier was to be stored nor because
one was to be added. -/
theorem identFree_of_load
    [Sink σ]
    {p : Program}
    (hp : (∃ (read : Reader) (entry : String), read.load entry = .ok p) ∨
      ∃ text file, Program.ofText text file = .ok p)
    {limit : Option Nat}
    {out : σ}
    {m : Machine σ}
    (hm : Reachable p limit out m) :
    (∀ frame ∈ m.memory.frames, ∀ entry ∈ frame.entries, ¬ entry.2.HasIdent) ∧
    (∀ trap ∈ m.traps, ∀ loop, trap.loop = some loop → ∀ v ∈ loop.items, ¬ v.HasIdent) ∧
    (∀ value v, p.action? m.position = some (.put value) → m.memory.deref value = .ok v →
      ¬ v.HasIdent) ∧
    ((m.step p limit).machine.out = m.out ∨
      ∃ value v,
        p.action? m.position = some (.put value) ∧
        m.memory.deref value = .ok v ∧
        ¬ v.HasIdent ∧
        (m.step p limit).machine.out = (Sink.write m.out v.display).2) ∧
    ∀ e m', m.step p limit = .failed e m' →
      (∃ s e₀,
        p.get? m.position = some s ∧
        Refused m s.action e₀ ∧
        e = e₀.locateIfUnplaced s.location) ∨
      ((∀ name, e.fault ≠ .storeIdentifier name) ∧
        (∀ kind, e.fault = .unsupportedOperands kind → kind = .char) ∧
        ∀ left right, e.fault = .operandMismatch left right → left ≠ .ident ∧ right ≠ .ident) := by
  have hliterals : p.HasLiterals := by
    rcases hp with ⟨read, entry, h⟩ | ⟨text, file, h⟩
    · exact Program.hasLiterals_of_load h
    · exact Program.hasLiterals_of_load h
  have hfree : m.IdentFree := hm.identFree hliterals
  have hput :
      ∀ value v, p.action? m.position = some (.put value) → m.memory.deref value = .ok v →
        ¬ v.HasIdent := by
    intro value v haction hderef
    obtain ⟨s, hget, hs⟩ := Option.map_eq_some_iff.1 haction
    have hvalue : value.IsLiteral := by
      apply hliterals _ s hget
      simp [hs, Action.args]
    exact identFree_of_deref hfree.memory hvalue hderef
  refine ⟨hfree.memory, hfree.traps, hput, ?_, ?_⟩
  · rcases out_of_step p limit m with hout | ⟨s, value, v, hget, hs, hderef, hout⟩
    · exact Or.inl hout
    · have haction : p.action? m.position = some (.put value) := by
        rw [Program.action?, hget, Option.map_some, hs]
      exact Or.inr ⟨value, v, haction, hderef, hput value v haction hderef, hout⟩
  · intro e m' hfailed
    obtain ⟨s, hget, hlimit | ⟨e₀, hrefused, rfl⟩ | hraises⟩ := raises_of_step hfailed
    · obtain ⟨n, hn⟩ := hlimit
      right
      simp [hn]
    · exact Or.inl ⟨s, e₀, hget, hrefused, rfl⟩
    · right
      exact hraises.sparesIdents ⟨hfree.memory, hfree.traps⟩ (hliterals _ s hget)

/-- A script that builds a string and appends to it: after two steps the memory holds the longer
string, and nothing in it has an identifier. -/
theorem identFree_of_load_vecPush :
    ∃ p,
      Program.ofText "set: :x, \"ab\nvec_push: :x, 'c" "main" = .ok p ∧
      ∃ m,
        Reachable p none (#[] : Array String) m ∧
        m.memory.get? "x" = some (.ofChars ['a', 'b', 'c']) ∧
        ∀ frame ∈ m.memory.frames, ∀ entry ∈ frame.entries, ¬ entry.2.HasIdent := by
  have hrun :
      ((Program.ofText "set: :x, \"ab\nvec_push: :x, 'c" "main").toOption.bind fun p =>
        ((((start p (#[] : Array String)).step p none).machine.step p none).machine).memory.get?
          "x") = some (.ofChars ['a', 'b', 'c']) := by
    decide +kernel
  cases hp : Program.ofText "set: :x, \"ab\nvec_push: :x, 'c" "main" with
  | error e =>
      rw [hp] at hrun
      cases hrun
  | ok p =>
      rw [hp] at hrun
      have hm :
          Reachable p none (#[] : Array String)
            (((start p #[]).step p none).machine.step p none).machine :=
        .step (.step .start)
      exact ⟨p, rfl, _, hm, hrun, (identFree_of_load (Or.inr ⟨_, _, hp⟩) hm).1⟩

end Machine
end Trapline
