import Trapline.Proofs.Labels
import Trapline.Proofs.Reading
import Trapline.Proofs.Simulation

/-!
# The same lines in other places

Where a line stands is kept for messages only. Two computations agree when both succeed with related
values or both fail with the same fault, wherever the two errors are placed. Lines of the same text
are read and checked in agreement, and programs with the same actions run in lockstep.

Main statements:
* `agree_parseAll`, `agree_ofCommands`: the stages from lines to programs.
* `Machine.sameProgress_run`: runs of programs with the same actions.
-/

namespace Trapline

/-- Two results that agree: related values, or errors with the same fault. -/
inductive Agree {α β : Type} (R : α → β → Prop) : Except Error α → Except Error β → Prop
  | ok
      {a : α} {b : β}
      (h : R a b) :
      Agree R (.ok a) (.ok b)
  | error
      {e e' : Error}
      (h : e'.fault = e.fault) :
      Agree R (.error e) (.error e')

namespace Agree

variable {α β α' β' : Type} {R R' : α → β → Prop} {S : α' → β' → Prop}

theorem imp
    {x : Except Error α}
    {y : Except Error β}
    (h : Agree R x y)
    (hR : ∀ a b, R a b → R' a b) :
    Agree R' x y := by
  cases h with
  | ok h =>
      exact .ok (hR _ _ h)
  | error h =>
      exact .error h

theorem bind
    {x : Except Error α}
    {y : Except Error β}
    {f : α → Except Error α'}
    {g : β → Except Error β'}
    (h : Agree R x y)
    (hfg : ∀ a b, R a b → Agree S (f a) (g b)) :
    Agree S (x >>= f) (y >>= g) := by
  cases h with
  | ok h =>
      exact hfg _ _ h
  | error h =>
      exact .error h

/-- Computations over two lists agree when they do on paired elements. -/
theorem mapM
    {f : α → Except Error α'}
    {g : β → Except Error β'}
    {xs : List α}
    {ys : List β}
    (h : List.Forall₂ R xs ys)
    (hfg : ∀ a b, R a b → Agree S (f a) (g b)) :
    Agree (List.Forall₂ S) (xs.mapM f) (ys.mapM g) := by
  induction h with
  | nil =>
      exact .ok .nil
  | cons hxy _ ih =>
      rw [List.mapM_cons, List.mapM_cons]
      refine (hfg _ _ hxy).bind fun a b hab => ih.bind fun as bs habs => ?_
      exact .ok (.cons hab habs)

end Agree

/-- Commands that differ at most in where they stand. -/
structure Command.SameText (c c' : Command) : Prop where
  name : c'.name = c.name
  args : c'.args = c.args

/-- A line reads alike wherever it stands. -/
theorem agree_parse
    (text : String)
    (l l' : Location) :
    Agree Command.SameText (Command.parse text l) (Command.parse text l') := by
  simp only [Command.parse]
  split
  · exact .ok ⟨rfl, rfl⟩
  · split
    · exact .ok ⟨rfl, rfl⟩
    · exact .error rfl

/-- A command is checked alike wherever it stands. -/
theorem agree_ofCommand
    {c c' : Command}
    (h : c.SameText c') :
    Agree (fun s s' : Statement => s'.action = s.action)
      (Statement.ofCommand c) (Statement.ofCommand c') := by
  have hkinds : c'.kinds = c.kinds := by
    rw [Command.kinds, Command.kinds, h.args]
  cases hc : Statement.ofCommand c with
  | ok s =>
      obtain ⟨hop, hargs, -⟩ := Statement.eq_of_ofCommand hc
      have hc' : Statement.ofCommand c' = .ok { s with location := c'.location } :=
        Statement.ofCommand_of_eq (h.name ▸ hop) (hargs.trans h.args.symm) rfl
      rw [hc']
      exact .ok rfl
  | error e =>
      -- the fault has the name and the kinds of the arguments in it, and nothing else
      have hfault : ∃ e', Statement.ofCommand c' = .error e' ∧ e'.fault = e.fault := by
        rcases Statement.ofCommand_eq_error_iff.1 hc with ⟨hop, rfl⟩ | ⟨op, hop, hkind, rfl⟩
        · rw [← h.name] at hop ⊢
          exact ⟨_, Statement.ofCommand_eq_error_iff.2 (Or.inl ⟨hop, rfl⟩), rfl⟩
        · rw [← h.name] at hop
          rw [← hkinds] at hkind
          refine ⟨_, Statement.ofCommand_eq_error_iff.2 (Or.inr ⟨op, hop, hkind, rfl⟩), ?_⟩
          rw [h.name, hkinds]
      obtain ⟨e', hc', hfault⟩ := hfault
      rw [hc']
      exact .error hfault

theorem agree_ofCommands
    {commands commands' : List Command}
    (h : List.Forall₂ Command.SameText commands commands') :
    Agree (fun p p' : Program => p'.actions = p.actions)
      (Program.ofCommands commands) (Program.ofCommands commands') := by
  refine (Agree.mapM h fun c c' => agree_ofCommand).bind fun code code' hcode => .ok ?_
  exact map_eq_map_iff_forall₂.2 hcode

/-- Two lists of lines with the same texts. -/
def SourceLine.SameTexts (lines lines' : List SourceLine) : Prop :=
  lines'.map text = lines.map text

/-- Lines with the same texts read alike. -/
theorem agree_parseAll
    {lines lines' : List SourceLine}
    (h : SourceLine.SameTexts lines lines') :
    Agree (List.Forall₂ Command.SameText)
      (lines.mapM fun line => Command.parse line.text line.location)
      (lines'.mapM fun line => Command.parse line.text line.location) := by
  refine Agree.mapM (map_eq_map_iff_forall₂.1 h) ?_
  intro line line' htext
  rw [htext]
  exact agree_parse line.text line.location line'.location

namespace Program

variable {p p' : Program}

theorem action?_of_actions
    (h : p'.actions = p.actions)
    (position : Nat) :
    p'.action? position = p.action? position := by
  rw [← getElem?_actions, ← getElem?_actions, h]

/-- Programs with the same actions have the same operations with the same arguments. -/
theorem get?_of_actions
    (h : p'.actions = p.actions)
    (position : Nat) :
    (p'.get? position).map (fun s => (s.op, s.args)) =
      (p.get? position).map (fun s => (s.op, s.args)) := by
  have hview : ∀ q : Program,
      (q.get? position).map (fun s => (s.op, s.args)) =
        (q.action? position).map fun a => (a.op, a.args) := by
    intro q
    simp [action?, Function.comp_def]
  rw [hview, hview, action?_of_actions h]

/-- Labels lead to the same positions in programs with the same actions. -/
theorem label?_of_actions
    (h : p'.actions = p.actions) :
    p'.label? = p.label? := by
  funext name
  ext target
  simp only [label?_eq_some_iff, action?_of_actions h]

end Program

namespace Machine

variable {σ : Type} {p p' : Program}

theorem jump_of_label?
    (h : p'.label? = p.label?)
    (m : Machine σ)
    (label : Name) :
    m.jump p' label = m.jump p label := by
  rw [jump, jump, h]

theorem nextRound_of_label?
    (h : p'.label? = p.label?)
    (m : Machine σ)
    (loop : Loop) :
    m.nextRound p' loop = m.nextRound p loop := by
  simp only [nextRound, jump_of_label? h]

/-- An action does the same in programs with the same labels. -/
theorem exec_of_label?
    [Sink σ]
    (h : p'.label? = p.label?)
    (m : Machine σ)
    (a : Action) :
    m.exec p' a = m.exec p a := by
  cases a with
  | jump label | trappedJump label =>
      exact jump_of_label? h _ label
  | returnToTrap label =>
      simp only [exec, returnToTrap, nextRound_of_label? h]
  | each item target body escape =>
      simp only [exec, startLoop, nextRound_of_label? h]
  | _ =>
      rfl

/-- The same result, up to the place of an error. -/
abbrev SameProgress : Progress σ → Progress σ → Prop :=
  Progress.Related (fun m m' => m' = m) (fun m m' => m' = m) fun e e' => e'.fault = e.fault

/-- A machine takes the same step in programs with the same actions. -/
theorem sameProgress_step
    [Sink σ]
    (h : p'.actions = p.actions)
    (limit : Option Nat)
    (m : Machine σ) :
    SameProgress (m.step p limit) (m.step p' limit) := by
  have haction := Program.action?_of_actions h m.position
  cases hs : p.get? m.position with
  | none =>
      rw [Program.action?, Program.action?, hs, Option.map_none, Option.map_eq_none_iff] at haction
      rw [step_of_end hs, step_of_end haction]
      exact .halted 0 rfl
  | some s =>
      rw [Program.action?, Program.action?, hs, Option.map_some, Option.map_eq_some_iff] at haction
      obtain ⟨s', hs', haction⟩ := haction
      cases hlimit : limit.filter (· < m.steps + 1) with
      | some n =>
          rw [step_of_limit hs hlimit, step_of_limit hs' hlimit]
          exact .failed rfl rfl
      | none =>
          rw [step_eq_exec hs hlimit, step_eq_exec hs' hlimit, haction,
            exec_of_label? (Program.label?_of_actions h)]
          cases m.count.exec p s.action with
          | running m₁ =>
              exact .running rfl
          | halted status m₁ =>
              exact .halted status rfl
          | failed e m₁ =>
              exact .failed rfl rfl

/-- Programs with the same actions run in lockstep through the same machines. -/
theorem sameProgress_run
    [Sink σ]
    (h : p'.actions = p.actions)
    (limit : Option Nat)
    (out : σ)
    (n : Nat) :
    SameProgress ((start p out).run p limit n) ((start p' out).run p' limit n) := by
  refine Progress.Related.run ?_ ?_ n
  · intro m m' hm
    rw [hm]
    exact sameProgress_step h limit m
  · rw [start, start, Program.entry, Program.entry, Program.label?_of_actions h]

end Machine
end Trapline
