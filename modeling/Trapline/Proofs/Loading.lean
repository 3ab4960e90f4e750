import Trapline.Proofs.Fallible
import Trapline.Source

/-!
# What a loaded program consists of

Checking a list of commands keeps their order: the statement at a position is that of the command
at the same place, with its arguments and its line. Loading a file gives the commands of its
spliced lines.
-/

namespace Trapline

namespace Statement

/-- The statement of a command has the command's operation, arguments and line. -/
theorem eq_of_ofCommand
    {c : Command}
    {s : Statement}
    (h : ofCommand c = .ok s) :
    Op.ofName? c.name = some s.op ∧ s.args = c.args ∧ s.location = c.location := by
  unfold ofCommand at h
  split at h
  · cases h
  · rename_i op hop
    split at h
    · cases h
      exact ⟨hop, rfl, rfl⟩
    · cases h

/-- A command whose operation takes its arguments passes the check. -/
theorem ofCommand_of_eq
    {c : Command}
    {s : Statement}
    (hop : Op.ofName? c.name = some s.op)
    (hargs : s.args = c.args)
    (hlocation : s.location = c.location) :
    ofCommand c = .ok s := by
  obtain ⟨op, args, location, accepted⟩ := s
  dsimp only at hop hargs hlocation
  subst hargs
  subst hlocation
  have haccepted : op.accepts c.kinds = true := accepted
  simp [ofCommand, hop, haccepted]

/-- A command fails the check because no operation has its name, or because the operation does not
take its arguments. -/
theorem ofCommand_eq_error_iff
    {c : Command}
    {e : Error} :
    ofCommand c = .error e ↔
      (Op.ofName? c.name = none ∧
        e = { fault := .unknownCommand c.name, origin := some c.location }) ∨
      ∃ op,
        Op.ofName? c.name = some op ∧
        op.accepts c.kinds = false ∧
        e = {
          fault := .shapeMismatch c.name op.describeShapes
            (", ".intercalate (c.kinds.map Kind.name))
          origin := some c.location } := by
  unfold ofCommand
  cases Op.ofName? c.name with
  | none =>
      constructor
      · rintro ⟨⟩
        exact Or.inl ⟨rfl, rfl⟩
      · rintro (⟨-, rfl⟩ | ⟨op, hop, -⟩)
        · rfl
        · cases hop
  | some op =>
      by_cases haccepted : op.accepts c.kinds = true
      · simp [haccepted]
      · simp only [haccepted, Bool.false_eq_true, ↓reduceDIte]
        constructor
        · rintro ⟨⟩
          exact Or.inr ⟨op, rfl, by simpa using haccepted, rfl⟩
        · rintro (⟨hop, -⟩ | ⟨_, ⟨⟩, -, rfl⟩)
          · cases hop
          · rfl

end Statement

namespace Program

theorem code_of_ofCommands
    {commands : List Command}
    {p : Program}
    (h : ofCommands commands = .ok p) :
    commands.mapM Statement.ofCommand = .ok p.code.toList := by
  obtain ⟨code, hcode, h⟩ := bind_eq_ok_iff.1 h
  cases h
  exact hcode

/-- The statement at a position is that of the command at the same place. -/
theorem command_of_get?
    {commands : List Command}
    {p : Program}
    (h : ofCommands commands = .ok p)
    {position : Nat}
    {s : Statement}
    (hs : p.get? position = some s) :
    ∃ c, commands[position]? = some c ∧ Statement.ofCommand c = .ok s := by
  apply exists_of_getElem?_mapM (code_of_ofCommands h)
  rw [Array.getElem?_toList]
  exact hs

end Program

namespace Reader

theorem ofTexts_self
    (file text : String) :
    ofTexts [(file, text)] file = .ok (Text.lines text) := by
  simp [ofTexts]

theorem ofTexts_of_ne
    {file path : String}
    (h : path ≠ file)
    (text : String) :
    ofTexts [(file, text)] path = .error { fault := .unreadable path "no such file" } := by
  have hne : (path == file) = false := beq_eq_false_iff_ne.2 h
  simp [ofTexts, List.lookup_cons, hne]

/-- The statement at a position of a loaded program is that of the line at the same place. -/
theorem line_of_load
    {read : Reader}
    {entry : String}
    {p : Program}
    (h : read.load entry = .ok p)
    {position : Nat}
    {s : Statement}
    (hs : p.get? position = some s) :
    ∃ lines line c,
      read.loadLines entry = .ok lines ∧
      lines[position]? = some line ∧
      Command.parse line.text line.location = .ok c ∧
      Statement.ofCommand c = .ok s := by
  obtain ⟨commands, hcommands, hp⟩ := bind_eq_ok_iff.1 h
  obtain ⟨lines, hlines, hparse⟩ := bind_eq_ok_iff.1 hcommands
  obtain ⟨c, hc, hs⟩ := Program.command_of_get? hp hs
  obtain ⟨line, hline, hc⟩ := exists_of_getElem?_mapM hparse hc
  exact ⟨lines, line, c, hlines, hline, hc, hs⟩

end Reader
end Trapline
