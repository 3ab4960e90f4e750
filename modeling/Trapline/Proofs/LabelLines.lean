import Mathlib.Order.Bounds.Defs
import Trapline.Proofs.Labels
import Trapline.Proofs.Pieces
import Trapline.Proofs.Reading
import Trapline.Proofs.TrapStack

/-!
# Lines that declare labels

A command with the keyword of a label declares the name that is its only argument, and the name
leads to the last such command. The argument of a label is written with or without the sigil of a
name, while a jump needs the sigil; when both can be read from the same text, they give the same
name. So a jump leads to the last line that declares the name behind it.

Main statements:
* `Program.label?_eq_some_iff_isGreatest`: where labels lead, in terms of commands.
* `Argument.parseLabels_of_parseAll`: a list of one name reads the same as the argument of a label.
* `Reader.action?_of_load`: the actions of a loaded program, in terms of lines.
* `Program.label_resolution`: labels, the entry, and where jumps lead.
-/

namespace Trapline

/-- The command at a place declares a name. -/
def Command.DeclaresAt (commands : List Command) (name : Name) (place : Nat) : Prop :=
  ∃ c, commands[place]? = some c ∧ c.name = labelName ∧ c.args = [.ident name]

/-- A statement declares a name exactly when its command has the keyword of a label and the name as
its only argument. -/
theorem Statement.action_eq_label_iff
    {c : Command}
    {s : Statement}
    {name : Name}
    (h : ofCommand c = .ok s) :
    s.action = .label name ↔ c.name = Command.labelName ∧ c.args = [.ident name] := by
  obtain ⟨hop, hargs, -⟩ := eq_of_ofCommand h
  rw [Op.ofName?_eq_some_iff] at hop
  constructor
  · intro haction
    have hlabel : s.op = .label := by
      rw [← s.op_action, haction]
      rfl
    refine ⟨?_, ?_⟩
    · rw [← hop, hlabel]
      rfl
    · rw [← hargs, ← s.args_action, haction]
      rfl
  · rintro ⟨hname, hargs'⟩
    have hlabel : s.op = .label := by
      have hfound : Op.ofName? c.name = some .label := Op.ofName?_eq_some_iff.2 hname.symm
      rw [← hop, Op.ofName?_name] at hfound
      exact Option.some.inj hfound
    have hdecode := s.decode?_eq_action
    rw [hlabel, hargs, hargs'] at hdecode
    exact (Option.some.inj hdecode).symm

namespace Program

variable {commands : List Command} {p : Program}

theorem size_of_ofCommands
    (h : ofCommands commands = .ok p) :
    p.size = commands.length := by
  rw [(forall₂_of_mapM (code_of_ofCommands h)).length_eq, Array.length_toList]
  rfl

theorem action?_eq_label_iff_declaresAt
    (h : ofCommands commands = .ok p)
    {name : Name}
    {place : Nat} :
    p.action? place = some (.label name) ↔ Command.DeclaresAt commands name place := by
  constructor
  · intro haction
    obtain ⟨s, hs, haction⟩ := Option.map_eq_some_iff.1 haction
    obtain ⟨c, hc, hcheck⟩ := command_of_get? h hs
    exact ⟨c, hc, (Statement.action_eq_label_iff hcheck).1 haction⟩
  · rintro ⟨c, hc, hdeclares⟩
    obtain ⟨s, hs, hcheck⟩ := exists_getElem?_of_mapM (code_of_ofCommands h) hc
    rw [Array.getElem?_toList] at hs
    have haction := (Statement.action_eq_label_iff hcheck).2 hdeclares
    exact Option.map_eq_some_iff.2 ⟨s, hs, haction⟩

/-- A label leads to the greatest position that declares it. -/
theorem label?_eq_some_iff_isGreatest
    {name : Name}
    {target : Nat} :
    p.label? name = some target ↔
      IsGreatest {place | p.action? place = some (.label name)} target := by
  rw [label?_eq_some_iff]
  constructor
  · rintro ⟨htarget, hlater⟩
    refine ⟨htarget, fun place hplace => ?_⟩
    by_contra hlt
    exact hlater place (Nat.lt_of_not_le hlt) hplace
  · rintro ⟨htarget, hupper⟩
    refine ⟨htarget, fun later hlt hlater => ?_⟩
    exact absurd (hupper hlater) (Nat.not_le_of_lt hlt)

end Program

namespace Argument

/-- A name is read from its sigil and the name itself. -/
theorem eq_of_parse_ident
    {text : List Char}
    {name : Name}
    (h : parse text = .ok (.ident name)) :
    text = ':' :: name.toList := by
  unfold parse at h
  split at h
  · cases h
  · rename_i sigil rest
    split at h
    · cases hread : Integer.read rest with
      | error fault =>
          rw [hread] at h
          cases h
      | ok n =>
          rw [hread] at h
          cases h
    · split at h
      · cases h
      · split at h
        · split at h
          · cases h
          · cases h
        · split at h
          · cases h
          · split at h
            · rename_i hsigil
              cases h
              rw [hsigil, String.toList_ofList]
            · cases h

/-- As the argument of a label, a name with its sigil reads as the same name, if it is not empty. -/
theorem parseLabel_of_parse
    {text : List Char}
    {name : Name}
    {v : Value}
    (h : parse text = .ok (.ident name))
    (hlabel : parseLabel text = .ok v) :
    v = .ident name := by
  rw [eq_of_parse_ident h, parseLabel, List.head?_cons, if_pos rfl, List.tail_cons] at hlabel
  split at hlabel
  · cases hlabel
  · cases hlabel
    rw [String.ofList_toList]

/-- A list of one name reads the same as the argument of a label. -/
theorem parseLabels_of_parseAll
    {text : List Char}
    {name : Name}
    {args : List Value}
    (h : parseAll text = .ok [.ident name])
    (hlabel : parseLabels text = .ok args) :
    args = [.ident name] := by
  have hparse := forall₂_of_mapM h
  have hlabels := forall₂_of_mapM hlabel
  obtain ⟨piece, hpiece, hpieces⟩ : ∃ piece,
      parse (Text.trim piece) = .ok (.ident name) ∧ pieces text = [piece] := by
    obtain ⟨piece, rest, hpiece, hrest, hpieces⟩ := List.forall₂_cons_right_iff.1 hparse
    cases hrest
    exact ⟨piece, hpiece, hpieces⟩
  rw [hpieces] at hlabels
  obtain ⟨v, rest, hv, hrest, rfl⟩ := List.forall₂_cons_left_iff.1 hlabels
  cases hrest
  rw [parseLabel_of_parse hpiece hv]

end Argument

/-- A line with the keyword of an operation is read from the text behind its colon. -/
theorem Command.args_of_line
    {op : Op}
    {argument : String}
    {l : Location}
    {c : Command}
    (h : parse (op.name ++ ": " ++ argument) l = .ok c) :
    c.name = op.name ∧
    (if op = .label then Argument.parseLabels (Text.trim argument.toList)
      else Argument.parseAll (Text.trim argument.toList)) = .ok c.args := by
  have hline :
      (op.name ++ ": " ++ argument).toList = op.name.toList ++ ':' :: ' ' :: argument.toList := by
    simp
  have hcolon : ':' ∉ op.name.toList := by
    cases op <;> decide
  have hidle : isIdle (op.name ++ ": " ++ argument).toList = false := by
    rw [hline]
    cases op <;> exact isIdle_of_head? (by decide) (by decide) rfl
  have hkeyword : keyword (op.name ++ ": " ++ argument).toList = op.name := by
    rw [hline, keyword_append_colon hcolon]
    cases op <;> decide
  refine ⟨(name_of_parse hidle h).trans hkeyword, ?_⟩
  have hargs := args_of_parse hidle h
  rw [hkeyword, parseArguments, hline, argumentText_append_colon hcolon,
    Text.trim_cons_of_isBlank (by decide)] at hargs
  cases op <;> exact hargs

/-- A label and a jump with the same argument text have the same name. -/
theorem Command.args_of_label_and_jump
    {argument : String}
    {l l' : Location}
    {c c' : Command}
    {s' : Statement}
    (hc : parse ("label: " ++ argument) l = .ok c)
    (hc' : parse ("jmp: " ++ argument) l' = .ok c')
    (hs' : Statement.ofCommand c' = .ok s') :
    ∃ name,
      (c.name = labelName ∧ c.args = [.ident name]) ∧
      c'.args = [.ident name] ∧
      s'.action = .jump name := by
  have hlabelLine : "label: " ++ argument = Op.label.name ++ ": " ++ argument := rfl
  have hjumpLine : "jmp: " ++ argument = Op.jump.name ++ ": " ++ argument := rfl
  rw [hlabelLine] at hc
  rw [hjumpLine] at hc'
  obtain ⟨hname, hlabel⟩ := args_of_line hc
  obtain ⟨hname', hjump⟩ := args_of_line hc'
  rw [if_pos rfl] at hlabel
  rw [if_neg (by decide)] at hjump
  -- a checked jump has one name as its argument
  obtain ⟨hop, hargs, -⟩ := Statement.eq_of_ofCommand hs'
  rw [hname', Op.ofName?_name] at hop
  have hdecode := s'.decode?_eq_action
  rw [← Option.some.inj hop, hargs] at hdecode
  obtain ⟨name, hident, haction⟩ := Action.eq_of_ofName hdecode
  rw [hident] at hjump
  exact ⟨name, ⟨hname, Argument.parseLabels_of_parseAll hjump hlabel⟩, hident, haction⟩

/-- The text of a line stands for one action at most. -/
theorem Reads.unique
    {text : String}
    {a a' : Action}
    (h : Reads text a)
    (h' : Reads text a') :
    a' = a := by
  obtain ⟨c, hc, s, hs, rfl⟩ := (reads_iff default).1 h
  obtain ⟨c', hc', s', hs', rfl⟩ := (reads_iff default).1 h'
  rw [hc] at hc'
  cases hc'
  rw [hs] at hs'
  cases hs'
  rfl

namespace Reader

variable {read : Reader} {entry : String} {p : Program} {lines : List SourceLine}

/-- Every line of a loaded program stands for the action at its place. -/
theorem reads_of_load
    (hload : read.load entry = .ok p)
    (hlines : read.loadLines entry = .ok lines)
    {place : Nat}
    {line : SourceLine}
    (hline : lines[place]? = some line) :
    ∃ a, p.action? place = some a ∧ Reads line.text a := by
  obtain ⟨commands, hcommands, hp⟩ := bind_eq_ok_iff.1 hload
  obtain ⟨lines', hlines', hparse⟩ := bind_eq_ok_iff.1 hcommands
  rw [hlines] at hlines'
  cases hlines'
  obtain ⟨c, hc, hread⟩ := exists_getElem?_of_mapM hparse hline
  obtain ⟨s, hs, hcheck⟩ := exists_getElem?_of_mapM (Program.code_of_ofCommands hp) hc
  rw [Array.getElem?_toList] at hs
  refine ⟨s.action, ?_, line.location, c, hread, s, hcheck, rfl⟩
  rw [Program.action?, Program.get?, hs, Option.map_some]

/-- The action at a position of a loaded program is that of the line at the same place. -/
theorem action?_of_load
    (hload : read.load entry = .ok p)
    (hlines : read.loadLines entry = .ok lines)
    {place : Nat}
    {a : Action} :
    p.action? place = some a ↔ ∃ line, lines[place]? = some line ∧ Reads line.text a := by
  constructor
  · intro haction
    obtain ⟨s, hs, rfl⟩ := Option.map_eq_some_iff.1 haction
    obtain ⟨lines', line, c, hlines', hline, hc, hcheck⟩ := line_of_load hload hs
    rw [hlines] at hlines'
    cases hlines'
    exact ⟨line, hline, line.location, c, hc, s, hcheck, rfl⟩
  · rintro ⟨line, hline, hreads⟩
    obtain ⟨a', haction, hreads'⟩ := reads_of_load hload hlines hline
    rw [haction, hreads.unique hreads']

end Reader

/-- Lines with a label and a jump that have the same argument text stand for the same name. -/
theorem reads_label_and_jump
    {argument : String}
    {a a' : Action}
    (h : Reads ("label: " ++ argument) a)
    (h' : Reads ("jmp: " ++ argument) a') :
    ∃ name, a = .label name ∧ a' = .jump name := by
  obtain ⟨l, c, hc, s, hs, rfl⟩ := h
  obtain ⟨l', c', hc', s', hs', rfl⟩ := h'
  obtain ⟨name, hlabel, -, hjump⟩ := Command.args_of_label_and_jump hc hc' hs'
  exact ⟨name, (Statement.action_eq_label_iff hs).2 hlabel, hjump⟩

/-- A jump leads to the position of its label. -/
theorem Machine.step_of_jump
    {σ : Type}
    [Sink σ]
    {p : Program}
    {limit : Option Nat}
    {m : Machine σ}
    {name : Name}
    {target : Nat}
    (h : m.Executes p limit (.jump name))
    (htarget : p.label? name = some target) :
    m.step p limit =
      .running { m with position := target, jumped := false, steps := m.steps + 1 } := by
  obtain ⟨s, -, hstep⟩ := step_of_executes h
  rw [hstep, exec, jump, htarget]
  rfl

namespace Program

/-- What the labels, the positions and the entry of a program are, in terms of the commands that it
is made of. -/
structure Resolves (p : Program) (commands : List Command) : Prop where
  /-- A label leads to the last command that declares it, -/
  label?_eq_some : ∀ name target,
    p.label? name = some target ↔ IsGreatest {place | Command.DeclaresAt commands name place} target
  /-- and nowhere if there is none. -/
  label?_eq_none : ∀ name,
    p.label? name = none ↔ ∀ place, ¬ Command.DeclaresAt commands name place
  size_eq : p.size = commands.length
  isSome_get? : ∀ position, (p.get? position).isSome = true ↔ position < p.size
  entry_eq : p.label? "main" = some p.entry ∨ p.label? "main" = none ∧ p.entry = 0
  entry_le : p.entry ≤ p.size

theorem resolves_of_ofCommands
    {commands : List Command}
    {p : Program}
    (h : ofCommands commands = .ok p) :
    p.Resolves commands where
  label?_eq_some := by
    intro name target
    simp only [label?_eq_some_iff_isGreatest, action?_eq_label_iff_declaresAt h]
  label?_eq_none := by
    intro name
    simp only [label?_eq_none_iff, ne_eq, action?_eq_label_iff_declaresAt h]
  size_eq := size_of_ofCommands h
  isSome_get? := by
    intro position
    simp [get?, size]
  entry_eq := by
    have hentry : p.entry = (p.label? "main").getD 0 := rfl
    rw [hentry]
    cases p.label? "main" with
    | some target => exact .inl rfl
    | none => exact .inr ⟨rfl, rfl⟩
  entry_le := p.entry_le_size

/-- **Where labels lead.** In a program made of commands a label leads to the last command that
declares it, and nowhere if none does. Its positions are those of the commands, and its entry is the
position of the label `main`, or zero when it is not declared.

A label and a jump with the same argument text, where both can be read and the jump is well formed,
have the same name. So in a program that is loaded the jump leads to the last of all lines that
declare this name, in the order in which the imports are spliced in. -/
theorem label_resolution :
    (∀ (commands : List Command) (p : Program),
      ofCommands commands = .ok p → p.Resolves commands) ∧
    (∀ (argument : String) (l l' : Location) (c c' : Command) (s' : Statement),
      Command.parse ("label: " ++ argument) l = .ok c →
      Command.parse ("jmp: " ++ argument) l' = .ok c' → Statement.ofCommand c' = .ok s' →
      ∃ name, c.args = [.ident name] ∧ c'.args = [.ident name]) ∧
    ∀ (read : Reader) (entry : String) (p : Program) (lines : List SourceLine),
      read.load entry = .ok p → read.loadLines entry = .ok lines →
      ∀ (argument : String) (i j : Nat),
        lines[i]?.map SourceLine.text = some ("jmp: " ++ argument) →
        lines[j]?.map SourceLine.text = some ("label: " ++ argument) →
        ∃ name target,
          Reads ("jmp: " ++ argument) (.jump name) ∧
          Reads ("label: " ++ argument) (.label name) ∧
          IsGreatest {k | ∃ line, lines[k]? = some line ∧ Reads line.text (.label name)} target ∧
          ∀ (σ : Type) [Sink σ] (limit : Option Nat) (m : Machine σ),
            m.position = i → limit.filter (· < m.steps + 1) = none →
            m.step p limit =
              .running { m with position := target, jumped := false, steps := m.steps + 1 } := by
  refine ⟨fun commands p => resolves_of_ofCommands, ?_, ?_⟩
  · intro argument l l' c c' s' hc hc' hs'
    obtain ⟨name, hlabel, hjump, -⟩ := Command.args_of_label_and_jump hc hc' hs'
    exact ⟨name, hlabel.2, hjump⟩
  · intro read entry p lines hload hlines argument i j hi hj
    obtain ⟨jumpLine, hi, hjumpText⟩ := Option.map_eq_some_iff.1 hi
    obtain ⟨labelLine, hj, hlabelText⟩ := Option.map_eq_some_iff.1 hj
    obtain ⟨a', hjump, hreads'⟩ := Reader.reads_of_load hload hlines hi
    obtain ⟨a, hlabel, hreads⟩ := Reader.reads_of_load hload hlines hj
    rw [hjumpText] at hreads'
    rw [hlabelText] at hreads
    obtain ⟨name, rfl, rfl⟩ := reads_label_and_jump hreads hreads'
    -- the name is declared, so it leads somewhere
    obtain ⟨target, htarget⟩ : ∃ target, p.label? name = some target := by
      rw [← Option.ne_none_iff_exists', ne_eq, label?_eq_none_iff, not_forall]
      exact ⟨j, not_not.2 hlabel⟩
    have hgreatest := label?_eq_some_iff_isGreatest.1 htarget
    simp only [Reader.action?_of_load hload hlines] at hgreatest
    refine ⟨name, target, hreads', hreads, hgreatest, ?_⟩
    rintro σ _ limit m rfl hlimit
    exact Machine.step_of_jump ⟨hjump, hlimit⟩ htarget

/-- A script that declares a label twice, the second time in a part that it imports. -/
def declaredTwice : Reader := fun path =>
  if path = "main" then .ok ["label: :spot", "!import part", "jmp: :spot"]
  else .ok ["label: spot", "# part"]

/-- The script loads, and its jump leads to the last line that declares the label of its first
line. -/
theorem label_resolution_of_declaredTwice :
    ∃ commands p lines name target,
      declaredTwice.loadCommands "main" = .ok commands ∧
      ofCommands commands = .ok p ∧
      p.Resolves commands ∧
      declaredTwice.loadLines "main" = .ok lines ∧
      Reads "jmp: :spot" (.jump name) ∧
      Reads "label: :spot" (.label name) ∧
      IsGreatest {k | ∃ line : SourceLine, lines[k]? = some line ∧ Reads line.text (.label name)}
        target ∧
      Machine.step p none { Machine.start p (#[] : Array String) with position := 3 } =
        .running { Machine.start p (#[] : Array String) with position := target, steps := 1 } := by
  have htexts :
      (declaredTwice.loadLines "main").toOption.map (List.map SourceLine.text) =
        some ["label: :spot", "label: spot", "# part", "jmp: :spot"] := by
    decide +kernel
  have hloads : (declaredTwice.load "main").isOk = true := by
    decide +kernel
  obtain ⟨p, hp⟩ := exists_of_isOk hloads
  obtain ⟨commands, hcommands, hof⟩ := bind_eq_ok_iff.1 hp
  obtain ⟨lines, hlines, -⟩ := bind_eq_ok_iff.1 hcommands
  rw [hlines] at htexts
  have hmap : lines.map SourceLine.text = ["label: :spot", "label: spot", "# part", "jmp: :spot"] :=
    Option.some.inj htexts
  have hjump : lines[3]?.map SourceLine.text = some ("jmp: " ++ ":spot") := by
    rw [← List.getElem?_map, hmap]
    rfl
  have hlabel : lines[0]?.map SourceLine.text = some ("label: " ++ ":spot") := by
    rw [← List.getElem?_map, hmap]
    rfl
  obtain ⟨name, target, hreads, hreads', hgreatest, hstep⟩ :=
    label_resolution.2.2 declaredTwice "main" p lines hp hlines ":spot" 3 0 hjump hlabel
  have hresolves := label_resolution.1 commands p hof
  exact ⟨commands, p, lines, name, target, hcommands, hof, hresolves, hlines, hreads, hreads',
    hgreatest, hstep (Array String) none _ rfl rfl⟩

end Program
end Trapline
