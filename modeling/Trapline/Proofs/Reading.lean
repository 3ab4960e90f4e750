import Trapline.Proofs.Execution
import Trapline.Proofs.Loading

/-!
# What lines stand for

Where a line stands matters for messages only. Apart from that a line of the entry file stands for
the texts of some lines (`Reader.Splices`): for its own, or for those of the file that it imports.
The text of a line stands for an action (`Reads`).

Main statements:
* `Reader.exists_load_iff`: a file loads exactly when its lines stand for something, and the actions
  of the program are what they stand for, in order.
* `not_reads_of_directive`: an import directive is no command.
* `Reader.imported_of_directive`: so the lines of an imported file cannot import anything.
-/

namespace Trapline

/-- Trimming keeps a first character that is not blank. -/
theorem Text.head?_trim
    {c : Char}
    {text : List Char}
    (hc : isBlank c = false)
    (h : text.head? = some c) :
    (trim text).head? = some c := by
  obtain ⟨rest, rfl⟩ := List.head?_eq_some_iff.1 h
  have hstart : trimStart (c :: rest) = c :: rest :=
    List.dropWhile_cons_of_neg (by simp [hc])
  rw [trim, hstart, trimEnd, List.reverse_cons, List.dropWhile_append]
  split
  · simp [hc]
  · simp

/-- The keyword of no operation starts with an exclamation mark. -/
theorem Op.head?_ne_of_ofName?
    {name : Name}
    {op : Op}
    (h : ofName? name = some op) :
    name.toList.head? ≠ some '!' := by
  obtain rfl := ofName?_eq_some_iff.1 h
  cases op <;> decide

namespace Program

/-- The actions of a program, in order. -/
def actions (p : Program) : List Action :=
  p.code.toList.map Statement.action

theorem getElem?_actions
    (p : Program)
    (position : Nat) :
    p.actions[position]? = p.action? position := by
  simp [actions, action?, get?]

end Program

namespace SourceLine

/-- The path behind the word of an import directive. -/
def directive? (text : String) : Option String :=
  (importWord.toList.isPrefixOf? text.toList).map fun rest => String.ofList (Text.trim rest)

theorem map_text_numberFrom
    (file : String)
    (line : Nat)
    (texts : List String) :
    (numberFrom file line texts).map text = texts := by
  induction texts generalizing line with
  | nil =>
      rfl
  | cons first rest ih =>
      rw [numberFrom, List.map_cons, ih]

/-- A directive starts with an exclamation mark. -/
theorem head?_of_directive
    {text path : String}
    (h : directive? text = some path) :
    text.toList.head? = some '!' := by
  obtain ⟨rest, hrest, -⟩ := Option.map_eq_some_iff.1 h
  cases hchars : text.toList with
  | nil =>
      rw [hchars] at hrest
      cases hrest
  | cons c chars =>
      rw [hchars] at hrest
      by_cases hc : c = '!'
      · rw [hc]
        rfl
      · have hword : importWord.toList = '!' :: "import".toList := rfl
        simp [hword, List.isPrefixOf?, Ne.symm hc] at hrest

end SourceLine

/-- The text of a line stands for an action. -/
def Reads (text : String) (a : Action) : Prop :=
  ∃ l c, Command.parse text l = .ok c ∧ ∃ s, Statement.ofCommand c = .ok s ∧ s.action = a

namespace Command

/-- A line reads the same wherever it stands. -/
theorem parse_relocate
    {text : String}
    {l : Location}
    {c : Command}
    (h : parse text l = .ok c)
    (l' : Location) :
    parse text l' = .ok { c with location := l' } := by
  unfold parse at h ⊢
  dsimp only at h ⊢
  split at h
  · rename_i hidle
    cases h
    rw [if_pos hidle]
  · rename_i hidle
    rw [if_neg hidle]
    split at h
    · cases h
      rfl
    · cases h

theorem isIdle_of_head?
    {c : Char}
    {text : List Char}
    (hblank : Text.isBlank c = false)
    (hcomment : c ≠ '#')
    (h : text.head? = some c) :
    isIdle text = false := by
  have htrim : Text.trim text ≠ [] := by
    intro hnil
    have hhead := Text.head?_trim hblank h
    rw [hnil] at hhead
    cases hhead
  simp [isIdle, htrim, h, hcomment]

/-- The keyword of a line starts as the line does. -/
theorem head?_keyword
    {c : Char}
    {text : List Char}
    (hblank : Text.isBlank c = false)
    (hcolon : c ≠ ':')
    (h : text.head? = some c) :
    (keyword text).toList.head? = some c := by
  obtain ⟨rest, rfl⟩ := List.head?_eq_some_iff.1 h
  rw [keyword, String.toList_ofList]
  apply Text.head?_trim hblank
  simp [hcolon]

/-- The keyword of a line is the word before its first colon. -/
theorem keyword_append_colon
    {word : List Char}
    (h : ':' ∉ word)
    (rest : List Char) :
    keyword (word ++ ':' :: rest) = String.ofList (Text.trim word) := by
  have hword : ∀ c ∈ word, (c != ':') = true :=
    fun c hc => bne_iff_ne.2 fun heq => h (heq ▸ hc)
  rw [keyword, List.takeWhile_append_of_pos hword, List.takeWhile_cons_of_neg (by simp),
    List.append_nil]

/-- The argument text of a line is what stands behind its first colon. -/
theorem argumentText_append_colon
    {word : List Char}
    (h : ':' ∉ word)
    (rest : List Char) :
    argumentText (word ++ ':' :: rest) = Text.trim rest := by
  have hword : ∀ c ∈ word, (c != ':') = true :=
    fun c hc => bne_iff_ne.2 fun heq => h (heq ▸ hc)
  rw [argumentText, List.dropWhile_append_of_pos hword, List.dropWhile_cons_of_neg (by simp),
    List.tail_cons]

theorem name_of_parse
    {text : String}
    {l : Location}
    {c : Command}
    (hidle : isIdle text.toList = false)
    (h : parse text l = .ok c) :
    c.name = keyword text.toList := by
  simp only [parse, hidle, Bool.false_eq_true, if_false] at h
  split at h
  · cases h
    rfl
  · cases h

theorem args_of_parse
    {text : String}
    {l : Location}
    {c : Command}
    (hidle : isIdle text.toList = false)
    (h : parse text l = .ok c) :
    parseArguments (keyword text.toList) text.toList = .ok c.args := by
  simp only [parse, hidle, Bool.false_eq_true, if_false] at h
  split at h
  · rename_i args hargs
    cases h
    exact hargs
  · cases h

end Command

/-- What the text of a line stands for does not depend on where the line stands. -/
theorem reads_iff
    {text : String}
    {a : Action}
    (l : Location) :
    Reads text a ↔
      ∃ c, Command.parse text l = .ok c ∧ ∃ s, Statement.ofCommand c = .ok s ∧ s.action = a := by
  constructor
  · rintro ⟨l', c, hc, s, hs, rfl⟩
    obtain ⟨hop, hargs, -⟩ := Statement.eq_of_ofCommand hs
    have hs' : Statement.ofCommand { c with location := l } = .ok { s with location := l } :=
      Statement.ofCommand_of_eq hop hargs rfl
    exact ⟨_, Command.parse_relocate hc l, _, hs', rfl⟩
  · rintro ⟨c, h⟩
    exact ⟨l, c, h⟩

/-- An import directive is no command. -/
theorem not_reads_of_directive
    {text path : String}
    (h : SourceLine.directive? text = some path)
    (a : Action) :
    ¬ Reads text a := by
  rintro ⟨l, c, hc, s, hs, -⟩
  have hhead := SourceLine.head?_of_directive h
  have hblank : Text.isBlank '!' = false := by decide
  have hidle := Command.isIdle_of_head? hblank (by decide) hhead
  have hkeyword := Command.head?_keyword hblank (by decide) hhead
  obtain ⟨hop, -⟩ := Statement.eq_of_ofCommand hs
  rw [Command.name_of_parse hidle hc] at hop
  exact Op.head?_ne_of_ofName? hop hkeyword

/-- The text of a line in the entry file stands for the texts of lines: its own if it is no
directive, else those of the file that it names. -/
inductive Reader.Splices (read : Reader) (text : String) : List String → Prop
  | line
      (h : SourceLine.directive? text = none) :
      Splices read text [text]
  | file
      {path : String} {texts : List String}
      (hdirective : SourceLine.directive? text = some path)
      (hpath : path.isEmpty = false)
      (hread : read path = .ok texts) :
      Splices read text texts

namespace Reader

variable {read : Reader}

/-- Splicing a line gives the texts that its text stands for. -/
theorem splices_iff
    {line : SourceLine}
    {texts : List String} :
    read.Splices line.text texts ↔
      ∃ part, read.splice line = .ok part ∧ part.map SourceLine.text = texts := by
  have hdirective : line.importPath? = SourceLine.directive? line.text := rfl
  constructor
  · intro h
    cases h with
    | line h =>
        exact ⟨[line], by simp [splice, hdirective, h], rfl⟩
    | @file path _ h hpath hread =>
        refine ⟨SourceLine.number path texts, ?_, SourceLine.map_text_numberFrom path 1 texts⟩
        simp [splice, hdirective, h, hpath, hread]
  · rintro ⟨part, hpart, rfl⟩
    unfold splice at hpart
    rw [hdirective] at hpart
    split at hpart
    · rename_i h
      cases hpart
      exact .line h
    · rename_i path h
      split at hpart
      · cases hpart
      · rename_i hpath
        split at hpart
        · rename_i texts hread
          cases hpart
          rw [SourceLine.number, SourceLine.map_text_numberFrom]
          exact .file h (by simpa using hpath) hread
        · cases hpart

/-- The lines of an entry file load exactly when their texts stand for texts. -/
theorem exists_loadLines_iff
    {entry : String}
    {texts : List String} :
    (∃ lines, read.loadLines entry = .ok lines ∧ lines.map SourceLine.text = texts) ↔
      ∃ entryTexts parts,
        read entry = .ok entryTexts ∧
        List.Forall₂ read.Splices entryTexts parts ∧
        parts.flatten = texts := by
  constructor
  · rintro ⟨lines, hlines, rfl⟩
    obtain ⟨entryTexts, hentry, hlines⟩ := bind_eq_ok_iff.1 hlines
    obtain ⟨parts, hparts, hlines⟩ := bind_eq_ok_iff.1 hlines
    cases hlines
    refine ⟨entryTexts, parts.map (List.map SourceLine.text), hentry, ?_, ?_⟩
    · rw [← SourceLine.map_text_numberFrom entry 1 entryTexts, List.forall₂_map_left_iff,
        List.forall₂_map_right_iff]
      exact (forall₂_of_mapM hparts).imp fun line part h => splices_iff.2 ⟨part, h, rfl⟩
    · rw [List.map_flatten]
  · rintro ⟨entryTexts, parts, hentry, hparts, rfl⟩
    rw [← SourceLine.map_text_numberFrom entry 1 entryTexts, List.forall₂_map_left_iff] at hparts
    obtain ⟨located, hlocated, htexts⟩ :=
      forall₂_exists_iff.1 (hparts.imp fun line part h => splices_iff.1 h)
    have hflat : located.map (List.map SourceLine.text) = parts := map_eq_of_forall₂ htexts
    subst hflat
    refine ⟨located.flatten, ?_, List.map_flatten⟩
    exact bind_eq_ok_iff.2
      ⟨entryTexts, hentry, bind_eq_ok_iff.2 ⟨located, mapM_of_forall₂ hlocated, rfl⟩⟩

/-- A file loads exactly when the lines of the entry file stand for texts and these for actions. The
program then consists of these actions, in order. -/
theorem exists_load_iff
    {entry : String}
    {actions : List Action} :
    (∃ p, read.load entry = .ok p ∧ p.actions = actions) ↔
      ∃ entryTexts parts,
        read entry = .ok entryTexts ∧
        List.Forall₂ read.Splices entryTexts parts ∧
        List.Forall₂ Reads parts.flatten actions := by
  constructor
  · rintro ⟨p, hp, rfl⟩
    obtain ⟨commands, hcommands, hp⟩ := bind_eq_ok_iff.1 hp
    obtain ⟨lines, hlines, hcommands⟩ := bind_eq_ok_iff.1 hcommands
    obtain ⟨entryTexts, parts, hentry, hparts, hflat⟩ :=
      exists_loadLines_iff.1 ⟨lines, hlines, rfl⟩
    refine ⟨entryTexts, parts, hentry, hparts, ?_⟩
    rw [hflat, Program.actions, List.forall₂_map_left_iff, List.forall₂_map_right_iff]
    have hpairs := forall₂_exists_iff.2
      ⟨commands, forall₂_of_mapM hcommands, forall₂_of_mapM (Program.code_of_ofCommands hp)⟩
    exact hpairs.imp fun line s ⟨c, hc, hs⟩ => ⟨line.location, c, hc, s, hs, rfl⟩
  · rintro ⟨entryTexts, parts, hentry, hparts, hreads⟩
    obtain ⟨lines, hlines, hflat⟩ :=
      exists_loadLines_iff.2 ⟨entryTexts, parts, hentry, hparts, rfl⟩
    rw [← hflat, List.forall₂_map_left_iff] at hreads
    obtain ⟨commands, hcommands, hchecked⟩ :=
      forall₂_exists_iff.1 (hreads.imp fun line a h => (reads_iff line.location).1 h)
    obtain ⟨code, hcode, hactions⟩ := forall₂_exists_iff.1 hchecked
    refine ⟨.ofCode code.toArray, ?_, map_eq_of_forall₂ hactions⟩
    have hload : read.loadCommands entry = .ok commands :=
      bind_eq_ok_iff.2 ⟨lines, hlines, mapM_of_forall₂ hcommands⟩
    exact bind_eq_ok_iff.2
      ⟨commands, hload, bind_eq_ok_iff.2 ⟨code, mapM_of_forall₂ hcode, rfl⟩⟩

/-- In a file that loads, every directive names a file that can be read, and no line of that file is
a directive: it would come back as a command. -/
theorem imported_of_directive
    {texts : List String}
    {parts : List (List String)}
    {actions : List Action}
    (hparts : List.Forall₂ read.Splices texts parts)
    (hreads : List.Forall₂ Reads parts.flatten actions)
    {text path : String}
    (htext : text ∈ texts)
    (hdirective : SourceLine.directive? text = some path) :
    path.isEmpty = false ∧
    ∃ imported, read path = .ok imported ∧ ∀ line ∈ imported, SourceLine.directive? line = none := by
  obtain ⟨part, hpart, hsplices⟩ := exists_of_mem_forall₂ hparts htext
  cases hsplices with
  | line h =>
      rw [hdirective] at h
      cases h
  | file h hpath hread =>
      rw [hdirective] at h
      cases h
      refine ⟨hpath, part, hread, fun line hline => ?_⟩
      obtain ⟨a, -, ha⟩ :=
        exists_of_mem_forall₂ hreads (List.mem_flatten.2 ⟨part, hpart, hline⟩)
      cases hnested : SourceLine.directive? line with
      | none =>
          rfl
      | some path' =>
          exact absurd ha (not_reads_of_directive hnested a)

end Reader

end Trapline
