import Trapline.Proofs.Written

/-!
# Programs given line by line

A text is made of lines by putting line feeds between them. The lines come back when the text is
split, provided that none of them has a line feed in it or a carriage return at its end
(`Text.IsLine`) and that the last one is not empty. So a list of lines that stand for actions is a
program of these actions.

Main statements:
* `Text.lines_intercalate`: joined lines are split again.
* `Command.reads_of_written`: a keyword with written arguments stands for an action.
* `Program.exists_ofText_of_reads`: a listing of actions loads.
-/

namespace Trapline

namespace Text

/-- A text that can stand on a line of its own. -/
structure IsLine (text : List Char) : Prop where
  no_lineFeed : '\n' ∉ text
  last : text.getLast? ≠ some '\r'

instance (text : List Char) : Decidable (IsLine text) :=
  decidable_of_iff ('\n' ∉ text ∧ text.getLast? ≠ some '\r')
    ⟨fun h => ⟨h.1, h.2⟩, fun h => ⟨h.no_lineFeed, h.last⟩⟩

theorem IsLine.append
    {front back : List Char}
    (hfront : '\n' ∉ front)
    (hback : IsLine back)
    (hne : back ≠ []) :
    IsLine (front ++ back) where
  no_lineFeed := by
    rw [List.mem_append, not_or]
    exact ⟨hfront, hback.no_lineFeed⟩
  last := by
    rw [List.getLast?_append_of_ne_nil front hne]
    exact hback.last

theorem splitLines_cons
    {c : Char}
    {text line : List Char}
    {lines : List (List Char)}
    (hc : c ≠ '\n')
    (hreturn : c = '\r' → text.head? ≠ some '\n')
    (h : splitLines text = line :: lines) :
    splitLines (c :: text) = (c :: line) :: lines := by
  rw [splitLines_cons_eq hc hreturn, h]
  rfl

/-- A line and the line feed behind it are split off. -/
theorem splitLines_append
    {line : List Char}
    (hline : IsLine line)
    (rest : List Char) :
    splitLines (line ++ '\n' :: rest) = line :: splitLines rest := by
  induction line with
  | nil =>
      exact splitLines_lineFeed rest
  | cons c chars ih =>
      obtain ⟨hfeed, hlast⟩ := hline
      rw [List.mem_cons, not_or] at hfeed
      cases chars with
      | nil =>
          refine splitLines_cons (Ne.symm hfeed.1) ?_ (splitLines_lineFeed rest)
          rintro rfl
          exact absurd rfl hlast
      | cons d chars =>
          refine splitLines_cons (Ne.symm hfeed.1) ?_ (ih ⟨hfeed.2, ?_⟩)
          · rintro - hd
            exact hfeed.2 (Option.some.inj hd ▸ List.mem_cons_self)
          · rwa [List.getLast?_cons_cons] at hlast

theorem splitLines_of_not_mem
    {line : List Char}
    (hfeed : '\n' ∉ line)
    (hne : line ≠ []) :
    splitLines line = [line] := by
  induction line with
  | nil =>
      exact absurd rfl hne
  | cons c chars ih =>
      rw [List.mem_cons, not_or] at hfeed
      cases chars with
      | nil =>
          rw [splitLines]
          · rfl
          · rintro rest - h
            cases h
          · exact Ne.symm hfeed.1
      | cons d chars =>
          refine splitLines_cons (Ne.symm hfeed.1) ?_ (ih hfeed.2 (List.cons_ne_nil d chars))
          rintro - hd
          exact hfeed.2 (Option.some.inj hd ▸ List.mem_cons_self)

theorem splitLines_intercalate
    {texts : List (List Char)}
    (hlines : ∀ t ∈ texts, IsLine t)
    (hlast : texts.getLast? ≠ some []) :
    splitLines (['\n'].intercalate texts) = texts := by
  induction texts with
  | nil =>
      rfl
  | cons text rest ih =>
      rw [List.forall_mem_cons] at hlines
      cases rest with
      | nil =>
          rw [List.intercalate_singleton]
          refine splitLines_of_not_mem hlines.1.no_lineFeed ?_
          rintro rfl
          exact hlast rfl
      | cons next rest =>
          rw [List.intercalate_cons_cons, List.append_assoc, List.singleton_append,
            splitLines_append hlines.1, ih hlines.2]
          rwa [List.getLast?_cons_cons] at hlast

/-- Lines with line feeds between them are the lines of the text. -/
theorem lines_intercalate
    {texts : List String}
    (hlines : ∀ t ∈ texts, IsLine t.toList)
    (hlast : texts.getLast? ≠ some "") :
    lines ("\n".intercalate texts) = texts := by
  have hsplit : splitLines (['\n'].intercalate (texts.map String.toList))
      = texts.map String.toList := by
    apply splitLines_intercalate
    · exact List.forall_mem_map.2 hlines
    · rw [List.getLast?_map]
      intro hnil
      obtain ⟨t, ht, htext⟩ := Option.map_eq_some_iff.1 hnil
      exact hlast (ht.trans (congrArg some (String.toList_eq_nil_iff.1 htext)))
  have hfeed : "\n".toList = ['\n'] := rfl
  rw [lines, String.toList_intercalate, hfeed, hsplit, List.map_map]
  simp

end Text

instance (text : List Char) : Decidable (Argument.IsPayload text) :=
  decidable_of_iff (',' ∉ text ∧ text.getLast?.all (!Text.isBlank ·) = true)
    ⟨fun h => ⟨h.1, by simpa [Option.all_eq_true] using h.2⟩,
      fun h => ⟨h.no_comma, by simpa [Option.all_eq_true] using h.last⟩⟩

namespace Command

/-- What the text of a line stands for. -/
def action? (text : String) : Option Action :=
  (parse text default).toOption.bind fun c =>
    (Statement.ofCommand c).toOption.map Statement.action

theorem action?_eq_some_iff
    {text : String}
    {a : Action} :
    action? text = some a ↔ Reads text a := by
  rw [reads_iff default]
  unfold action?
  cases parse text default with
  | error e =>
      exact ⟨nofun, nofun⟩
  | ok c =>
      rw [Except.toOption, Option.bind_some]
      cases hs : Statement.ofCommand c with
      | error e =>
          simp [Except.toOption, hs]
      | ok s =>
          simp [Except.toOption, hs]

/-- Lines stand for actions if these are what is computed from them. -/
theorem reads_of_map_action?
    {texts : List String}
    {actions : List Action}
    (h : texts.map action? = actions.map some) :
    List.Forall₂ Reads texts actions :=
  (map_eq_map_iff_forall₂.1 h).flip.imp fun _ _ => action?_eq_some_iff.1

/-- A keyword, a colon and written arguments with commas between them stand for an action. -/
theorem reads_of_written
    {k : Name}
    {args : List Value}
    {tokens : List String}
    {text : String}
    {a : Action}
    (hk : IsKeyword k)
    (hargs : List.Forall₂ Argument.Written args tokens)
    (htext : text = k ++ ": " ++ ", ".intercalate tokens)
    (haction :
      ∃ s, Statement.ofCommand { name := k, args, location := default } = .ok s ∧ s.action = a) :
    Reads text a := by
  have htokens := Argument.isToken_of_written hargs
  have hlist := Argument.parseAll_of_written hargs 0
  have hfirm := Argument.isFirm_listed htokens 0
  rw [List.replicate_zero, List.append_nil] at hlist hfirm
  have hline :
      text.toList =
        k.toList ++ ':' :: ' ' :: [',', ' '].intercalate (tokens.map String.toList) := by
    simp [htext, String.toList_intercalate]
  have harguments : parseArguments k text.toList = .ok args := by
    rw [parseArguments, if_neg hk.ne_label, hline, hk.argumentText_eq,
      Text.trim_cons_of_isBlank (by decide), Text.trim_of_isFirm hfirm]
    exact hlist
  refine ⟨default, _, ?_, haction⟩
  rw [hline] at harguments
  simp [parse, hline, hk.isIdle_eq, hk.keyword_eq, harguments]

end Command

/-- Lines that stand for actions are the listing of a program. -/
theorem Program.exists_ofText_of_reads
    {texts : List String}
    {actions : List Action}
    (hreads : List.Forall₂ Reads texts actions)
    (hlines : ∀ t ∈ texts, Text.IsLine t.toList)
    (hlast : texts.getLast? ≠ some "")
    (file : String) :
    ∃ p, ofText ("\n".intercalate texts) file = .ok p ∧ p.actions = actions := by
  have hread :
      Reader.ofTexts [(file, "\n".intercalate texts)] file = .ok texts := by
    simp [Reader.ofTexts, Text.lines_intercalate hlines hlast]
  refine Reader.exists_load_iff.2 ⟨texts, texts.map ([·]), hread, ?_, ?_⟩
  · -- a directive stands for no action
    rw [List.forall₂_map_right_iff, List.forall₂_same]
    intro t ht
    obtain ⟨a, -, ha⟩ := exists_of_mem_forall₂ hreads ht
    cases hdirective : SourceLine.directive? t with
    | none =>
        exact .line hdirective
    | some path =>
        exact absurd ha (not_reads_of_directive hdirective a)
  · rwa [← List.flatMap_def, List.flatMap_singleton']

end Trapline
