import Mathlib.Data.List.Perm.Basic
import Trapline.Cli.Options

/-!
# The grammar of a command line

A command line is a sequence of groups: a flag, a step limit with its value, or a file. A group is
one or two arguments, and what an argument means depends on what stands before it: behind the option
for the step limit anything is its value. What the groups ask for (`Options.ofGroups`) is said of
the whole sequence and not of its order, except that the last step limit counts.

After any number of groups the options read so far are those of the groups (`parseFrom_groups`), and
every line of arguments is a sequence of groups up to its end or up to the first arguments that are
no group that fits (`exists_groups`).

Main statements:
* `Options.parseFrom_group`, `Options.parseFrom_groups`: what one group and many groups do.
* `Options.parseFrom_of_offends`: what the first arguments that do not fit do.
* `Options.parse_eq_ok_iff`, `Options.parse_eq_error_iff`: the command lines that are read, and the
  errors of the others.
* `Options.parse_groups`: both, and what may be reordered.
-/

namespace Trapline
namespace Cli

namespace Flag

/-- The arguments that set a flag. -/
def spellings : Flag → List String
  | help => ["-h", "--help"]
  | version => ["-V", "--version"]
  | check => ["-c", "--check"]
  | trace => ["--trace"]

theorem ofArgument?_of_mem
    {flag : Flag}
    {argument : String}
    (h : argument ∈ flag.spellings) :
    ofArgument? argument = some flag := by
  cases flag <;>
    simp only [spellings, List.mem_cons, List.not_mem_nil, or_false] at h <;>
    rcases h with rfl | rfl <;>
    decide

theorem mem_of_ofArgument?
    {flag : Flag}
    {argument : String}
    (h : ofArgument? argument = some flag) :
    argument ∈ flag.spellings := by
  unfold ofArgument? at h
  split_ifs at h with hhelp hversion hcheck htrace <;>
    cases h <;>
    simp_all [spellings]

end Flag

/-- A text stands for a count: at most one plus, at least one digit, and less than 64 bits. -/
def IsCount (text : String) (n : Nat) : Prop :=
  ∃ digits : List Char,
    (text.toList = digits ∨ text.toList = '+' :: digits) ∧
    digits ≠ [] ∧
    (∀ c ∈ digits, c.isDigit = true) ∧
    n = Nat.ofDigitChars 10 digits 0 ∧
    n < UInt64.size

/-- An argument is a file: a minus alone, or anything that does not start with one. -/
def IsFile (argument : String) : Prop :=
  argument = "-" ∨ argument.toList.head? ≠ some '-'

namespace Options

theorem readCount?_eq_some_iff
    {text : String}
    {n : Nat} :
    readCount? text = some n ↔ IsCount text n := by
  constructor
  · intro h
    simp only [readCount?, Option.ite_none_right_eq_some, Bool.and_eq_true, Bool.not_eq_true',
      List.isEmpty_eq_false_iff, List.all_eq_true, decide_eq_true_eq, Option.some.injEq] at h
    obtain ⟨⟨⟨hne, hall⟩, hsize⟩, rfl⟩ := h
    refine ⟨_, ?_, hne, hall, rfl, hsize⟩
    split
    · rename_i hplus
      exact Or.inr (List.eq_cons_of_mem_head? hplus)
    · exact Or.inl rfl
  · rintro ⟨digits, htext, hne, hall, rfl, hsize⟩
    have hdigits :
        (if text.toList.head? = some '+' then text.toList.tail else text.toList) = digits := by
      rcases htext with htext | htext
      · -- A plus is no digit, so it cannot be the first of them.
        have hplus : ¬ digits.head? = some '+' := by
          intro hhead
          have hdigit := hall '+' (List.mem_of_head? hhead)
          exact absurd hdigit (by decide)
        rw [htext, if_neg hplus]
      · rw [htext]
        rfl
    have hempty : digits.isEmpty = false := List.isEmpty_eq_false_iff.2 hne
    have hdigit : digits.all Char.isDigit = true := List.all_eq_true.2 hall
    simp [readCount?, hdigits, hempty, hdigit, hsize]

theorem isOption_eq_false_iff
    {argument : String} :
    isOption argument = false ↔ IsFile argument := by
  rw [isOption, IsFile, Bool.and_eq_false_iff, beq_eq_false_iff_ne, bne_eq_false_iff_eq, or_comm]

end Options

/-- Arguments that belong together. -/
inductive ArgumentGroup where
  | flag (flag : Flag) (spelling : String) (spelled : spelling ∈ flag.spellings)
  | limit (text : String) (n : Nat) (counts : IsCount text n)
  | file (name : String) (isFile : IsFile name)

namespace ArgumentGroup

/-- The arguments of a group. -/
def arguments : ArgumentGroup → List String
  | flag _ spelling _ => [spelling]
  | limit text _ _ => [Options.maxStepsOption, text]
  | file name _ => [name]

/-- The flag that a group sets. -/
def flag? : ArgumentGroup → Option Flag
  | flag f _ _ => some f
  | _ => none

/-- The step limit that a group sets. -/
def limit? : ArgumentGroup → Option Nat
  | limit _ n _ => some n
  | _ => none

/-- The file that a group names. -/
def file? : ArgumentGroup → Option String
  | file name _ => some name
  | _ => none

/-- The flags that are set. -/
def flags (groups : List ArgumentGroup) : List Flag :=
  groups.filterMap flag?

/-- The step limits, in their order. -/
def limits (groups : List ArgumentGroup) : List Nat :=
  groups.filterMap limit?

/-- The files that are named. -/
def files (groups : List ArgumentGroup) : List String :=
  groups.filterMap file?

/-- One file at most is named. -/
def AtMostOneFile (groups : List ArgumentGroup) : Prop :=
  (files groups).length ≤ 1

theorem flags_append
    (groups more : List ArgumentGroup) :
    flags (groups ++ more) = flags groups ++ flags more :=
  List.filterMap_append

theorem limits_append
    (groups more : List ArgumentGroup) :
    limits (groups ++ more) = limits groups ++ limits more :=
  List.filterMap_append

theorem files_append
    (groups more : List ArgumentGroup) :
    files (groups ++ more) = files groups ++ files more :=
  List.filterMap_append

theorem files_perm
    {groups groups' : List ArgumentGroup}
    (h : groups.Perm groups') :
    (files groups).Perm (files groups') :=
  h.filterMap file?

theorem atMostOneFile_of_append
    {groups more : List ArgumentGroup}
    (h : AtMostOneFile (groups ++ more)) :
    AtMostOneFile groups := by
  rw [AtMostOneFile, files_append, List.length_append] at h
  exact Nat.le_trans (Nat.le_add_right _ _) h

/-- A group that is no file may stand behind any others. -/
theorem AtMostOneFile.concat
    {groups : List ArgumentGroup}
    {group : ArgumentGroup}
    (h : AtMostOneFile groups)
    (hfile : group.file? = none) :
    AtMostOneFile (groups ++ [group]) := by
  have hnone : files [group] = [] := List.filterMap_cons_none hfile
  rwa [AtMostOneFile, files_append, hnone, List.append_nil]

/-- A file may stand behind groups of which none is one, and behind no others. -/
theorem atMostOneFile_concat_file_iff
    {groups : List ArgumentGroup}
    {name : String}
    (h : IsFile name) :
    AtMostOneFile (groups ++ [.file name h]) ↔ files groups = [] := by
  have hone : files [.file name h] = [name] := rfl
  rw [AtMostOneFile, files_append, hone, List.length_append, List.length_singleton,
    ← List.length_eq_zero_iff]
  omega

end ArgumentGroup

namespace Options

open ArgumentGroup

/-- What a sequence of groups asks for: a flag is on if a group sets it, the last step limit counts,
and the file is the one that is named. -/
def ofGroups (groups : List ArgumentGroup) : Options where
  file := (files groups).head?
  checkOnly := decide (Flag.check ∈ flags groups)
  trace := decide (Flag.trace ∈ flags groups)
  maxSteps := (limits groups).getLast?
  showHelp := decide (Flag.help ∈ flags groups)
  showVersion := decide (Flag.version ∈ flags groups)

theorem ofGroups_flag
    (groups : List ArgumentGroup)
    (flag : Flag)
    (spelling : String)
    (h : spelling ∈ flag.spellings) :
    ofGroups (groups ++ [.flag flag spelling h]) = (ofGroups groups).withFlag flag := by
  have hflags : flags [.flag flag spelling h] = [flag] := rfl
  have hlimits : limits [.flag flag spelling h] = [] := rfl
  have hfiles : files [.flag flag spelling h] = [] := rfl
  simp only [ofGroups, flags_append, limits_append, files_append, hflags, hlimits, hfiles,
    List.append_nil, List.mem_append, List.mem_singleton]
  cases flag <;> simp [withFlag]

theorem ofGroups_limit
    (groups : List ArgumentGroup)
    (text : String)
    (n : Nat)
    (h : IsCount text n) :
    ofGroups (groups ++ [.limit text n h]) = { ofGroups groups with maxSteps := some n } := by
  have hflags : flags [.limit text n h] = [] := rfl
  have hlimits : limits [.limit text n h] = [n] := rfl
  have hfiles : files [.limit text n h] = [] := rfl
  simp only [ofGroups, flags_append, limits_append, files_append, hflags, hlimits, hfiles,
    List.append_nil, List.getLast?_concat]

theorem ofGroups_file
    (groups : List ArgumentGroup)
    (name : String)
    (h : IsFile name)
    (hfirst : files groups = []) :
    ofGroups (groups ++ [.file name h]) = { ofGroups groups with file := some name } := by
  have hflags : flags [.file name h] = [] := rfl
  have hlimits : limits [.file name h] = [] := rfl
  have hfiles : files [.file name h] = [name] := rfl
  simp only [ofGroups, flags_append, limits_append, files_append, hflags, hlimits, hfiles, hfirst,
    List.append_nil, List.nil_append, List.head?_cons]

/-- The arguments do not start with a group that fits behind the groups read so far. -/
inductive Offends (groups : List ArgumentGroup) : List String → UsageError → Prop
  | missingValue :
      Offends groups [maxStepsOption] (.missingValue maxStepsOption)
  | invalidValue (value : String) (rest : List String) (h : ∀ n, ¬ IsCount value n) :
      Offends groups (maxStepsOption :: value :: rest) (.invalidValue maxStepsOption value)
  | unknownOption (argument : String) (rest : List String)
      (hflag : ∀ flag : Flag, argument ∉ flag.spellings)
      (hlimit : argument ≠ maxStepsOption)
      (hfile : ¬ IsFile argument) :
      Offends groups (argument :: rest) (.unknownOption argument)
  | extraArgument (argument : String) (rest : List String)
      (hfile : IsFile argument)
      (hsecond : files groups ≠ []) :
      Offends groups (argument :: rest) (.extraArgument argument)

theorem ofArgument?_eq_none
    {argument : String}
    (h : ∀ flag : Flag, argument ∉ flag.spellings) :
    Flag.ofArgument? argument = none :=
  Option.eq_none_iff_forall_ne_some.2 fun flag hflag => h flag (Flag.mem_of_ofArgument? hflag)

/-- Every spelling of a flag is an option. -/
theorem not_isFile_of_mem_spellings
    {flag : Flag}
    {argument : String}
    (h : argument ∈ flag.spellings) :
    ¬ IsFile argument := by
  have hoptions : ∀ flag : Flag, flag.spellings.all isOption = true := by
    rintro (_ | _ | _ | _) <;> decide
  have hoption := List.all_eq_true.1 (hoptions flag) argument h
  rw [← isOption_eq_false_iff, hoption]
  exact Bool.noConfusion

theorem not_isFile_maxStepsOption : ¬ IsFile maxStepsOption := by
  rw [← isOption_eq_false_iff]
  decide

section ParseFrom

variable (o : Options) (rest : List String)

theorem parseFrom_flag
    {flag : Flag}
    {spelling : String}
    (h : spelling ∈ flag.spellings) :
    parseFrom o (spelling :: rest) = parseFrom (o.withFlag flag) rest := by
  rw [parseFrom.eq_def]
  simp only [Flag.ofArgument?_of_mem h]

theorem parseFrom_limit
    {text : String}
    {n : Nat}
    (h : IsCount text n) :
    parseFrom o (maxStepsOption :: text :: rest) =
      parseFrom { o with maxSteps := some n } rest := by
  have hflag : Flag.ofArgument? maxStepsOption = none := by decide
  rw [parseFrom.eq_def]
  simp only [hflag, if_pos, readCount?_eq_some_iff.2 h]

/-- An argument that is neither a flag nor the step limit is an option that is not known, a second
file or the first one. -/
theorem parseFrom_other
    {argument : String}
    (hflag : ∀ flag : Flag, argument ∉ flag.spellings)
    (hlimit : argument ≠ maxStepsOption) :
    parseFrom o (argument :: rest) =
      if isOption argument then .error (.unknownOption argument)
      else if o.file.isSome then .error (.extraArgument argument)
      else parseFrom { o with file := some argument } rest := by
  rw [parseFrom.eq_def]
  simp only [ofArgument?_eq_none hflag, if_neg hlimit]

theorem parseFrom_isFile
    {argument : String}
    (h : IsFile argument) :
    parseFrom o (argument :: rest) =
      if o.file.isSome then .error (.extraArgument argument)
      else parseFrom { o with file := some argument } rest := by
  have hlimit : argument ≠ maxStepsOption := by
    rintro rfl
    exact not_isFile_maxStepsOption h
  rw [parseFrom_other o rest (fun _ hflag => not_isFile_of_mem_spellings hflag h) hlimit,
    isOption_eq_false_iff.2 h, if_neg Bool.false_ne_true]

end ParseFrom

theorem file_ofGroups_isSome
    (groups : List ArgumentGroup) :
    (ofGroups groups).file.isSome = true ↔ files groups ≠ [] := by
  rw [ofGroups, List.isSome_head?]

/-- One group read behind others. -/
theorem parseFrom_group
    {groups : List ArgumentGroup}
    {group : ArgumentGroup}
    (h : AtMostOneFile (groups ++ [group]))
    (rest : List String) :
    parseFrom (ofGroups groups) (group.arguments ++ rest) =
      parseFrom (ofGroups (groups ++ [group])) rest := by
  cases group with
  | flag flag spelling hspelling =>
      rw [ofGroups_flag, arguments, List.singleton_append, parseFrom_flag _ _ hspelling]
  | limit text n hcount =>
      rw [ofGroups_limit]
      exact parseFrom_limit _ _ hcount
  | file name hfile =>
      have hfiles : files groups = [] := (atMostOneFile_concat_file_iff hfile).1 h
      have hfirst : ¬ (ofGroups groups).file.isSome = true := by
        rw [file_ofGroups_isSome, hfiles]
        exact fun hne => hne rfl
      rw [ofGroups_file _ _ _ hfiles, arguments, List.singleton_append,
        parseFrom_isFile _ _ hfile, if_neg hfirst]

/-- Groups read behind others. -/
theorem parseFrom_groups
    {groups more : List ArgumentGroup}
    (h : AtMostOneFile (groups ++ more))
    (rest : List String) :
    parseFrom (ofGroups groups) (more.flatMap arguments ++ rest) =
      parseFrom (ofGroups (groups ++ more)) rest := by
  induction more generalizing groups with
  | nil => simp
  | cons group more ih =>
      rw [List.append_cons] at h
      rw [List.flatMap_cons, List.append_assoc, parseFrom_group (atMostOneFile_of_append h), ih h,
        ← List.append_cons]

/-- The first arguments that do not fit decide the error. -/
theorem parseFrom_of_offends
    {groups : List ArgumentGroup}
    {arguments : List String}
    {e : UsageError}
    (h : Offends groups arguments e) :
    parseFrom (ofGroups groups) arguments = .error e := by
  have hlimit : Flag.ofArgument? maxStepsOption = none := by decide
  cases h with
  | missingValue =>
      rw [parseFrom.eq_def]
      simp only [hlimit, if_pos]
  | invalidValue value rest hvalue =>
      have hnone : readCount? value = none :=
        Option.eq_none_iff_forall_ne_some.2 fun n hn => hvalue n (readCount?_eq_some_iff.1 hn)
      rw [parseFrom.eq_def]
      simp only [hlimit, if_pos, hnone]
  | unknownOption argument rest hflag hlimit hfile =>
      rw [← isOption_eq_false_iff, Bool.not_eq_false] at hfile
      rw [parseFrom_other _ _ hflag hlimit, if_pos hfile]
  | extraArgument argument rest hfile hsecond =>
      rw [parseFrom_isFile _ _ hfile, if_pos ((file_ofGroups_isSome groups).2 hsecond)]

/-- Behind groups, arguments start with one more group that fits, or do not fit. -/
theorem exists_group_or_offends
    {groups : List ArgumentGroup}
    (h : AtMostOneFile groups)
    (argument : String)
    (rest : List String) :
    (∃ group behind,
      argument :: rest = group.arguments ++ behind ∧
      AtMostOneFile (groups ++ [group])) ∨
    ∃ e, Offends groups (argument :: rest) e := by
  by_cases hflag : ∃ flag : Flag, argument ∈ flag.spellings
  · obtain ⟨flag, hspelling⟩ := hflag
    exact Or.inl ⟨.flag flag argument hspelling, rest, rfl, h.concat rfl⟩
  rw [not_exists] at hflag
  by_cases hlimit : argument = maxStepsOption
  · subst hlimit
    cases rest with
    | nil => exact Or.inr ⟨_, .missingValue⟩
    | cons value rest =>
        by_cases hvalue : ∃ n, IsCount value n
        · obtain ⟨n, hcount⟩ := hvalue
          exact Or.inl ⟨.limit value n hcount, rest, rfl, h.concat rfl⟩
        · exact Or.inr ⟨_, .invalidValue value rest (not_exists.1 hvalue)⟩
  by_cases hfile : IsFile argument
  · by_cases hfirst : files groups = []
    · exact Or.inl ⟨.file argument hfile, rest, rfl, (atMostOneFile_concat_file_iff hfile).2 hfirst⟩
    · exact Or.inr ⟨_, .extraArgument argument rest hfile hfirst⟩
  · exact Or.inr ⟨_, .unknownOption argument rest hflag hlimit hfile⟩

/-- Arguments are groups up to their end, or up to the first that do not fit. -/
theorem exists_groups
    {groups : List ArgumentGroup}
    (h : AtMostOneFile groups)
    (arguments : List String) :
    ∃ more rest,
      arguments = more.flatMap ArgumentGroup.arguments ++ rest ∧
      AtMostOneFile (groups ++ more) ∧
      (rest = [] ∨ ∃ e, Offends (groups ++ more) rest e) := by
  -- A group has one argument or two, so the induction is on the number of arguments left.
  induction hlength : arguments.length using Nat.strongRecOn generalizing groups arguments with
  | ind length ih =>
      cases arguments with
      | nil => exact ⟨[], [], rfl, by rwa [List.append_nil], Or.inl rfl⟩
      | cons argument rest =>
          rcases exists_group_or_offends h argument rest with
            ⟨group, behind, hsplit, hfits⟩ | hoffends
          · have hshorter : behind.length < length := by
              have hsum := congrArg List.length hsplit
              rw [hlength, List.length_append] at hsum
              have hpos : 0 < group.arguments.length := by
                cases group <;> simp [ArgumentGroup.arguments]
              omega
            obtain ⟨more, last, hmore, hfiles, hlast⟩ := ih _ hshorter hfits behind rfl
            refine ⟨group :: more, last, ?_, ?_, ?_⟩
            · rw [hsplit, hmore, List.flatMap_cons, List.append_assoc]
            · rwa [List.append_cons]
            · rwa [List.append_cons]
          · refine ⟨[], argument :: rest, rfl, by rwa [List.append_nil], Or.inr ?_⟩
            rwa [List.append_nil]

/-- Arguments that are groups are read. -/
theorem parse_of_groups
    {groups : List ArgumentGroup}
    (h : AtMostOneFile groups) :
    parse (groups.flatMap ArgumentGroup.arguments) = .ok (ofGroups groups) := by
  have hread := @parseFrom_groups [] groups h []
  rw [List.append_nil] at hread
  exact hread

/-- Arguments that are groups up to some that do not fit are refused. -/
theorem parse_of_offends
    {groups : List ArgumentGroup}
    {rest : List String}
    {e : UsageError}
    (h : AtMostOneFile groups)
    (hrest : Offends groups rest e) :
    parse (groups.flatMap ArgumentGroup.arguments ++ rest) = .error e := by
  have hread := @parseFrom_groups [] groups h rest
  rw [List.nil_append, parseFrom_of_offends hrest] at hread
  exact hread

/-- A command line is read or refused, and its groups say which. -/
theorem parse_cases
    (arguments : List String) :
    (∃ groups,
      arguments = groups.flatMap ArgumentGroup.arguments ∧
      AtMostOneFile groups ∧
      parse arguments = .ok (ofGroups groups)) ∨
    ∃ groups rest e,
      arguments = groups.flatMap ArgumentGroup.arguments ++ rest ∧
      AtMostOneFile groups ∧
      Offends groups rest e ∧
      parse arguments = .error e := by
  obtain ⟨groups, rest, rfl, hfits, hrest⟩ := @exists_groups [] (Nat.zero_le 1) arguments
  rw [List.nil_append] at hfits hrest
  rcases hrest with rfl | ⟨e, hoffends⟩
  · rw [List.append_nil]
    exact Or.inl ⟨groups, rfl, hfits, parse_of_groups hfits⟩
  · exact Or.inr ⟨groups, rest, e, rfl, hfits, hoffends, parse_of_offends hfits hoffends⟩

theorem parse_eq_ok_iff
    {arguments : List String}
    {o : Options} :
    parse arguments = .ok o ↔
      ∃ groups,
        arguments = groups.flatMap ArgumentGroup.arguments ∧
        AtMostOneFile groups ∧
        o = ofGroups groups := by
  constructor
  · intro h
    rcases parse_cases arguments with
      ⟨groups, hsplit, hfits, hread⟩ | ⟨groups, rest, e, -, -, -, hrefused⟩
    · exact ⟨groups, hsplit, hfits, Except.ok.inj (h.symm.trans hread)⟩
    · cases h.symm.trans hrefused
  · rintro ⟨groups, rfl, hfits, rfl⟩
    exact parse_of_groups hfits

theorem parse_eq_error_iff
    {arguments : List String}
    {e : UsageError} :
    parse arguments = .error e ↔
      ∃ groups rest,
        arguments = groups.flatMap ArgumentGroup.arguments ++ rest ∧
        AtMostOneFile groups ∧
        Offends groups rest e := by
  constructor
  · intro h
    rcases parse_cases arguments with
      ⟨groups, -, -, hread⟩ | ⟨groups, rest, e', hsplit, hfits, hoffends, hrefused⟩
    · cases h.symm.trans hread
    · cases h.symm.trans hrefused
      exact ⟨groups, rest, hsplit, hfits, hoffends⟩
  · rintro ⟨groups, rest, rfl, hfits, hoffends⟩
    exact parse_of_offends hfits hoffends

/-- The order of groups matters for the step limits alone. -/
theorem ofGroups_of_perm
    {groups groups' : List ArgumentGroup}
    (h : AtMostOneFile groups)
    (hperm : groups.Perm groups')
    (hlimits : limits groups = limits groups') :
    ofGroups groups = ofGroups groups' := by
  have hfiles : files groups = files groups' := by
    have hpermuted := files_perm hperm
    rcases hnames : files groups with _ | ⟨name, _ | ⟨second, more⟩⟩
    · rw [hnames, List.nil_perm] at hpermuted
      exact hpermuted.symm
    · rw [hnames, List.singleton_perm] at hpermuted
      exact hpermuted
    · rw [AtMostOneFile, hnames] at h
      simp at h
  have hflags : ∀ flag, flag ∈ flags groups ↔ flag ∈ flags groups' := fun flag =>
    (hperm.filterMap flag?).mem_iff
  simp only [ofGroups, hlimits, hfiles, hflags]

/-- **The grammar of a command line.** A command line is read exactly if it is a sequence of groups
with at most one file, and the options are then those of the groups. Otherwise the first arguments
that do not fit decide the error, whatever flags stand before them. Groups may be reordered in any
way that keeps the step limits in their order. -/
theorem parse_groups
    (arguments : List String) :
    (∀ o, parse arguments = .ok o ↔
      ∃ groups,
        arguments = groups.flatMap ArgumentGroup.arguments ∧
        AtMostOneFile groups ∧
        o = ofGroups groups) ∧
    (∀ e, parse arguments = .error e ↔
      ∃ groups rest,
        arguments = groups.flatMap ArgumentGroup.arguments ++ rest ∧
        AtMostOneFile groups ∧
        Offends groups rest e) ∧
    ∀ groups groups',
      arguments = groups.flatMap ArgumentGroup.arguments →
      AtMostOneFile groups →
      groups.Perm groups' →
      limits groups = limits groups' →
      parse (groups'.flatMap ArgumentGroup.arguments) = parse arguments := by
  refine ⟨fun o => parse_eq_ok_iff, fun e => parse_eq_error_iff, ?_⟩
  rintro groups groups' rfl hfiles hperm hlimits
  have hfiles' : AtMostOneFile groups' := by
    rw [AtMostOneFile, ← (files_perm hperm).length_eq]
    exact hfiles
  rw [parse_of_groups hfiles, parse_of_groups hfiles', ofGroups_of_perm hfiles hperm hlimits]

/-- Two step limits with a flag between them. -/
def twoLimits : List ArgumentGroup := [
  .limit "9" 9 (readCount?_eq_some_iff.1 (by decide)),
  .flag .check "-c" (by decide),
  .limit "+02" 2 (readCount?_eq_some_iff.1 (by decide))]

/-- A file whose name is empty. -/
def namelessFile : ArgumentGroup :=
  .file "" (isOption_eq_false_iff.1 (by decide))

/-- The file may stand before the other groups or behind them. An option in the place of a value is
taken for the value, and is refused although help was asked for. -/
theorem parse_groups_of_twoLimits :
    parse ["", "--max-steps", "9", "-c", "--max-steps", "+02"] =
      .ok { file := some "", checkOnly := true, maxSteps := some 2 } ∧
    parse ["--max-steps", "9", "-c", "--max-steps", "+02", ""] =
      parse ["", "--max-steps", "9", "-c", "--max-steps", "+02"] ∧
    parse ["--help", "", "--max-steps", "--trace", "--unknown", "second"] =
      .error (.invalidValue "--max-steps" "--trace") := by
  have hfiles : AtMostOneFile (namelessFile :: twoLimits) := Nat.le_refl 1
  obtain ⟨hread, -, hreorder⟩ := parse_groups ["", "--max-steps", "9", "-c", "--max-steps", "+02"]
  obtain ⟨-, hrefused, -⟩ :=
    parse_groups ["--help", "", "--max-steps", "--trace", "--unknown", "second"]
  refine ⟨(hread _).2 ⟨namelessFile :: twoLimits, rfl, hfiles, by decide⟩,
    hreorder (namelessFile :: twoLimits) (twoLimits ++ [namelessFile]) rfl hfiles
      (List.perm_append_singleton namelessFile twoLimits).symm rfl,
    (hrefused _).2 ⟨[.flag .help "--help" (by decide), namelessFile], _, rfl, Nat.le_refl 1, ?_⟩⟩
  refine .invalidValue "--trace" ["--unknown", "second"] fun n hn => ?_
  have hnone : readCount? "--trace" = none := by decide
  rw [← readCount?_eq_some_iff, hnone] at hn
  cases hn

end Options
end Cli
end Trapline
