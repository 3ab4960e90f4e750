import Mathlib.Data.List.Induction
import Mathlib.Order.Monotone.Basic
import Trapline.Proofs.Execution

/-!
# Where labels lead

The label index of a program is built by going through its statements in order, so that a later
declaration replaces an earlier one. Seen from outside a label leads to the last position whose
action declares it, and to no position when no action does.

Main statements:
* `label?_eq_some_iff`: the position of a label, in terms of the actions of the program alone.
* `label?_of_strictMono`: when the declarations of one program are placed in another in the same
  order, its labels are placed with them.
-/

namespace Trapline

namespace Statement

/-- A statement declares a label exactly when its action does. -/
theorem label?_eq_some_iff
    {s : Statement}
    {name : Name} :
    s.label? = some name ↔ s.action = .label name := by
  have hlabel :
      s.label? = if s.action.op = .label then s.action.args.head?.bind Value.name? else none := by
    rw [s.op_action, s.args_action, label?]
  rw [hlabel]
  cases s.action with
  | label declared =>
      simp [Action.op, Action.args, Value.name?]
  | _ =>
      simp [Action.op]

end Statement

namespace Program

theorem indexFrom_append
    (labels : Bindings Nat)
    (position : Nat)
    (code rest : List Statement) :
    indexFrom labels position (code ++ rest) =
      indexFrom (indexFrom labels position code) (position + code.length) rest := by
  induction code generalizing labels position with
  | nil =>
      rfl
  | cons s code ih =>
      rw [List.cons_append, List.length_cons, indexFrom, indexFrom,
        show position + (code.length + 1) = position + 1 + code.length by omega]
      cases s.label? with
      | some name =>
          exact ih _ _
      | none =>
          exact ih _ _

/-- A statement at the end decides about the label that it declares, and about no other. -/
theorem get?_indexFrom_concat
    (code : List Statement)
    (s : Statement)
    (name : Name) :
    (indexFrom .empty 0 (code ++ [s])).get? name =
      if s.label? = some name then some code.length
      else (indexFrom .empty 0 code).get? name := by
  rw [indexFrom_append, Nat.zero_add, indexFrom]
  cases hlabel : s.label? with
  | some declared =>
      simp [indexFrom, Bindings.get?_insert]
  | none =>
      simp [indexFrom]

/-- The label that is declared at a position, before and after a statement is added at the end. -/
theorem getElem?_bind_label?_concat
    (code : List Statement)
    (s : Statement)
    (position : Nat) :
    (code ++ [s])[position]?.bind Statement.label? =
      if position = code.length then s.label? else code[position]?.bind Statement.label? := by
  rcases Nat.lt_trichotomy position code.length with hlt | rfl | hgt
  · rw [if_neg hlt.ne, List.getElem?_append_left hlt]
  · simp
  · have hlength : (code ++ [s]).length ≤ position := by
      simpa using Nat.succ_le_of_lt hgt
    rw [if_neg hgt.ne', List.getElem?_eq_none hlength, List.getElem?_eq_none hgt.le]

/-- The index holds the last position at which a label is declared. -/
theorem get?_indexFrom_eq_some_iff
    {code : List Statement}
    {name : Name}
    {target : Nat} :
    (indexFrom .empty 0 code).get? name = some target ↔
      code[target]?.bind Statement.label? = some name ∧
      ∀ later, target < later → code[later]?.bind Statement.label? ≠ some name := by
  induction code using List.reverseRecOn with
  | nil =>
      simp [indexFrom]
  | append_singleton code s ih =>
      simp only [get?_indexFrom_concat, getElem?_bind_label?_concat]
      have hend : ∀ position, code.length ≤ position →
          code[position]?.bind Statement.label? = none := by
        intro position hposition
        simp [List.getElem?_eq_none hposition]
      by_cases hs : s.label? = some name
      · rw [if_pos hs, Option.some.injEq]
        constructor
        · rintro rfl
          refine ⟨by rw [if_pos rfl, hs], ?_⟩
          intro later hlater
          simp [hlater.ne', hend later hlater.le]
        · rintro ⟨htarget, hlater⟩
          have hle : ¬ target < code.length := by
            intro hlt
            exact hlater code.length hlt (by rw [if_pos rfl, hs])
          by_contra hne
          rw [if_neg (Ne.symm hne), hend target (Nat.le_of_not_lt hle)] at htarget
          cases htarget
      · -- the last statement is none of those asked about
        have hold : ∀ position,
            (if position = code.length then s.label?
              else code[position]?.bind Statement.label?) = some name ↔
            code[position]?.bind Statement.label? = some name := by
          intro position
          split
          · rename_i hposition
            simp [hs, hend position hposition.ge]
          · rfl
        simp only [if_neg hs, ih, hold, ne_eq]

/-- The index holds no position exactly for the labels that are not declared. -/
theorem get?_indexFrom_eq_none_iff
    {code : List Statement}
    {name : Name} :
    (indexFrom .empty 0 code).get? name = none ↔
      ∀ position : Nat, code[position]?.bind Statement.label? ≠ some name := by
  induction code using List.reverseRecOn with
  | nil =>
      simp [indexFrom]
  | append_singleton code s ih =>
      simp only [get?_indexFrom_concat, getElem?_bind_label?_concat]
      by_cases hs : s.label? = some name
      · rw [if_pos hs]
        constructor
        · rintro ⟨⟩
        · intro h
          exact absurd (by rw [if_pos rfl, hs]) (h code.length)
      · rw [if_neg hs, ih]
        constructor
        · intro h position
          split
          · exact hs
          · exact h position
        · intro h position hposition
          have hne : position ≠ code.length := by
            rintro rfl
            simp at hposition
          exact h position (by rw [if_neg hne, hposition])

theorem action?_eq_label_iff
    {p : Program}
    {position : Nat}
    {name : Name} :
    p.action? position = some (.label name) ↔
      p.code.toList[position]?.bind Statement.label? = some name := by
  simp only [action?, get?, Option.map_eq_some_iff, Option.bind_eq_some_iff,
    Array.getElem?_toList, Statement.label?_eq_some_iff]

/-- A label leads to the last position that declares it. -/
theorem label?_eq_some_iff
    {p : Program}
    {name : Name}
    {target : Nat} :
    p.label? name = some target ↔
      p.action? target = some (.label name) ∧
      ∀ later, target < later → p.action? later ≠ some (.label name) := by
  simp only [label?, p.labels_eq, indexLabels, get?_indexFrom_eq_some_iff, ne_eq,
    action?_eq_label_iff]

/-- A label leads nowhere exactly when no position declares it. -/
theorem label?_eq_none_iff
    {p : Program}
    {name : Name} :
    p.label? name = none ↔ ∀ position, p.action? position ≠ some (.label name) := by
  simp only [label?, p.labels_eq, indexLabels, get?_indexFrom_eq_none_iff, ne_eq,
    action?_eq_label_iff]

theorem lt_size_of_action
    {p : Program}
    {position : Nat}
    {a : Action}
    (h : p.action? position = some a) :
    position < p.size := by
  obtain ⟨statement, hget, -⟩ := Option.map_eq_some_iff.1 h
  exact (Array.getElem?_eq_some_iff.1 hget).1

theorem lt_size_of_label
    {p : Program}
    {name : Name}
    {target : Nat}
    (h : p.label? name = some target) :
    target < p.size :=
  lt_size_of_action (label?_eq_some_iff.1 h).1

theorem entry_le_size
    (p : Program) :
    p.entry ≤ p.size := by
  rw [entry]
  cases hentry : p.label? entryLabel with
  | some target =>
      exact (lt_size_of_label hentry).le
  | none =>
      exact Nat.zero_le _

/-- When a second program declares a label at the places of the declarations of a first one, in the
same order and nowhere else, the label leads to the place of where it led. -/
theorem label?_of_strictMono
    {p p' : Program}
    {name name' : Name}
    {place : Nat → Nat}
    (hplace : StrictMono place)
    (hdeclares :
      ∀ position,
        p'.action? (place position) = some (.label name') ↔
          p.action? position = some (.label name))
    (hplaced :
      ∀ position', p'.action? position' = some (.label name') →
        ∃ position, place position = position') :
    p'.label? name' = (p.label? name).map place := by
  ext target'
  simp only [Option.map_eq_some_iff, label?_eq_some_iff]
  constructor
  · rintro ⟨htarget, hlater⟩
    obtain ⟨target, rfl⟩ := hplaced target' htarget
    refine ⟨target, ⟨(hdeclares target).1 htarget, ?_⟩, rfl⟩
    intro later hlt h
    exact hlater (place later) (hplace hlt) ((hdeclares later).2 h)
  · rintro ⟨target, ⟨htarget, hlater⟩, rfl⟩
    refine ⟨(hdeclares target).2 htarget, ?_⟩
    intro later' hlt h
    obtain ⟨later, rfl⟩ := hplaced later' h
    exact hlater later (hplace.lt_iff_lt.1 hlt) ((hdeclares later).1 h)

end Program
end Trapline
