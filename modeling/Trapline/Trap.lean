import Trapline.Value.Basic

/-!
# Traps

A trap is a place to return to. The pending traps form a stack, the newest one first. Returning to
a label takes the newest trap with that label and drops it together with all newer ones. The trap
of a loop also carries what is left of the loop.
-/

namespace Trapline

/-- A loop over the elements of a vector, from the given index on. -/
structure Loop where
  item : Name
  items : List Value
  body : Name
  escape : Name
  next : Nat
deriving DecidableEq, Repr, Inhabited

/-- A place to return to. -/
structure Trap where
  label : Name
  resumeAt : Nat
  loop : Option Loop
deriving DecidableEq, Repr, Inhabited

namespace Trap

/-- The label of the traps that loops set. -/
def loopLabel : Name := "each"

/-- The newest trap with a label, and the traps older than it. -/
def unwind? (label : Name) : List Trap → Option (Trap × List Trap)
  | [] => none
  | trap :: older => if trap.label = label then some (trap, older) else unwind? label older

@[simp] theorem unwind?_nil
    (label : Name) :
    unwind? label [] = none := by
  rfl

theorem unwind?_cons
    (label : Name)
    (trap : Trap)
    (older : List Trap) :
    unwind? label (trap :: older) =
      if trap.label = label then some (trap, older) else unwind? label older := by
  rfl

/-- Returning to a label finds the trap that has the label and below which no newer one has. -/
theorem unwind?_eq_some_iff
    {label : Name}
    {traps : List Trap}
    {trap : Trap}
    {older : List Trap} :
    unwind? label traps = some (trap, older) ↔
      ∃ newer,
        traps = newer ++ trap :: older ∧
        trap.label = label ∧
        ∀ t ∈ newer, t.label ≠ label := by
  induction traps with
  | nil =>
      simp [unwind?]
  | cons top rest ih =>
      by_cases htop : top.label = label
      · constructor
        · intro h
          rw [unwind?_cons, if_pos htop] at h
          cases h
          exact ⟨[], rfl, htop, by simp⟩
        · rintro ⟨newer, htraps, -, hnewer⟩
          cases newer with
          | nil =>
              cases htraps
              rw [unwind?_cons, if_pos htop]
          | cons t newer =>
              cases htraps
              exact absurd htop (hnewer _ (by simp))
      · rw [unwind?_cons, if_neg htop, ih]
        constructor
        · rintro ⟨newer, rfl, hlabel, hnewer⟩
          exact ⟨top :: newer, rfl, hlabel, by simpa [htop] using hnewer⟩
        · rintro ⟨newer, htraps, hlabel, hnewer⟩
          cases newer with
          | nil =>
              cases htraps
              exact absurd hlabel htop
          | cons t newer =>
              cases htraps
              exact ⟨newer, rfl, hlabel, fun t ht => hnewer t (by simp [ht])⟩

end Trap
end Trapline
