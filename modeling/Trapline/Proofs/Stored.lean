import Trapline.Memory

/-!
# What holds of all stored values

A property of values that holds of everything in a memory holds of what a name stands for. It is
kept by an operation of the memory as soon as the value that the operation stores has it.
-/

namespace Trapline

namespace Bindings

variable {α : Type}

theorem mem_of_lookup
    {name : Name}
    {a : α}
    {entries : List (Name × α)}
    (h : lookup name entries = some a) :
    (name, a) ∈ entries := by
  induction entries with
  | nil =>
      cases h
  | cons entry rest ih =>
      obtain ⟨key, b⟩ := entry
      rw [lookup] at h
      split at h
      · rename_i hkey
        cases h
        rw [hkey]
        simp
      · exact List.mem_cons_of_mem _ (ih h)

theorem mem_replace
    {name : Name}
    {a : α}
    {entries : List (Name × α)}
    {entry : Name × α}
    (h : entry ∈ replace name a entries) :
    entry ∈ entries ∨ entry = (name, a) := by
  induction entries with
  | nil =>
      exact Or.inr (List.mem_singleton.1 h)
  | cons first rest ih =>
      obtain ⟨key, b⟩ := first
      rw [replace] at h
      split at h
      · rename_i hkey
        rcases List.mem_cons.1 h with rfl | h
        · exact Or.inr (by rw [hkey])
        · exact Or.inl (List.mem_cons_of_mem _ h)
      · rcases List.mem_cons.1 h with rfl | h
        · exact Or.inl (by simp)
        · rcases ih h with h | h
          · exact Or.inl (List.mem_cons_of_mem _ h)
          · exact Or.inr h

/-- Every entry has a property. -/
def All (P : α → Prop) (b : Bindings α) : Prop :=
  ∀ entry ∈ b.entries, P entry.2

theorem All.empty
    (P : α → Prop) :
    (Bindings.empty : Bindings α).All P := by
  intro entry h
  cases h

theorem All.insert
    {P : α → Prop}
    {b : Bindings α}
    {name : Name}
    {a : α}
    (hb : b.All P)
    (ha : P a) :
    (b.insert name a).All P := by
  intro entry hentry
  rcases mem_replace hentry with h | rfl
  · exact hb entry h
  · exact ha

theorem All.get?
    {P : α → Prop}
    {b : Bindings α}
    {name : Name}
    {a : α}
    (hb : b.All P)
    (h : b.get? name = some a) :
    P a :=
  hb (name, a) (mem_of_lookup h)

end Bindings

namespace Memory

variable {P : Value → Prop} {m m' : Memory} {name : Name} {v : Value}

/-- Every value in every frame has a property. -/
def All (P : Value → Prop) (m : Memory) : Prop :=
  ∀ frame ∈ m.frames, frame.All P

theorem all_root_iff
    {frame : Frame} :
    (root frame).All P ↔ frame.All P := by
  simp [All, frames]

theorem all_scope_iff
    {frame : Frame}
    {outer : Memory} :
    (scope frame outer).All P ↔ frame.All P ∧ outer.All P := by
  simp [All, frames]

theorem All.empty :
    Memory.empty.All P :=
  all_root_iff.2 (Bindings.All.empty P)

theorem All.pushFrame
    (hm : m.All P) :
    m.pushFrame.All P :=
  all_scope_iff.2 ⟨Bindings.All.empty P, hm⟩

theorem All.popFrame
    (hm : m.All P)
    (h : m.popFrame = .ok m') :
    m'.All P := by
  cases m with
  | root frame =>
      cases h
  | scope frame outer =>
      cases h
      exact (all_scope_iff.1 hm).2

theorem All.get?
    (hm : m.All P)
    (h : m.get? name = some v) :
    P v := by
  induction m with
  | root frame =>
      exact (all_root_iff.1 hm).get? h
  | scope frame outer ih =>
      obtain ⟨hframe, houter⟩ := all_scope_iff.1 hm
      rw [Memory.get?, Option.or_eq_some_iff] at h
      rcases h with h | ⟨-, h⟩
      · exact hframe.get? h
      · exact ih houter h

theorem All.rebind
    (hm : m.All P)
    (hv : P v) :
    (m.rebind name v).All P := by
  induction m with
  | root frame =>
      rw [Memory.rebind, all_root_iff]
      split
      · exact (all_root_iff.1 hm).insert hv
      · exact all_root_iff.1 hm
  | scope frame outer ih =>
      obtain ⟨hframe, houter⟩ := all_scope_iff.1 hm
      rw [Memory.rebind]
      split
      · exact all_scope_iff.2 ⟨hframe.insert hv, houter⟩
      · exact all_scope_iff.2 ⟨hframe, ih houter⟩

theorem All.bindRoot
    (hm : m.All P)
    (hv : P v) :
    (m.bindRoot name v).All P := by
  induction m with
  | root frame =>
      exact all_root_iff.2 ((all_root_iff.1 hm).insert hv)
  | scope frame outer ih =>
      obtain ⟨hframe, houter⟩ := all_scope_iff.1 hm
      exact all_scope_iff.2 ⟨hframe, ih houter⟩

theorem All.bindInnermost
    (hm : m.All P)
    (hv : P v) :
    (m.bindInnermost name v).All P := by
  cases m with
  | root frame =>
      exact all_root_iff.2 ((all_root_iff.1 hm).insert hv)
  | scope frame outer =>
      obtain ⟨hframe, houter⟩ := all_scope_iff.1 hm
      exact all_scope_iff.2 ⟨hframe.insert hv, houter⟩

theorem storing_eq_ok_iff :
    storing name v m = .ok m' ↔ v.isIdent = false ∧ m = m' := by
  unfold storing
  split
  · simp_all
  · simp_all

theorem All.localSet
    (hm : m.All P)
    (hv : P v)
    (h : m.localSet name v = .ok m') :
    m'.All P := by
  obtain ⟨-, rfl⟩ := storing_eq_ok_iff.1 h
  exact hm.bindInnermost hv

theorem All.set
    (hm : m.All P)
    (hv : P v)
    (h : m.set name v = .ok m') :
    m'.All P := by
  obtain ⟨-, rfl⟩ := storing_eq_ok_iff.1 h
  split
  · exact hm.rebind hv
  · exact hm.bindRoot hv

theorem All.setOrLocal
    (hm : m.All P)
    (hv : P v)
    (h : m.setOrLocal name v = .ok m') :
    m'.All P := by
  obtain ⟨-, rfl⟩ := storing_eq_ok_iff.1 h
  split
  · exact hm.rebind hv
  · exact hm.bindInnermost hv

theorem All.append
    (hm : m.All P)
    (hv : ∀ items, P (.vector items) → P (.vector (items ++ [v])))
    (h : m.append name v = .ok m') :
    m'.All P := by
  unfold Memory.append at h
  split at h
  · cases h
  · rename_i items hitems
    cases h
    exact hm.rebind (hv items (hm.get? hitems))
  · cases h

end Memory
end Trapline
