import Trapline.Bindings
import Trapline.Error

/-!
# Memory

Variables live in frames. The root frame is always there; every other frame lies on top of an outer
memory. A name stands for the nearest binding of it, from the innermost frame outwards. An
identifier is never stored: storing one fails before anything changes.
-/

namespace Trapline

/-- The bindings of one scope. -/
abbrev Frame := Bindings Value

/-- The frames, from the innermost one to the root. -/
inductive Memory where
  | root (frame : Frame)
  | scope (frame : Frame) (outer : Memory)
deriving DecidableEq, Repr

namespace Memory

/-- Memory with an empty root frame. -/
def empty : Memory := root .empty

instance : Inhabited Memory := ⟨empty⟩

/-- The frames, the innermost one first. -/
def frames : Memory → List Frame
  | root frame => [frame]
  | scope frame outer => frame :: outer.frames

/-- The number of frames. -/
def depth : Memory → Nat
  | root _ => 1
  | scope _ outer => outer.depth + 1

/-- The nearest binding of a name. -/
def get? (name : Name) : Memory → Option Value
  | root frame => frame.get? name
  | scope frame outer => (frame.get? name).or (outer.get? name)

/-- Whether some frame binds a name. -/
def contains (m : Memory) (name : Name) : Bool :=
  (m.get? name).isSome

/-- The nearest binding of a name replaced. Nothing changes when there is none. -/
def rebind (name : Name) (v : Value) : Memory → Memory
  | root frame => root (if frame.contains name then frame.insert name v else frame)
  | scope frame outer =>
      if frame.contains name then scope (frame.insert name v) outer
      else scope frame (outer.rebind name v)

/-- A name bound in the root frame. -/
def bindRoot (name : Name) (v : Value) : Memory → Memory
  | root frame => root (frame.insert name v)
  | scope frame outer => scope frame (outer.bindRoot name v)

/-- A name bound in the innermost frame. -/
def bindInnermost (name : Name) (v : Value) : Memory → Memory
  | root frame => root (frame.insert name v)
  | scope frame outer => scope (frame.insert name v) outer

/-- The value of a variable. -/
def get (m : Memory) (name : Name) : Except Fault Value :=
  match m.get? name with
  | some v => .ok v
  | none => .error (.invalidReference name)

/-- The value that an argument stands for: an identifier names a variable, and anything else stands
for itself. -/
def deref (m : Memory) : Value → Except Fault Value
  | .ident name => m.get name
  | v => .ok v

/-- Passes the memory on if the value may be stored under the name. -/
def storing (name : Name) (v : Value) (m : Memory) : Except Fault Memory :=
  if v.isIdent then .error (.storeIdentifier name) else .ok m

/-- Binds a name in the innermost frame. -/
def localSet (m : Memory) (name : Name) (v : Value) : Except Fault Memory :=
  storing name v (m.bindInnermost name v)

/-- Rebinds the nearest binding of a name, or binds it in the root frame. -/
def set (m : Memory) (name : Name) (v : Value) : Except Fault Memory :=
  storing name v (if m.contains name then m.rebind name v else m.bindRoot name v)

/-- Rebinds the nearest binding of a name, or binds it in the innermost frame. -/
def setOrLocal (m : Memory) (name : Name) (v : Value) : Except Fault Memory :=
  storing name v (if m.contains name then m.rebind name v else m.bindInnermost name v)

/-- Appends a value to the vector that a name is bound to. -/
def append (m : Memory) (name : Name) (v : Value) : Except Fault Memory :=
  match m.get? name with
  | none => .error (.invalidReference name)
  | some (.vector items) => .ok (m.rebind name (.vector (items ++ [v])))
  | some w => .error (.notAVector name w.kind)

/-- Puts an empty frame on top. -/
def pushFrame (m : Memory) : Memory :=
  scope .empty m

/-- Removes the innermost frame, which cannot be the root. -/
def popFrame : Memory → Except Fault Memory
  | root _ => .error .popRootFrame
  | scope _ outer => .ok outer

theorem depth_eq_length_frames
    (m : Memory) :
    m.depth = m.frames.length := by
  induction m with
  | root frame => rfl
  | scope frame outer ih => simp [depth, frames, ih]

theorem one_le_depth
    (m : Memory) :
    1 ≤ m.depth := by
  cases m <;> simp [depth]

@[simp] theorem depth_pushFrame
    (m : Memory) :
    m.pushFrame.depth = m.depth + 1 := by
  rfl

@[simp] theorem depth_rebind
    (m : Memory)
    (name : Name)
    (v : Value) :
    (m.rebind name v).depth = m.depth := by
  induction m with
  | root frame => rfl
  | scope frame outer ih =>
      rw [rebind]
      split
      · rfl
      · simp [depth, ih]

@[simp] theorem depth_bindRoot
    (m : Memory)
    (name : Name)
    (v : Value) :
    (m.bindRoot name v).depth = m.depth := by
  induction m with
  | root frame => rfl
  | scope frame outer ih => simp [bindRoot, depth, ih]

@[simp] theorem depth_bindInnermost
    (m : Memory)
    (name : Name)
    (v : Value) :
    (m.bindInnermost name v).depth = m.depth := by
  cases m <;> rfl

/-- Rebinding a name changes what that name stands for, and nothing else. -/
theorem get?_rebind
    (m : Memory)
    (name other : Name)
    (v : Value) :
    (m.rebind name v).get? other =
      if name = other ∧ m.contains name = true then some v else m.get? other := by
  induction m with
  | root frame =>
      by_cases hname : frame.contains name = true
      · have hroot : (root frame).contains name = true := hname
        simp [rebind, get?, hname, hroot, Bindings.get?_insert]
      · have hroot : (root frame).contains name = false := by
          simpa [contains, get?, Bindings.contains] using hname
        simp [rebind, get?, hname, hroot]
  | scope frame outer ih =>
      by_cases hname : frame.contains name = true
      · have hscope : (scope frame outer).contains name = true := by
          rw [Bindings.contains] at hname
          simp [contains, get?, hname]
        by_cases hother : name = other
        · subst hother
          simp [rebind, get?, hname, hscope]
        · simp [rebind, get?, hname, hother, Bindings.get?_insert]
      · have hnone : frame.get? name = none :=
          Bindings.get?_eq_none_of_contains (by simpa using hname)
        have hscope : (scope frame outer).contains name = outer.contains name := by
          simp [contains, get?, hnone]
        by_cases hother : name = other
        · subst hother
          simp [rebind, get?, hname, hscope, hnone, ih]
        · simp [rebind, get?, hname, hother, ih]

/-- Binding a name in the innermost frame changes what that name stands for, and nothing else. -/
theorem get?_bindInnermost
    (m : Memory)
    (name other : Name)
    (v : Value) :
    (m.bindInnermost name v).get? other = if name = other then some v else m.get? other := by
  cases m with
  | root frame => simp [bindInnermost, get?, Bindings.get?_insert]
  | scope frame outer =>
      by_cases hother : name = other <;>
        simp [bindInnermost, get?, Bindings.get?_insert, hother]

/-- Binding a new name in the root frame changes what that name stands for, and nothing else. -/
theorem get?_bindRoot
    (m : Memory)
    (name other : Name)
    (v : Value)
    (h : m.contains name = false) :
    (m.bindRoot name v).get? other = if name = other then some v else m.get? other := by
  induction m with
  | root frame => simp [bindRoot, get?, Bindings.get?_insert]
  | scope frame outer ih =>
      have hnone : frame.get? name = none ∧ outer.contains name = false := by
        simpa [contains, get?] using h
      by_cases hother : name = other
      · subst hother
        simp [bindRoot, get?, ih hnone.2, hnone.1]
      · simp [bindRoot, get?, ih hnone.2, hother]

@[simp] theorem popFrame_pushFrame
    (m : Memory) :
    m.pushFrame.popFrame = .ok m := by
  rfl

@[simp] theorem get?_pushFrame
    (m : Memory)
    (name : Name) :
    m.pushFrame.get? name = m.get? name := by
  simp [pushFrame, get?]

end Memory
end Trapline
