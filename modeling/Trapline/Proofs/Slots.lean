import Trapline.Memory

/-!
# The slots of a name

Seen from one name, memory is a column of slots: what each frame binds the name to, from the
innermost frame to the root. An access to memory works on each column by itself. What it makes of
the slots of a name depends on these slots alone, and an access to another name leaves them as they
are. So whatever is true of one name can be shown on its slots, with no frame in sight.

Main statements:
* `Memory.slots_rebind`, `Memory.slots_bindRoot`, `Memory.slots_bindInnermost`: the three ways to
  bind a name.
* `Memory.slots_after`: what an access makes of the slots of a name.
-/

namespace Trapline

/-- What the frames of a memory bind one name to, the innermost frame first. -/
abbrev Slots := List (Option Value)

namespace Slots

/-- What the name stands for. -/
def nearest? (slots : Slots) : Option Value :=
  slots.findSome? id

/-- The nearest slot that is taken gets another value. -/
def fillNearest (v : Value) : Slots → Slots
  | [] => []
  | some _ :: outer => some v :: outer
  | none :: outer => none :: fillNearest v outer

/-- The slot of the root gets a value. -/
def fillRoot (v : Value) : Slots → Slots
  | [] => []
  | [_] => [some v]
  | slot :: next :: outer => slot :: fillRoot v (next :: outer)

/-- The innermost slot gets a value. -/
def fillInnermost (v : Value) : Slots → Slots
  | [] => []
  | _ :: outer => some v :: outer

@[simp] theorem length_fillNearest
    (v : Value)
    (slots : Slots) :
    (fillNearest v slots).length = slots.length := by
  induction slots with
  | nil => rfl
  | cons slot outer ih => cases slot <;> simp [fillNearest, ih]

@[simp] theorem length_fillRoot
    (v : Value)
    (slots : Slots) :
    (fillRoot v slots).length = slots.length := by
  fun_induction fillRoot v slots <;> simp_all

@[simp] theorem length_fillInnermost
    (v : Value)
    (slots : Slots) :
    (fillInnermost v slots).length = slots.length := by
  cases slots <;> rfl

/-- In a column of two parts the nearest slot is in the first part if any slot is taken there. -/
theorem fillNearest_append
    (v : Value)
    (inner outer : Slots) :
    fillNearest v (inner ++ outer) =
      if inner.any Option.isSome then fillNearest v inner ++ outer
      else inner ++ fillNearest v outer := by
  induction inner with
  | nil => simp
  | cons slot inner ih =>
      cases slot with
      | none =>
          simp only [List.cons_append, fillNearest, ih, List.any_cons, Option.isSome_none,
            Bool.false_or]
          split <;> rfl
      | some w => simp [fillNearest]

theorem isSome_nearest?
    (slots : Slots) :
    slots.nearest?.isSome = slots.any Option.isSome := by
  simp [nearest?, List.isSome_findSome?]

end Slots

namespace Memory

/-- What each frame binds a name to, the innermost frame first. -/
def slots (m : Memory) (name : Name) : Slots :=
  m.frames.map (·.get? name)

@[simp] theorem slots_root
    (frame : Frame)
    (name : Name) :
    (root frame).slots name = [frame.get? name] := by
  rfl

@[simp] theorem slots_scope
    (frame : Frame)
    (outer : Memory)
    (name : Name) :
    (scope frame outer).slots name = frame.get? name :: outer.slots name := by
  rfl

@[simp] theorem length_slots
    (m : Memory)
    (name : Name) :
    (m.slots name).length = m.depth := by
  rw [slots, List.length_map, depth_eq_length_frames]

theorem get?_eq_nearest?
    (m : Memory)
    (name : Name) :
    m.get? name = (m.slots name).nearest? := by
  induction m with
  | root frame =>
      cases h : frame.get? name <;> simp [get?, Slots.nearest?, h]
  | scope frame outer ih =>
      cases h : frame.get? name <;> simp [get?, Slots.nearest?, h, ih]

theorem get?_of_slots
    {m m' : Memory}
    {x : Name}
    (h : m'.slots x = m.slots x) :
    m'.get? x = m.get? x := by
  rw [get?_eq_nearest?, get?_eq_nearest?, h]

theorem get_of_slots
    {m m' : Memory}
    {x : Name}
    (h : m'.slots x = m.slots x) :
    m'.get x = m.get x := by
  rw [get, get, get?_of_slots h]

theorem contains_eq_any
    (m : Memory)
    (name : Name) :
    m.contains name = (m.slots name).any Option.isSome := by
  rw [contains, get?_eq_nearest?, Slots.isSome_nearest?]

theorem slots_rebind
    (m : Memory)
    (name x : Name)
    (v : Value) :
    (m.rebind name v).slots x =
      if name = x then Slots.fillNearest v (m.slots x) else m.slots x := by
  induction m with
  | root frame =>
      cases hslot : frame.get? name with
      | none =>
          by_cases hx : name = x
          · subst hx
            simp [rebind, Bindings.contains, hslot, Slots.fillNearest]
          · simp [rebind, Bindings.contains, hslot, hx]
      | some w =>
          by_cases hx : name = x
          · subst hx
            simp [rebind, Bindings.contains, hslot, Slots.fillNearest]
          · simp [rebind, Bindings.contains, hslot, hx, Bindings.get?_insert]
  | scope frame outer ih =>
      cases hslot : frame.get? name with
      | none =>
          by_cases hx : name = x
          · subst hx
            simp [rebind, Bindings.contains, hslot, Slots.fillNearest, ih]
          · simp [rebind, Bindings.contains, hslot, hx, ih]
      | some w =>
          by_cases hx : name = x
          · subst hx
            simp [rebind, Bindings.contains, hslot, Slots.fillNearest]
          · simp [rebind, Bindings.contains, hslot, hx, Bindings.get?_insert]

theorem slots_bindRoot
    (m : Memory)
    (name x : Name)
    (v : Value) :
    (m.bindRoot name v).slots x =
      if name = x then Slots.fillRoot v (m.slots x) else m.slots x := by
  induction m with
  | root frame =>
      by_cases hx : name = x
      · simp [bindRoot, hx, Slots.fillRoot]
      · simp [bindRoot, Bindings.get?_insert, hx]
  | scope frame outer ih =>
      by_cases hx : name = x
      · subst hx
        -- the outer memory has a slot, so the innermost one is not the root's
        cases houter : outer.slots name with
        | nil =>
            have hlength := outer.length_slots name
            have hdepth := outer.one_le_depth
            rw [houter, List.length_nil] at hlength
            omega
        | cons slot rest =>
            simp [bindRoot, ih, houter, Slots.fillRoot]
      · simp [bindRoot, ih, hx]

theorem slots_bindInnermost
    (m : Memory)
    (name x : Name)
    (v : Value) :
    (m.bindInnermost name v).slots x =
      if name = x then Slots.fillInnermost v (m.slots x) else m.slots x := by
  cases m with
  | root frame | scope frame outer =>
      by_cases hx : name = x <;>
        simp [bindInnermost, Bindings.get?_insert, hx, Slots.fillInnermost]

/-- One call on memory. -/
inductive Access where
  | get (name : Name)
  | localSet (name : Name) (v : Value)
  | set (name : Name) (v : Value)
  | setOrLocal (name : Name) (v : Value)
  /-- Appends to the vector in the nearest binding of a name. -/
  | append (name : Name) (v : Value)
  /-- Puts a value, of any kind, in place of the nearest binding of a name. -/
  | replace (name : Name) (v : Value)
  | pushFrame
  | popFrame
deriving DecidableEq, Repr

/-- The memory that an access leads to, or the fault with which it fails. -/
def perform (m : Memory) : Access → Except Fault Memory
  | .get name => (m.get name).map fun _ => m
  | .localSet name v => m.localSet name v
  | .set name v => m.set name v
  | .setOrLocal name v => m.setOrLocal name v
  | .append name v => m.append name v
  | .replace name v => (m.get name).map fun _ => m.rebind name v
  | .pushFrame => .ok m.pushFrame
  | .popFrame => m.popFrame

/-- The memory after an access. One that fails changes nothing. -/
def after (m : Memory) (a : Access) : Memory :=
  match m.perform a with
  | .ok m' => m'
  | .error _ => m

/-- The memory after a sequence of accesses. -/
def afterAll (m : Memory) (accesses : List Access) : Memory :=
  accesses.foldl after m

@[simp] theorem afterAll_nil
    (m : Memory) :
    m.afterAll [] = m := by
  rfl

@[simp] theorem afterAll_cons
    (m : Memory)
    (a : Access)
    (rest : List Access) :
    m.afterAll (a :: rest) = (m.after a).afterAll rest := by
  rfl

theorem afterAll_append
    (m : Memory)
    (front back : List Access) :
    m.afterAll (front ++ back) = (m.afterAll front).afterAll back :=
  List.foldl_append

/-- What an access makes of the slots of a name. -/
def Access.onSlots (x : Name) (slots : Slots) : Access → Slots
  | .get _ => slots
  | .localSet name v =>
      if name = x ∧ v.isIdent = false then Slots.fillInnermost v slots else slots
  | .set name v =>
      if name = x ∧ v.isIdent = false then
        if slots.any Option.isSome then Slots.fillNearest v slots else Slots.fillRoot v slots
      else slots
  | .setOrLocal name v =>
      if name = x ∧ v.isIdent = false then
        if slots.any Option.isSome then Slots.fillNearest v slots else Slots.fillInnermost v slots
      else slots
  | .append name v =>
      if name = x then
        match slots.nearest? with
        | some (.vector items) => Slots.fillNearest (.vector (items ++ [v])) slots
        | _ => slots
      else slots
  | .replace name v => if name = x then Slots.fillNearest v slots else slots
  | .pushFrame => none :: slots
  | .popFrame => if slots.length ≤ 1 then slots else slots.tail

/-- What an access makes of the slots of a name depends on them alone. -/
theorem slots_after
    (m : Memory)
    (a : Access)
    (x : Name) :
    (m.after a).slots x = a.onSlots x (m.slots x) := by
  cases a with
  | get name =>
      rw [after, perform]
      cases m.get name <;> rfl
  | localSet name v =>
      cases hv : v.isIdent <;>
        simp [after, perform, localSet, storing, hv, Access.onSlots, slots_bindInnermost]
  | set name v =>
      cases hv : v.isIdent with
      | true => simp [after, perform, set, storing, hv, Access.onSlots]
      | false =>
          by_cases hx : name = x
          · subst hx
            simp only [after, perform, set, storing, hv, Access.onSlots, ← contains_eq_any]
            cases m.contains name <;> simp [slots_rebind, slots_bindRoot]
          · cases hcontains : m.contains name <;>
              simp [after, perform, set, storing, hv, Access.onSlots, hcontains, slots_rebind,
                slots_bindRoot, hx]
  | setOrLocal name v =>
      cases hv : v.isIdent with
      | true => simp [after, perform, setOrLocal, storing, hv, Access.onSlots]
      | false =>
          by_cases hx : name = x
          · subst hx
            simp only [after, perform, setOrLocal, storing, hv, Access.onSlots, ← contains_eq_any]
            cases m.contains name <;> simp [slots_rebind, slots_bindInnermost]
          · cases hcontains : m.contains name <;>
              simp [after, perform, setOrLocal, storing, hv, Access.onSlots, hcontains,
                slots_rebind, slots_bindInnermost, hx]
  | append name v =>
      by_cases hx : name = x
      · subst hx
        simp only [after, perform, append, Access.onSlots, ← get?_eq_nearest?]
        rcases m.get? name with _ | w
        · simp
        · cases w <;> simp [slots_rebind]
      · simp only [after, perform, append, Access.onSlots, hx]
        rcases m.get? name with _ | w
        · simp
        · cases w <;> simp [slots_rebind, hx]
  | replace name v =>
      by_cases hx : name = x
      · subst hx
        cases hget : m.get? name with
        | none =>
            -- nothing is taken, so there is nothing to fill
            have hnone : (m.slots name).any Option.isSome = false := by
              rw [← contains_eq_any, contains, hget]
              rfl
            have hfill := Slots.fillNearest_append v (m.slots name) []
            simp only [List.append_nil, hnone] at hfill
            simp [after, perform, get, hget, Access.onSlots, hfill, Except.map,
              Slots.fillNearest]
        | some w =>
            simp [after, perform, get, hget, Access.onSlots, Except.map, slots_rebind]
      · cases hget : m.get? name <;>
          simp [after, perform, get, hget, Access.onSlots, Except.map, slots_rebind, hx]
  | pushFrame => rfl
  | popFrame =>
      cases m with
      | root frame => simp [after, perform, popFrame, Access.onSlots]
      | scope frame outer =>
          have hdepth := outer.one_le_depth
          have hlength : ¬ outer.depth = 0 := by omega
          simp [after, perform, popFrame, Access.onSlots, hlength]

end Memory
end Trapline
