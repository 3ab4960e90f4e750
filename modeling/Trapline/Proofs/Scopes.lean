import Mathlib.Data.List.Infix
import Trapline.Proofs.Slots

/-!
# What a scope can change

Between the push of a frame and the pop of it, memory may be accessed at will, nested scopes
included. The frames from before can be reached in one way only: a name is assigned at a moment when
none of the frames pushed since binds it (`Memory.Escapes`). Everything else that happens to a name
is gone with its frames.

The slots of a name are split into those of the frames pushed since, that of the new frame, and
those from before. Each access works on the first two parts, unless it escapes.

Main statements:
* `Memory.Access.onSlots_scope`, `Memory.slots_afterAll`: one access, and a sequence of them.
* `Memory.isolation_of_scope`: what a whole scope leaves behind.
-/

namespace Trapline
namespace Memory

namespace Access

/-- The name whose nearest binding an access changes, in whichever frame that is. A name that is
bound locally is not assigned. -/
def assigned? : Access → Option Name
  | set name _ | setOrLocal name _ | append name _ | replace name _ => some name
  | get _ | localSet _ _ | pushFrame | popFrame => none

/-- No more frames are popped than were pushed and are there to be popped, at any moment. -/
def Nested (room : Nat) (accesses : List Access) : Prop :=
  ∀ front, front <+: accesses → front.count popFrame ≤ room + front.count pushFrame

/-- At any moment no more frames were popped than pushed, and as many in the end. -/
structure Balanced (accesses : List Access) : Prop where
  nested : Nested 0 accesses
  closed : accesses.count popFrame = accesses.count pushFrame

instance (room : Nat) (accesses : List Access) : Decidable (Nested room accesses) :=
  decidable_of_iff
    (∀ front ∈ accesses.inits, front.count popFrame ≤ room + front.count pushFrame)
    (by simp only [Nested, List.mem_inits])

end Access

/-- The frames on top of the given number of outer ones. -/
def above (m : Memory) (outer : Nat) : List Frame :=
  m.frames.take (m.depth - outer)

/-- An access assigns a name that no frame on top of the outer ones binds. -/
def Escapes (m : Memory) (outer : Nat) (x : Name) (a : Access) : Prop :=
  a.assigned? = some x ∧ ∀ frame ∈ m.above outer, frame.contains x = false

instance (m : Memory) (outer : Nat) (x : Name) (a : Access) : Decidable (m.Escapes outer x a) :=
  inferInstanceAs (Decidable (_ ∧ _))

variable {x : Name}

theorem escapes_iff
    {m : Memory}
    {inner outer : Slots}
    {a : Access}
    (h : m.slots x = inner ++ outer) :
    m.Escapes outer.length x a ↔ a.assigned? = some x ∧ inner.any Option.isSome = false := by
  have hdepth : m.depth - outer.length = inner.length := by
    rw [← m.length_slots x, h, List.length_append]
    omega
  have hinner : (m.above outer.length).map (·.get? x) = inner := by
    rw [above, hdepth, List.map_take]
    change (m.slots x).take inner.length = inner
    rw [h, List.take_left']
    rfl
  rw [Escapes, ← hinner]
  simp [Bindings.contains]

namespace Access

variable {a : Access} {slots upper : Slots} {slot : Option Value}

/-- An access makes a column longer or shorter by a push or a pop. -/
theorem length_onSlots
    (hpop : a = .popFrame → 1 < slots.length) :
    (a.onSlots x slots).length + [a].count .popFrame =
      slots.length + [a].count .pushFrame := by
  cases a with
  | get name | pushFrame => simp [onSlots]
  | localSet name v =>
      simp only [onSlots]
      split <;> simp
  | set name v =>
      simp only [onSlots]
      split
      · split <;> simp
      · simp
  | setOrLocal name v =>
      simp only [onSlots]
      split
      · split <;> simp
      · simp
  | append name v =>
      simp only [onSlots]
      split
      · split <;> simp
      · simp
  | replace name v =>
      simp only [onSlots]
      split <;> simp
  | popFrame =>
      have hlength := hpop rfl
      simp only [onSlots, if_neg (Nat.not_le_of_lt hlength), List.length_tail]
      simp
      omega

/-- An access that does not escape leaves the slots from before as they are. The slot of the new
frame stays taken once it is. -/
theorem onSlots_scope
    (base : Slots)
    (hpop : a = .popFrame → upper ≠ [])
    (hassigned : a.assigned? = some x → (upper ++ [slot]).any Option.isSome = true) :
    ∃ upper' slot',
      a.onSlots x (upper ++ slot :: base) = upper' ++ slot' :: base ∧
      (slot.isSome = true → slot'.isSome = true) := by
  -- an assignment finds the name above the slots from before, in or on top of the new frame
  have hfill : ∀ v : Value, (upper ++ [slot]).any Option.isSome = true →
      ∃ upper' slot',
        Slots.fillNearest v (upper ++ slot :: base) = upper' ++ slot' :: base ∧
        (slot.isSome = true → slot'.isSome = true) := by
    intro v htaken
    rw [Slots.fillNearest_append]
    split
    · exact ⟨_, slot, rfl, id⟩
    · rename_i hupper
      cases slot with
      | none =>
          simp [Bool.eq_false_iff.2 hupper] at htaken
      | some w =>
          exact ⟨upper, some v, rfl, fun _ => rfl⟩
  have htaken : (upper ++ [slot]).any Option.isSome = true →
      (upper ++ slot :: base).any Option.isSome = true := by
    intro h
    rw [List.append_cons, List.any_append, h, Bool.true_or]
  have hsame : ∃ upper' slot',
      upper ++ slot :: base = upper' ++ slot' :: base ∧
      (slot.isSome = true → slot'.isSome = true) :=
    ⟨upper, slot, rfl, id⟩
  cases a with
  | get name => exact hsame
  | pushFrame => exact ⟨none :: upper, slot, rfl, id⟩
  | popFrame =>
      cases upper with
      | nil => exact absurd rfl (hpop rfl)
      | cons top upper =>
          refine ⟨upper, slot, ?_, id⟩
          simp [onSlots]
  | localSet name v =>
      simp only [onSlots]
      split
      · cases upper with
        | nil => exact ⟨[], some v, rfl, fun _ => rfl⟩
        | cons top upper => exact ⟨some v :: upper, slot, rfl, id⟩
      · exact hsame
  | set name v | setOrLocal name v =>
      simp only [onSlots]
      split
      · rename_i h
        have hname := hassigned (congrArg some h.1)
        rw [if_pos (htaken hname)]
        exact hfill v hname
      · exact hsame
  | append name v =>
      simp only [onSlots]
      split
      · rename_i h
        split
        · exact hfill _ (hassigned (congrArg some h))
        · exact hsame
      · exact hsame
  | replace name v =>
      simp only [onSlots]
      split
      · rename_i h
        exact hfill v (hassigned (congrArg some h))
      · exact hsame

theorem Nested.left
    {room : Nat}
    {front back : List Access}
    (h : Nested room (front ++ back)) :
    Nested room front :=
  fun _ hpart => h _ (hpart.trans (List.prefix_append front back))

/-- What follows some accesses has the room that these leave. -/
theorem Nested.right
    {room room' : Nat}
    (front : List Access)
    {back : List Access}
    (h : Nested room (front ++ back))
    (hroom : room' + front.count popFrame = room + front.count pushFrame) :
    Nested room' back := by
  intro part hpart
  have hcount := h (front ++ part) ((List.prefix_append_right_inj front).2 hpart)
  rw [List.count_append, List.count_append] at hcount
  omega

end Access

/-- An access adds a frame by a push and removes one by a pop. -/
theorem depth_after
    {m : Memory}
    {a : Access}
    (hpop : a = .popFrame → 1 < m.depth) :
    (m.after a).depth + [a].count .popFrame = m.depth + [a].count .pushFrame := by
  -- the depth is the length of any column
  rw [← (m.after a).length_slots "", ← m.length_slots "", slots_after]
  rw [← m.length_slots ""] at hpop
  exact Access.length_onSlots hpop

theorem depth_afterAll
    {m : Memory}
    {accesses : List Access}
    (h : Access.Nested (m.depth - 1) accesses) :
    (m.afterAll accesses).depth + accesses.count .popFrame =
      m.depth + accesses.count .pushFrame := by
  induction accesses generalizing m with
  | nil => rfl
  | cons a rest ih =>
      have hcount := h [a] (by simp)
      have hone := m.one_le_depth
      have hpop : a = .popFrame → 1 < m.depth := by
        rintro rfl
        simp at hcount
        omega
      have hdepth := depth_after hpop
      have hone' := (m.after a).one_le_depth
      have hrest := ih (m := m.after a) (.right [a] h (by omega))
      rw [afterAll_cons, ← List.singleton_append, List.count_append, List.count_append]
      omega

/-- A sequence of accesses leaves the slots from before as they are when the new frame binds the
name, or else when none of the accesses escapes. -/
theorem slots_afterAll
    {m : Memory}
    {accesses : List Access}
    {upper base : Slots}
    {slot : Option Value}
    (hm : m.slots x = upper ++ slot :: base)
    (hnested : Access.Nested upper.length accesses)
    (hstays : slot.isSome = true ∨
      ∀ i a, accesses[i]? = some a → ¬ (m.afterAll (accesses.take i)).Escapes base.length x a) :
    ∃ upper' slot', (m.afterAll accesses).slots x = upper' ++ slot' :: base := by
  induction accesses generalizing m upper slot with
  | nil =>
      exact ⟨upper, slot, hm⟩
  | cons a rest ih =>
      have hcount := hnested [a] (by simp)
      have hpop : a = .popFrame → upper ≠ [] := by
        rintro rfl rfl
        simp at hcount
      have hassigned : a.assigned? = some x → (upper ++ [slot]).any Option.isSome = true := by
        intro ha
        rcases hstays with hslot | hstays
        · simp [hslot]
        · have hnot := hstays 0 a rfl
          have hinner := hm.trans (List.append_cons upper slot base)
          rw [List.take_zero, afterAll_nil, escapes_iff hinner] at hnot
          exact eq_true_of_ne_false fun hnone => hnot ⟨ha, hnone⟩
      obtain ⟨upper₁, slot₁, hslots, hslot₁⟩ := Access.onSlots_scope base hpop hassigned
      have hm₁ : (m.after a).slots x = upper₁ ++ slot₁ :: base := by
        rw [slots_after, hm, hslots]
      have hroom : upper₁.length + [a].count .popFrame = upper.length + [a].count .pushFrame := by
        have hdepth : m.depth = upper.length + (base.length + 1) := by
          rw [← m.length_slots x, hm, List.length_append, List.length_cons]
        have hdepth₁ : (m.after a).depth = upper₁.length + (base.length + 1) := by
          rw [← (m.after a).length_slots x, hm₁, List.length_append, List.length_cons]
        have hframes : a = .popFrame → 1 < m.depth := by
          intro ha
          have hpos := List.length_pos_iff.2 (hpop ha)
          omega
        have := depth_after hframes
        omega
      refine ih hm₁ (.right [a] hnested hroom) ?_
      rcases hstays with hslot | hstays
      · exact Or.inl (hslot₁ hslot)
      · right
        intro i b hb
        exact hstays (i + 1) b hb

/-- Where the new frame is the innermost one, its slot is the only one on top of those from
before. -/
theorem slots_of_depth
    {m : Memory}
    {base : Slots}
    (hslots : ∃ upper slot, m.slots x = upper ++ slot :: base)
    (hdepth : m.depth = base.length + 1) :
    ∃ slot, m.slots x = slot :: base := by
  obtain ⟨upper, slot, hslots⟩ := hslots
  have hupper : upper.length = 0 := by
    have hlength := congrArg List.length hslots
    rw [length_slots, List.length_append, List.length_cons] at hlength
    omega
  rw [List.length_eq_zero_iff.1 hupper] at hslots
  exact ⟨slot, hslots⟩

/-- In a new scope the depth counts the frames pushed and not yet popped. -/
theorem depth_in_scope
    (m : Memory)
    {accesses : List Access}
    (h : Access.Nested 0 accesses) :
    (m.pushFrame.afterAll accesses).depth + accesses.count .popFrame =
      m.depth + 1 + accesses.count .pushFrame := by
  have hroom : Access.Nested (m.pushFrame.depth - 1) accesses := by
    intro front hfront
    have := h front hfront
    omega
  rw [depth_afterAll hroom, depth_pushFrame]

/-- A scope in which nothing escapes leaves the slots from before as they are. -/
theorem slots_in_scope
    (m : Memory)
    {accesses : List Access}
    (h : Access.Nested 0 accesses)
    (hstays : ∀ i a, accesses[i]? = some a →
      ¬ (m.pushFrame.afterAll (accesses.take i)).Escapes m.depth x a) :
    ∃ upper slot, (m.pushFrame.afterAll accesses).slots x = upper ++ slot :: m.slots x := by
  rw [← m.length_slots x] at hstays
  have hpush : m.pushFrame.slots x = [] ++ none :: m.slots x := rfl
  exact slots_afterAll hpush h (Or.inr hstays)

/-- So does one in which the new frame binds the name before anything assigns it. -/
theorem slots_in_scope_of_shadowed
    (m : Memory)
    {front back : List Access}
    {v : Value}
    (h : Access.Nested 0 (front ++ .localSet x v :: back))
    (hv : v.isIdent = false)
    (hinner : (m.pushFrame.afterAll front).depth = m.depth + 1)
    (hfront : ∀ a ∈ front, a.assigned? ≠ some x) :
    ∃ upper slot,
      (m.pushFrame.afterAll (front ++ .localSet x v :: back)).slots x =
        upper ++ slot :: m.slots x := by
  have hstays : ∀ i a, front[i]? = some a →
      ¬ (m.pushFrame.afterAll (front.take i)).Escapes m.depth x a := by
    rintro i a hi ⟨ha, -⟩
    exact hfront a (List.mem_of_getElem? hi) ha
  obtain ⟨slot, hslots⟩ :=
    slots_of_depth (slots_in_scope m h.left hstays) (by rw [hinner, length_slots])
  -- from here on the slot of the new frame is taken
  have hshadow :
      ((m.pushFrame.afterAll front).after (.localSet x v)).slots x =
        [] ++ some v :: m.slots x := by
    rw [slots_after, hslots]
    simp [Access.onSlots, hv, Slots.fillInnermost]
  have hback : Access.Nested 0 back := by
    have hcount := depth_in_scope m h.left
    rw [List.append_cons] at h
    refine .right _ h ?_
    simp only [List.count_append, List.count_singleton, beq_iff_eq, reduceCtorEq, if_false]
    omega
  rw [afterAll_append, afterAll_cons]
  exact slots_afterAll hshadow hback (Or.inl rfl)

/-- **What happens in a scope stays there.** Push a frame on any memory, perform any accesses,
failing ones included, that push and pop frames in balance, and pop the frame. The pop succeeds, the
depth is as before, and for every name each frame binds the name as before, unless some access
assigned the name at a moment when no frame pushed since bound it. So a name looks up as before when
it is only bound locally, and also when it is bound locally in the new frame before anything assigns
it. -/
theorem isolation_of_scope
    (m : Memory)
    {accesses : List Access}
    (h : Access.Balanced accesses) :
    ∃ m',
      (m.pushFrame.afterAll accesses).popFrame = .ok m' ∧
      m'.depth = m.depth ∧
      (∀ x,
        (∀ i a, accesses[i]? = some a →
          ¬ (m.pushFrame.afterAll (accesses.take i)).Escapes m.depth x a) →
        m'.slots x = m.slots x) ∧
      (∀ x, (∀ a ∈ accesses, a.assigned? ≠ some x) → m'.get x = m.get x) ∧
      (∀ x v front back,
        accesses = front ++ .localSet x v :: back →
        v.isIdent = false →
        (m.pushFrame.afterAll front).depth = m.depth + 1 →
        (∀ a ∈ front, a.assigned? ≠ some x) →
        m'.get x = m.get x) := by
  have hdepth : (m.pushFrame.afterAll accesses).depth = m.depth + 1 := by
    have hcount := depth_in_scope m h.nested
    have hclosed := h.closed
    omega
  obtain ⟨frame, m', hm'⟩ : ∃ frame m', m.pushFrame.afterAll accesses = scope frame m' := by
    generalize m.pushFrame.afterAll accesses = q at hdepth
    cases q with
    | root frame =>
        have hone := m.one_le_depth
        simp only [depth] at hdepth
        omega
    | scope frame m' => exact ⟨frame, m', rfl⟩
  have hcolumn : ∀ x, (∃ upper slot,
      (m.pushFrame.afterAll accesses).slots x = upper ++ slot :: m.slots x) →
      m'.slots x = m.slots x := by
    intro x hslots
    obtain ⟨slot, hslots⟩ := slots_of_depth hslots (by rw [hdepth, length_slots])
    rw [hm', slots_scope] at hslots
    exact (List.cons.inj hslots).2
  refine ⟨m', by rw [hm']; rfl, ?_, ?_, ?_, ?_⟩
  · rw [hm', depth] at hdepth
    omega
  · intro x hstays
    exact hcolumn x (slots_in_scope m h.nested hstays)
  · intro x hlocal
    refine get_of_slots (hcolumn x (slots_in_scope m h.nested ?_))
    rintro i a hi ⟨ha, -⟩
    exact hlocal a (List.mem_of_getElem? hi) ha
  · rintro x v front back rfl hv hinner hfront
    exact get_of_slots (hcolumn x (slots_in_scope_of_shadowed m h.nested hv hinner hfront))

/-- Globals named `x` and `y`. -/
def twoGlobals : Memory :=
  .root ((Bindings.empty.insert "x" (.int 1)).insert "y" (.int 2))

/-- Shadows `x`, assigns `x` and `y` in a scope inside, and binds `z` there before it assigns it. -/
def nestedScope : List Access :=
  [.get "z", .localSet "x" (.ofChars []), .pushFrame, .set "y" (.int 3), .append "x" (.char 'a'),
    .localSet "z" (.int 4), .set "z" (.int 5), .set "z" (.ident "y"), .popFrame,
    .setOrLocal "x" (.int 6)]

/-- The global `x` was assigned only while it was shadowed, and no frame binds `z` any more. The
global `y` has changed. -/
theorem isolation_of_nestedScope :
    ∃ m',
      (twoGlobals.pushFrame.afterAll nestedScope).popFrame = .ok m' ∧
      m'.depth = 1 ∧
      m'.get "x" = twoGlobals.get "x" ∧
      m'.slots "z" = [none] ∧
      m'.get? "y" = some (.int 3) := by
  have hbalanced : Access.Balanced nestedScope := ⟨by decide, by decide⟩
  have hstays : ∀ i < nestedScope.length, ∀ a ∈ nestedScope[i]?,
      ¬ (twoGlobals.pushFrame.afterAll (nestedScope.take i)).Escapes 1 "z" a := by
    decide
  obtain ⟨m', hpop, hdepth, hslots, -, hshadowed⟩ := isolation_of_scope twoGlobals hbalanced
  refine ⟨m', hpop, hdepth, ?_, ?_, ?_⟩
  · exact hshadowed "x" (.ofChars []) [.get "z"] _ rfl rfl (by decide) (by decide)
  · refine hslots "z" ?_
    intro i a hi
    exact hstays i (List.getElem?_eq_some_iff.1 hi).1 a hi
  · cases hpop
    decide

end Memory
end Trapline
