import Trapline.Proofs.LoopItem
import Trapline.Proofs.Slots

/-!
# Two ways to grow a vector

A vector grows by addition, which joins two vectors, and in place, when values are pushed one by one
onto the vector in the nearest binding of a variable. Both come to the same vector. In place,
nothing but that binding changes (`Memory.Replaces`), and it is found again by every push.

The text of a vector depends on all of its elements: one that is not a character puts brackets
around all the others. A joined vector is a string exactly if both parts are, and then its text is
the texts of the parts put together.

Main statements:
* `Value.display_append`, `Value.display_of_not_isString`: the text of a joined vector.
* `Memory.replaces_rebind`: the one binding that changes.
* `Machine.pushAll_eq`, `Machine.run_of_pushes`: values pushed one by one, and as a part of a run.
* `Machine.growth_of_vectors`: addition, text and pushes together.
-/

namespace Trapline

namespace Value

theorem isString_append
    (xs ys : List Value) :
    (vector (xs ++ ys)).isString = ((vector xs).isString && (vector ys).isString) :=
  List.all_append

theorem display_of_isString
    {items : List Value}
    (h : (vector items).isString = true) :
    (vector items).display = String.join (items.map display) := by
  rw [isString] at h
  rw [display, if_pos h, displayAll_eq_map]

theorem display_of_not_isString
    {items : List Value}
    (h : (vector items).isString = false) :
    (vector items).display = bracketed (items.map display) := by
  rw [isString] at h
  rw [display, if_neg (by simp [h]), displayAll_eq_map]

/-- The text of two strings is put together. -/
theorem display_append
    {xs ys : List Value}
    (hxs : (vector xs).isString = true)
    (hys : (vector ys).isString = true) :
    (vector (xs ++ ys)).display = (vector xs).display ++ (vector ys).display := by
  have hsum : (vector (xs ++ ys)).isString = true := by rw [isString_append, hxs, hys]; rfl
  rw [display_of_isString hsum, display_of_isString hxs, display_of_isString hys, List.map_append,
    String.join_append]

end Value

namespace Bindings

variable {α : Type}

theorem insert_of_get?
    {b : Bindings α}
    {name : Name}
    {a : α}
    (h : b.get? name = some a) :
    b.insert name a = b := by
  obtain ⟨entries⟩ := b
  suffices hentries : replace name a entries = entries by rw [insert, hentries]
  replace h : lookup name entries = some a := h
  induction entries with
  | nil => cases h
  | cons entry rest ih =>
      obtain ⟨key, b⟩ := entry
      rw [lookup] at h
      rw [replace]
      split
      · rename_i hkey
        rw [if_pos hkey] at h
        cases h
        rfl
      · rename_i hkey
        rw [if_neg hkey] at h
        rw [ih h]

end Bindings

namespace Memory

/-- One memory is the other with the nearest binding of a name replaced by another value: every
other binding, in this frame and in the others, is the same. -/
def Replaces (m : Memory) (name : Name) (v w : Value) (m' : Memory) : Prop :=
  ∃ inner frame frame' outer,
    m.frames = inner ++ frame :: outer ∧
    m'.frames = inner ++ frame' :: outer ∧
    (∀ f ∈ inner, f.get? name = none) ∧
    frame.get? name = some v ∧
    frame'.get? name = some w ∧
    ∀ other, other ≠ name → frame'.get? other = frame.get? other

variable {m : Memory} {name : Name} {v : Value} {items : List Value}

theorem contains_of_get?
    (h : m.get? name = some v) :
    m.contains name = true := by
  rw [contains, h]
  rfl

theorem rebind_of_get?
    (h : m.get? name = some v) :
    m.rebind name v = m := by
  induction m with
  | root frame =>
      have hframe : frame.get? name = some v := h
      simp [rebind, Bindings.insert_of_get? hframe]
  | scope frame outer ih =>
      rw [get?, Option.or_eq_some_iff] at h
      rcases h with hframe | ⟨hnone, houter⟩
      · simp [rebind, Bindings.contains, hframe, Bindings.insert_of_get? hframe]
      · simp [rebind, Bindings.contains, hnone, ih houter]

/-- A name stands for what the first frame that binds it says. -/
theorem get?_of_frames
    {inner outer : List Frame}
    {frame : Frame}
    (hframes : m.frames = inner ++ frame :: outer)
    (hinner : ∀ f ∈ inner, f.contains name = false)
    (hframe : frame.contains name = true) :
    m.get? name = frame.get? name := by
  have hnone : inner.findSome? (·.get? name) = none :=
    List.findSome?_eq_none_iff.2 fun f hf => Bindings.get?_eq_none_of_contains (hinner f hf)
  obtain ⟨v, hv⟩ := Option.isSome_iff_exists.1 hframe
  rw [get?_eq_nearest?, slots, Slots.nearest?, List.findSome?_map, Function.id_comp, hframes,
    List.findSome?_append, hnone, Option.none_or, List.findSome?_cons, hv]

/-- Rebinding a name replaces its nearest binding. -/
theorem replaces_rebind
    (h : m.get? name = some v)
    (w : Value) :
    m.Replaces name v w (m.rebind name w) := by
  obtain ⟨inner, frame, outer, hframes, hinner, hframe, hrebind⟩ :=
    frames_rebind (contains_of_get? h) w
  refine ⟨inner, frame, frame.insert name w, outer, hframes, hrebind,
    fun f hf => Bindings.get?_eq_none_of_contains (hinner f hf), ?_,
    frame.get?_insert_self name w, ?_⟩
  · rw [← get?_of_frames hframes hinner hframe, h]
  · intro other hother
    rw [Bindings.get?_insert, if_neg (Ne.symm hother)]

theorem append_of_get?
    (h : m.get? name = some (.vector items))
    (v : Value) :
    m.append name v = .ok (m.rebind name (.vector (items ++ [v]))) := by
  rw [append, h]

/-- After a push the variable is bound to the vector with one element more. -/
theorem get?_rebind_self
    (h : m.get? name = some v)
    (w : Value) :
    (m.rebind name w).get? name = some w := by
  rw [get?_rebind, if_pos ⟨rfl, contains_of_get? h⟩]

theorem deref_of_not_isIdent
    (m : Memory)
    (h : v.isIdent = false) :
    m.deref v = .ok v := by
  cases v with
  | ident name => cases h
  | int n | float x | char c | vector items => rfl

end Memory

namespace Machine

variable {σ : Type} [Sink σ] {p : Program} {m : Machine σ} {name : Name} {x y : List Value}
  {v : Value}

/-- Pushes values one by one onto the vector in a variable. -/
def pushAll (p : Program) (name : Name) : List Value → Machine σ → Progress σ
  | [], m => .running m
  | v :: rest, m =>
      match m.execute p [.ident name, v] .vecPush with
      | .running m => pushAll p name rest m
      | stopped => stopped

/-- A push onto a vector replaces it by one with an element more. -/
theorem exec_vecPush
    (p : Program)
    (h : m.memory.get? name = some (.vector x))
    (hv : v.isIdent = false) :
    m.exec p (.vecPush name v) =
      .running { m with memory := m.memory.rebind name (.vector (x ++ [v])) } := by
  have hupdate : (Action.vecPush name v).update m.memory = m.memory.append name v := by
    rw [Action.update, m.memory.deref_of_not_isIdent hv]
    rfl
  calc m.exec p (.vecPush name v)
      = m.store ((Action.vecPush name v).update m.memory) := rfl
    _ = .running { m with memory := m.memory.rebind name (.vector (x ++ [v])) } := by
      rw [hupdate, Memory.append_of_get? h, store]

/-- Values pushed one by one stand behind the old elements in their order. -/
theorem pushAll_eq
    (p : Program)
    (h : m.memory.get? name = some (.vector x))
    (hy : ∀ v ∈ y, v.isIdent = false) :
    pushAll p name y m = .running { m with memory := m.memory.rebind name (.vector (x ++ y)) } := by
  induction y generalizing m x with
  | nil =>
      rw [List.append_nil, Memory.rebind_of_get? h]
      rfl
  | cons v rest ih =>
      obtain ⟨hv, hrest⟩ := List.forall_mem_cons.1 hy
      have hpush : m.execute p [.ident name, v] .vecPush =
          .running { m with memory := m.memory.rebind name (.vector (x ++ [v])) } := by
        rw [← exec_vecPush p h hv]
        exact execute_action p m (.vecPush name v)
      rw [pushAll, hpush]
      simp only
      rw [ih (Memory.get?_rebind_self h _) hrest]
      simp only [Memory.rebind_rebind, List.append_assoc, List.singleton_append]

/-- One statement that pushes a value, in a run without a limit. -/
theorem step_of_vecPush
    (haction : p.action? m.position = some (.vecPush name v))
    (hjumped : m.jumped = false)
    (h : m.memory.get? name = some (.vector x))
    (hv : v.isIdent = false) :
    m.step p none = .running
      { m with
        memory := m.memory.rebind name (.vector (x ++ [v]))
        position := m.position + 1
        steps := m.steps + 1 } := by
  obtain ⟨location, hstep⟩ := step_of_action haction
  have hcount : m.count.memory.get? name = some (.vector x) := h
  rw [hstep, exec_vecPush p hcount hv, finish, advance_of_not_jumped]
  · rfl
  · exact hjumped

/-- Statements in a row that push values. -/
theorem run_of_pushes
    (hactions : ∀ k v, y[k]? = some v → p.action? (m.position + k) = some (.vecPush name v))
    (hjumped : m.jumped = false)
    (h : m.memory.get? name = some (.vector x))
    (hy : ∀ v ∈ y, v.isIdent = false) :
    m.run p none y.length = .running
      { m with
        memory := m.memory.rebind name (.vector (x ++ y))
        position := m.position + y.length
        steps := m.steps + y.length } := by
  induction y generalizing m x with
  | nil =>
      rw [List.append_nil, Memory.rebind_of_get? h]
      rfl
  | cons v rest ih =>
      obtain ⟨hv, hrest⟩ := List.forall_mem_cons.1 hy
      have hstep := step_of_vecPush (hactions 0 v rfl) hjumped h hv
      have hlater : ∀ k w, rest[k]? = some w →
          p.action? (m.position + 1 + k) = some (.vecPush name w) := by
        intro k w hk
        rw [Nat.add_assoc, Nat.add_comm 1 k]
        exact hactions (k + 1) w hk
      rw [List.length_cons, run_succ_of_step hstep]
      refine Eq.trans (ih hlater hjumped (Memory.get?_rebind_self h _) hrest) ?_
      simp only [Memory.rebind_rebind, List.append_assoc, List.singleton_append, Nat.add_assoc,
        Nat.add_comm 1]

/-- A limit that leaves room for the pushes changes nothing. -/
theorem run_limit_of_pushes
    {limit : Option Nat}
    (hlimit : ∀ n ∈ limit, m.steps + y.length ≤ n)
    (hactions : ∀ k v, y[k]? = some v → p.action? (m.position + k) = some (.vecPush name v))
    (hjumped : m.jumped = false)
    (h : m.memory.get? name = some (.vector x))
    (hy : ∀ v ∈ y, v.isIdent = false) :
    m.run p limit y.length = .running
      { m with
        memory := m.memory.rebind name (.vector (x ++ y))
        position := m.position + y.length
        steps := m.steps + y.length } := by
  have hrun := run_of_pushes hactions hjumped h hy
  cases limit with
  | none => exact hrun
  | some n =>
      have hsteps : (m.run p none y.length).machine.steps ≤ n := by
        rw [hrun]
        exact hlimit n rfl
      rw [run_limit_of_steps_le hsteps, hrun]

/-- **Two ways to grow a vector.** The sum of two vectors has the elements of the first and then
those of the second. It is a string if both are, and then its text is their texts put together; else
all the elements stand between brackets. Pushing the elements of the second vector one by one onto a
variable that holds the first leaves the sum in the nearest binding of the variable and changes
nothing else, whether the pushes are executed by themselves or as statements of a run. Only an
identifier could not be pushed so: it would stand for the value of a variable. -/
theorem growth_of_vectors
    (p : Program)
    (x y : List Value) :
    (Value.vector x).add (.vector y) = .ok (.vector (x ++ y)) ∧
    ((Value.vector (x ++ y)).isString = true ↔
      (Value.vector x).isString = true ∧ (Value.vector y).isString = true) ∧
    ((Value.vector x).isString = true → (Value.vector y).isString = true →
      (Value.vector (x ++ y)).display = (Value.vector x).display ++ (Value.vector y).display) ∧
    (¬ ((Value.vector x).isString = true ∧ (Value.vector y).isString = true) →
      (Value.vector (x ++ y)).display =
        "[" ++ ", ".intercalate (x.map Value.display ++ y.map Value.display) ++ "]") ∧
    ∀ (m : Machine σ) (name : Name),
      m.memory.get? name = some (.vector x) →
      (∀ v ∈ y, v.isIdent = false) →
      ∃ memory,
        m.memory.Replaces name (.vector x) (.vector (x ++ y)) memory ∧
        pushAll p name y m = .running { m with memory } ∧
        ∀ limit : Option Nat,
          (∀ n ∈ limit, m.steps + y.length ≤ n) →
          m.jumped = false →
          (∀ k v, y[k]? = some v → p.action? (m.position + k) = some (.vecPush name v)) →
          m.run p limit y.length = .running
            { m with
              memory
              position := m.position + y.length
              steps := m.steps + y.length } := by
  have hstring : (Value.vector (x ++ y)).isString = true ↔
      (Value.vector x).isString = true ∧ (Value.vector y).isString = true := by
    rw [Value.isString_append, Bool.and_eq_true]
  refine ⟨rfl, hstring, Value.display_append, ?_, ?_⟩
  · intro hnot
    rw [← hstring, Bool.not_eq_true] at hnot
    rw [Value.display_of_not_isString hnot, List.map_append, Value.bracketed]
  · intro m name h hy
    refine ⟨m.memory.rebind name (.vector (x ++ y)), Memory.replaces_rebind h _,
      pushAll_eq p h hy, ?_⟩
    intro limit hlimit hjumped hactions
    exact run_limit_of_pushes hlimit hactions hjumped h hy

/-- A program that pushes a number and a vector onto a variable. -/
def twoPushes : Program := .ofCode #[
  { op := .vecPush, args := [.ident "v", .int 7],
    location := { file := "main", line := 1 }, accepted := Eq.refl true },
  { op := .vecPush, args := [.ident "v", .vector [.ident "w"]],
    location := { file := "main", line := 2 }, accepted := Eq.refl true }]

/-- A machine in three frames. The outer two bind the variable, and the innermost one does not. -/
def shadowed : Machine (Array String) where
  memory := .scope (Bindings.empty.insert "w" (.int 1))
    (.scope (Bindings.empty.insert "v" (Value.ofChars ['h', 'i']))
      (.root (Bindings.empty.insert "v" (Value.ofChars []))))
  traps := []
  position := 0
  jumped := false
  steps := 0
  out := #[]

/-- The number makes a list of the string: its characters now stand between brackets. The run has
reached its limit and the end of the program, and the variable of the root is still empty. -/
theorem growth_of_vectors_of_shadowed :
    (Value.vector [.char 'h', .char 'i', .int 7, .vector [.ident "w"]]).display =
      "[" ++ ", ".intercalate ["h", "i", "7", "[:w]"] ++ "]" ∧
    ∃ memory,
      shadowed.memory.Replaces "v" (Value.ofChars ['h', 'i'])
        (.vector [.char 'h', .char 'i', .int 7, .vector [.ident "w"]]) memory ∧
      pushAll twoPushes "v" [.int 7, .vector [.ident "w"]] shadowed =
        .running { shadowed with memory } ∧
      shadowed.run twoPushes (some 2) 2 =
        .running { shadowed with memory, position := 2, steps := 2 } := by
  obtain ⟨-, -, -, htext, hpush⟩ :=
    growth_of_vectors (σ := Array String) twoPushes [.char 'h', .char 'i']
      [.int 7, .vector [.ident "w"]]
  obtain ⟨memory, hreplaces, hall, hrun⟩ := hpush shadowed "v" (by decide) (by decide)
  refine ⟨(htext (by decide)).trans (by decide +kernel), memory, hreplaces, hall,
    hrun (some 2) ?_ rfl ?_⟩
  · rintro n ⟨⟩
    exact Nat.le_refl 2
  · intro k v hk
    rcases k with _ | _ | k
    · cases hk
      rfl
    · cases hk
      rfl
    · cases hk

end Machine
end Trapline
