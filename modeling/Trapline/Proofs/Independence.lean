import Trapline.Proofs.Slots

/-!
# Names do not get in each other's way

An access is about one name, or about no name when it pushes or pops a frame. Take a sequence of
accesses and one name, and leave out the accesses that are about other names. Every access that is
left finds the slots of the name as they were in the whole sequence, and what it does and answers
depends on these slots alone. So nothing can be told from the accesses that were left out.

Main statements:
* `Memory.answer_of_slots`, `Memory.slots_afterAll_filter`: one access, and a sequence of them.
* `Memory.independence_of_names`: a sequence with and without the accesses to other names.
-/

namespace Trapline
namespace Memory

namespace Access

/-- The name that an access is about. -/
def target? : Access → Option Name
  | get name | localSet name _ | set name _ | setOrLocal name _ | append name _
  | replace name _ => some name
  | pushFrame | popFrame => none

/-- Whether an access is about the name or about no name. -/
def concerns (a : Access) (x : Name) : Bool :=
  a.target?.all (· == x)

variable {a : Access} {x : Name}

theorem concerns_iff :
    a.concerns x = true ↔ ∀ name, a.target? = some name → name = x := by
  cases h : a.target? <;> simp [concerns, h]

/-- An access to another name leaves the slots of a name as they are. -/
theorem onSlots_of_not_concerns
    (h : a.concerns x = false)
    (slots : Slots) :
    a.onSlots x slots = slots := by
  cases a with
  | get name => rfl
  | localSet name v | set name v | setOrLocal name v | append name v | replace name v =>
      have hname : name ≠ x := by simpa [concerns, target?] using h
      simp [onSlots, hname]
  | pushFrame | popFrame => cases h

end Access

/-- What an access gives back: a fault, or success. A look-up comes with the value that it finds,
and so does an overwrite. -/
def answer (m : Memory) : Access → Except Fault (Option Value)
  | .get name | .replace name _ => (m.get name).map some
  | a => (m.perform a).map fun _ => none

/-- The accesses of a sequence, each with what it gives back. -/
def answers (m : Memory) : List Access → List (Access × Except Fault (Option Value))
  | [] => []
  | a :: rest => (a, m.answer a) :: (m.after a).answers rest

variable {m m' : Memory} {a : Access} {x : Name} {v : Value}

theorem answer_popFrame
    (m : Memory) :
    m.answer .popFrame = if m.depth = 1 then .error .popRootFrame else .ok none := by
  cases m with
  | root frame => rfl
  | scope frame outer =>
      have hdepth : ¬ outer.depth + 1 = 1 := by
        have := outer.one_le_depth
        omega
      rw [depth, if_neg hdepth]
      rfl

/-- What an access that is about no other name gives back depends on the slots of the name alone. -/
theorem answer_of_slots
    (ha : a.concerns x = true)
    (h : m'.slots x = m.slots x) :
    m'.answer a = m.answer a := by
  have hname := Access.concerns_iff.1 ha
  have hget := get?_of_slots h
  cases a with
  | get name | replace name v =>
      obtain rfl := hname name rfl
      simp only [answer, get, hget]
  | localSet name v | set name v | setOrLocal name v =>
      -- whether a value is stored does not depend on the memory at all
      simp only [answer, perform, localSet, set, setOrLocal, storing]
      split <;> rfl
  | append name v =>
      obtain rfl := hname name rfl
      simp only [answer, perform, append, hget]
      split <;> rfl
  | pushFrame => rfl
  | popFrame =>
      have hdepth : m'.depth = m.depth := by
        rw [← length_slots m' x, h, length_slots]
      rw [answer_popFrame, answer_popFrame, hdepth]

/-- A sequence of accesses and what is left of it make the same of the slots of a name. -/
theorem slots_afterAll_filter
    (h : m'.slots x = m.slots x)
    (accesses : List Access) :
    (m'.afterAll (accesses.filter (·.concerns x))).slots x = (m.afterAll accesses).slots x := by
  induction accesses generalizing m m' with
  | nil => exact h
  | cons a rest ih =>
      cases ha : a.concerns x with
      | true =>
          rw [List.filter_cons, if_pos ha]
          apply ih
          rw [slots_after, slots_after, h]
      | false =>
          rw [List.filter_cons, if_neg (by simp [ha])]
          apply ih
          rw [slots_after, Access.onSlots_of_not_concerns ha, h]

/-- The accesses that are left give back what they did in the whole sequence. -/
theorem answers_filter
    (h : m'.slots x = m.slots x)
    (accesses : List Access) :
    m'.answers (accesses.filter (·.concerns x)) =
      (m.answers accesses).filter (·.1.concerns x) := by
  induction accesses generalizing m m' with
  | nil => rfl
  | cons a rest ih =>
      rw [answers]
      cases ha : a.concerns x with
      | true =>
          have hslots : (m'.after a).slots x = (m.after a).slots x := by
            rw [slots_after, slots_after, h]
          rw [List.filter_cons, List.filter_cons, if_pos ha, if_pos ha, answers,
            answer_of_slots ha h, ih hslots]
      | false =>
          have hslots : m'.slots x = (m.after a).slots x := by
            rw [slots_after, Access.onSlots_of_not_concerns ha, h]
          rw [List.filter_cons, List.filter_cons, if_neg (by simp [ha]), if_neg (by simp [ha]),
            ih hslots]

/-- A name that was bound successfully stands for the value, in whichever frame it was bound. -/
theorem get_of_perform
    (ha : a = .set x v ∨ a = .localSet x v ∨ a = .setOrLocal x v)
    (h : m.perform a = .ok m') :
    m'.get x = .ok v := by
  suffices hget : m'.get? x = some v by
    rw [get, hget]
  rcases ha with rfl | rfl | rfl
  · simp only [perform, set, storing] at h
    split at h
    · cases h
    · cases h
      split
      · rename_i hcontains
        rw [get?_rebind, if_pos ⟨rfl, hcontains⟩]
      · rename_i hcontains
        rw [get?_bindRoot _ _ _ _ (Bool.eq_false_iff.2 hcontains), if_pos rfl]
  · simp only [perform, localSet, storing] at h
    split at h
    · cases h
    · cases h
      rw [get?_bindInnermost, if_pos rfl]
  · simp only [perform, setOrLocal, storing] at h
    split at h
    · cases h
    · cases h
      split
      · rename_i hcontains
        rw [get?_rebind, if_pos ⟨rfl, hcontains⟩]
      · rw [get?_bindInnermost, if_pos rfl]

/-- **Names are independent.** Perform any accesses, failing ones included, on any memory, and then
again without those that are about another name than `x`. The name `x` looks up alike afterwards,
the accesses that are left give back the same, faults included, and the number of frames is the
same. Right after `x` was bound to a value successfully it stands for that value. -/
theorem independence_of_names
    (m : Memory)
    (accesses : List Access)
    (x : Name) :
    (m.afterAll (accesses.filter (·.concerns x))).get x = (m.afterAll accesses).get x ∧
    m.answers (accesses.filter (·.concerns x)) =
      (m.answers accesses).filter (·.1.concerns x) ∧
    (m.afterAll (accesses.filter (·.concerns x))).depth = (m.afterAll accesses).depth ∧
    ∀ front a back v m',
      accesses = front ++ a :: back →
      a = .set x v ∨ a = .localSet x v ∨ a = .setOrLocal x v →
      (m.afterAll front).perform a = .ok m' →
      m'.get x = .ok v := by
  have hslots := slots_afterAll_filter (m := m) (x := x) rfl accesses
  refine ⟨?_, answers_filter rfl accesses, ?_, ?_⟩
  · exact get_of_slots hslots
  · rw [← length_slots _ x, hslots, length_slots]
  · intro front a back v m' _ ha h
    exact get_of_perform ha h

/-- Binds `x` in two frames and `y` in between, with a fault for each kind of access. -/
def crossedAccesses : List Access :=
  [.set "y" (.ofChars []), .append "x" (.int 1), .set "x" (.ofChars ['a']), .pushFrame,
    .setOrLocal "y" (.int 2), .append "y" (.int 3), .localSet "x" (.ident "y"),
    .localSet "x" (.int 4), .replace "z" (.int 5), .append "x" (.int 6), .popFrame,
    .append "x" (.char 'b'), .popFrame, .get "y", .setOrLocal "x" (.int 7), .replace "x" (.int 8)]

/-- Without the accesses to `y` and `z` those to `x` still fail or find what they did. -/
theorem independence_of_crossedAccesses :
    (empty.afterAll (crossedAccesses.filter (·.concerns "x"))).get "x" = .ok (.int 8) ∧
    (empty.afterAll (crossedAccesses.filter (·.concerns "x"))).depth = 1 ∧
    empty.answers (crossedAccesses.filter (·.concerns "x")) =
      [(.append "x" (.int 1), .error (.invalidReference "x")),
        (.set "x" (.ofChars ['a']), .ok none),
        (.pushFrame, .ok none),
        (.localSet "x" (.ident "y"), .error (.storeIdentifier "x")),
        (.localSet "x" (.int 4), .ok none),
        (.append "x" (.int 6), .error (.notAVector "x" .int)),
        (.popFrame, .ok none),
        (.append "x" (.char 'b'), .ok none),
        (.popFrame, .error .popRootFrame),
        (.setOrLocal "x" (.int 7), .ok none),
        (.replace "x" (.int 8), .ok (some (.int 7)))] ∧
    ∃ m',
      (empty.afterAll (crossedAccesses.take 14)).perform (.setOrLocal "x" (.int 7)) = .ok m' ∧
      m'.get "x" = .ok (.int 7) := by
  obtain ⟨hget, hanswers, hdepth, hbound⟩ := independence_of_names empty crossedAccesses "x"
  refine ⟨hget.trans rfl, hdepth.trans rfl, hanswers.trans rfl, _, rfl, ?_⟩
  exact hbound (crossedAccesses.take 14) _ [.replace "x" (.int 8)] (.int 7) _ rfl
    (Or.inr (Or.inr rfl)) rfl

end Memory
end Trapline
