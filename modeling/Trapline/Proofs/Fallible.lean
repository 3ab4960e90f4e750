import Mathlib.Data.List.Forall2

/-!
# Computations that may fail

A computation in sequence succeeds when all its parts do, and fails with the fault of the first
part that fails. Over a list, a success pairs every element with its result.
-/

namespace Trapline

variable {ε α β : Type}

theorem bind_eq_ok_iff
    {x : Except ε α}
    {f : α → Except ε β}
    {b : β} :
    x >>= f = .ok b ↔ ∃ a, x = .ok a ∧ f a = .ok b := by
  cases x with
  | error fault =>
      simp [bind, Except.bind]
  | ok a =>
      simp [bind, Except.bind]

theorem bind_eq_error_iff
    {x : Except ε α}
    {f : α → Except ε β}
    {fault : ε} :
    x >>= f = .error fault ↔
      x = .error fault ∨ ∃ a, x = .ok a ∧ f a = .error fault := by
  cases x with
  | error fault' =>
      simp [bind, Except.bind]
  | ok a =>
      simp [bind, Except.bind]

theorem exists_of_isOk
    {x : Except ε α}
    (h : x.isOk = true) :
    ∃ a, x = .ok a := by
  cases x with
  | error fault =>
      cases h
  | ok a =>
      exact ⟨a, rfl⟩

/-- A computation over a list that succeeds pairs every element with its result. -/
theorem forall₂_of_mapM
    {f : α → Except ε β}
    {xs : List α}
    {ys : List β}
    (h : xs.mapM f = .ok ys) :
    List.Forall₂ (fun x y => f x = .ok y) xs ys := by
  induction xs generalizing ys with
  | nil =>
      simp only [List.mapM_nil, pure, Except.pure, Except.ok.injEq] at h
      subst h
      exact .nil
  | cons x xs ih =>
      rw [List.mapM_cons] at h
      obtain ⟨y, hy, h⟩ := bind_eq_ok_iff.1 h
      obtain ⟨ys', hys, h⟩ := bind_eq_ok_iff.1 h
      simp only [pure, Except.pure, Except.ok.injEq] at h
      subst h
      exact .cons hy (ih hys)

/-- A computation over a list succeeds when it does on every element. -/
theorem mapM_of_forall₂
    {f : α → Except ε β}
    {xs : List α}
    {ys : List β}
    (h : List.Forall₂ (fun x y => f x = .ok y) xs ys) :
    xs.mapM f = .ok ys := by
  induction h with
  | nil =>
      rfl
  | cons hy _ ih =>
      rw [List.mapM_cons, hy, ih]
      rfl

/-- Each result of a computation over a list belongs to the element at the same place. -/
theorem exists_of_getElem?_mapM
    {f : α → Except ε β}
    {xs : List α}
    {ys : List β}
    (h : xs.mapM f = .ok ys)
    {i : Nat}
    {y : β}
    (hy : ys[i]? = some y) :
    ∃ x, xs[i]? = some x ∧ f x = .ok y := by
  have hall := forall₂_of_mapM h
  obtain ⟨hi, rfl⟩ := List.getElem?_eq_some_iff.1 hy
  have hi' : i < xs.length := by
    rw [hall.length_eq]
    exact hi
  exact ⟨xs[i], List.getElem?_eq_getElem hi', hall.get hi' hi⟩

/-- Each element of a list has its result at the same place. -/
theorem exists_getElem?_of_mapM
    {f : α → Except ε β}
    {xs : List α}
    {ys : List β}
    (h : xs.mapM f = .ok ys)
    {i : Nat}
    {x : α}
    (hx : xs[i]? = some x) :
    ∃ y, ys[i]? = some y ∧ f x = .ok y := by
  have hall := forall₂_of_mapM h
  obtain ⟨hi, rfl⟩ := List.getElem?_eq_some_iff.1 hx
  have hi' : i < ys.length := by
    rw [← hall.length_eq]
    exact hi
  exact ⟨ys[i], List.getElem?_eq_getElem hi', hall.get hi hi'⟩

/-- Every result of a computation over a list comes from an element. -/
theorem exists_of_mem_mapM
    {f : α → Except ε β}
    {xs : List α}
    {ys : List β}
    (h : xs.mapM f = .ok ys)
    {y : β}
    (hy : y ∈ ys) :
    ∃ x ∈ xs, f x = .ok y := by
  obtain ⟨i, hi⟩ := List.mem_iff_getElem?.1 hy
  obtain ⟨x, hx, hf⟩ := exists_of_getElem?_mapM h hi
  exact ⟨x, List.mem_of_getElem? hx, hf⟩

/-- A computation over a list fails on the first element on which it fails. -/
theorem exists_of_mapM_eq_error
    {f : α → Except ε β}
    {xs : List α}
    {fault : ε}
    (h : xs.mapM f = .error fault) :
    ∃ front x back,
      xs = front ++ x :: back ∧
      (∀ y ∈ front, ∃ z, f y = .ok z) ∧
      f x = .error fault := by
  induction xs with
  | nil =>
      cases h
  | cons x xs ih =>
      rw [List.mapM_cons] at h
      rcases bind_eq_error_iff.1 h with hx | ⟨y, hy, h⟩
      · exact ⟨[], x, xs, rfl, nofun, hx⟩
      · rcases bind_eq_error_iff.1 h with hxs | ⟨ys, -, h⟩
        · obtain ⟨front, z, back, rfl, hfront, hz⟩ := ih hxs
          exact ⟨x :: front, z, back, rfl, List.forall_mem_cons.2 ⟨⟨y, hy⟩, hfront⟩, hz⟩
        · cases h

/-- The first element on which a computation over a list fails decides how it fails. -/
theorem mapM_eq_error_iff
    {f : α → Except ε β}
    {xs : List α}
    {fault : ε} :
    xs.mapM f = .error fault ↔
      ∃ front x back,
        xs = front ++ x :: back ∧
        (∀ y ∈ front, ∃ z, f y = .ok z) ∧
        f x = .error fault := by
  refine ⟨exists_of_mapM_eq_error, ?_⟩
  rintro ⟨front, x, back, rfl, hfront, hx⟩
  induction front with
  | nil =>
      rw [List.nil_append, List.mapM_cons, hx]
      rfl
  | cons y front ih =>
      obtain ⟨⟨z, hz⟩, hfront⟩ := List.forall_mem_cons.1 hfront
      rw [List.cons_append, List.mapM_cons, hz, ih hfront]
      rfl

/-- Every element of a list is paired with an element of the other one. -/
theorem exists_of_mem_forall₂
    {R : α → β → Prop}
    {xs : List α}
    {ys : List β}
    (h : List.Forall₂ R xs ys)
    {x : α}
    (hx : x ∈ xs) :
    ∃ y ∈ ys, R x y := by
  induction h with
  | nil =>
      cases hx
  | @cons x' y xs ys hxy _ ih =>
      rcases List.mem_cons.1 hx with rfl | hx
      · exact ⟨y, by simp, hxy⟩
      · obtain ⟨y', hy', hR⟩ := ih hx
        exact ⟨y', List.mem_cons_of_mem y hy', hR⟩

/-- A computation over a list succeeds when it does on every element. -/
theorem exists_mapM_eq_ok_iff
    {f : α → Except ε β}
    {xs : List α} :
    (∃ ys, xs.mapM f = .ok ys) ↔ ∀ x ∈ xs, ∃ y, f x = .ok y := by
  constructor
  · rintro ⟨ys, hys⟩ x hx
    obtain ⟨y, -, hy⟩ := exists_of_mem_forall₂ (forall₂_of_mapM hys) hx
    exact ⟨y, hy⟩
  · intro h
    cases hmap : xs.mapM f with
    | ok ys =>
        exact ⟨ys, rfl⟩
    | error fault =>
        obtain ⟨front, x, back, rfl, -, hx⟩ := exists_of_mapM_eq_error hmap
        obtain ⟨y, hy⟩ := h x (by simp)
        rw [hx] at hy
        cases hy

/-- After a computation over a list has succeeded, a second one over its results is the two in
sequence on each element. -/
theorem mapM_of_mapM_eq_ok
    {γ : Type}
    {f : α → Except ε β}
    {g : β → Except ε γ}
    {xs : List α}
    {ys : List β}
    (h : xs.mapM f = .ok ys) :
    ys.mapM g = xs.mapM fun x => f x >>= g := by
  have hpairs := forall₂_of_mapM h
  clear h
  induction hpairs with
  | nil =>
      rfl
  | cons hy _ ih =>
      rw [List.mapM_cons, List.mapM_cons, ih, hy]
      rfl

/-- A computation over changed elements whose results are the changed ones gives the changed
list. -/
theorem mapM_map_of_comm
    {f g : α → Except ε β}
    {change : α → α}
    {change' : β → β}
    (h : ∀ x, g (change x) = (f x).map change')
    (xs : List α) :
    (xs.map change).mapM g = (xs.mapM f).map (List.map change') := by
  induction xs with
  | nil =>
      rfl
  | cons x xs ih =>
      rw [List.map_cons, List.mapM_cons, List.mapM_cons, h, ih]
      cases f x with
      | error e =>
          rfl
      | ok y =>
          cases xs.mapM f with
          | error e =>
              rfl
          | ok ys =>
              rfl

/-- A list whose elements are paired with their images is paired with its image. -/
theorem map_eq_of_forall₂
    {f : α → β}
    {xs : List α}
    {ys : List β}
    (h : List.Forall₂ (fun x y => f x = y) xs ys) :
    xs.map f = ys := by
  rw [← List.forall₂_eq_eq_eq, List.forall₂_map_left_iff]
  exact h

/-- Two lists have the same image exactly when their elements are paired by it. -/
theorem map_eq_map_iff_forall₂
    {γ : Type}
    {f : α → γ}
    {g : β → γ}
    {xs : List α}
    {ys : List β} :
    ys.map g = xs.map f ↔ List.Forall₂ (fun x y => g y = f x) xs ys := by
  rw [← List.forall₂_eq_eq_eq, List.forall₂_map_left_iff, List.forall₂_map_right_iff]
  exact ⟨List.Forall₂.flip, List.Forall₂.flip⟩

/-- Pairing through a middle element is pairing twice. -/
theorem forall₂_exists_iff
    {γ : Type}
    {R : α → β → Prop}
    {S : β → γ → Prop}
    {xs : List α}
    {zs : List γ} :
    List.Forall₂ (fun x z => ∃ y, R x y ∧ S y z) xs zs ↔
      ∃ ys, List.Forall₂ R xs ys ∧ List.Forall₂ S ys zs := by
  constructor
  · intro h
    induction h with
    | nil =>
        exact ⟨[], .nil, .nil⟩
    | cons hxz _ ih =>
        obtain ⟨y, hxy, hyz⟩ := hxz
        obtain ⟨ys, hxs, hzs⟩ := ih
        exact ⟨y :: ys, .cons hxy hxs, .cons hyz hzs⟩
  · rintro ⟨ys, hxs, hzs⟩
    induction hxs generalizing zs with
    | nil =>
        cases hzs
        exact .nil
    | cons hxy _ ih =>
        cases hzs with
        | cons hyz hzs =>
            exact .cons ⟨_, hxy, hyz⟩ (ih hzs)

/-- What is paired with a list in two parts has two parts. -/
theorem forall₂_append_left_iff
    {R : α → β → Prop}
    {xs xs' : List α}
    {zs : List β} :
    List.Forall₂ R (xs ++ xs') zs ↔
      ∃ ys ys', zs = ys ++ ys' ∧ List.Forall₂ R xs ys ∧ List.Forall₂ R xs' ys' := by
  induction xs generalizing zs with
  | nil =>
      simp
  | cons x xs ih =>
      simp only [List.cons_append, List.forall₂_cons_left_iff, ih]
      constructor
      · rintro ⟨y, _, hy, ⟨ys, ys', rfl, hys, hys'⟩, rfl⟩
        exact ⟨y :: ys, ys', rfl, ⟨y, ys, hy, hys, rfl⟩, hys'⟩
      · rintro ⟨_, ys', rfl, ⟨y, ys, hy, hys, rfl⟩, hys'⟩
        exact ⟨y, ys ++ ys', hy, ⟨ys, ys', rfl, hys, hys'⟩, rfl⟩

end Trapline
