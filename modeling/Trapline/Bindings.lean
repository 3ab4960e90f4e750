import Trapline.Value.Basic

/-!
# Bindings

A finite map from names, kept as the list of its entries. Binding a name again replaces its entry
in place; a new name comes last. The view of a map is its look-up function `get?`.
-/

namespace Trapline

/-- A finite map from names. The first entry of a name counts. -/
structure Bindings (α : Type) where
  entries : List (Name × α)
deriving DecidableEq, Repr

namespace Bindings

variable {α : Type}

/-- The map without entries. -/
def empty : Bindings α := ⟨[]⟩

instance : Inhabited (Bindings α) := ⟨empty⟩

/-- The entry of a name in a list. -/
def lookup (name : Name) : List (Name × α) → Option α
  | [] => none
  | (key, a) :: rest => if key = name then some a else lookup name rest

/-- The list with the entry of a name replaced, or added at the end. -/
def replace (name : Name) (a : α) : List (Name × α) → List (Name × α)
  | [] => [(name, a)]
  | (key, b) :: rest => if key = name then (key, a) :: rest else (key, b) :: replace name a rest

/-- What a name is bound to. -/
def get? (b : Bindings α) (name : Name) : Option α :=
  lookup name b.entries

/-- Whether a name is bound. -/
def contains (b : Bindings α) (name : Name) : Bool :=
  (b.get? name).isSome

/-- The map in which a name is bound anew. -/
def insert (b : Bindings α) (name : Name) (a : α) : Bindings α :=
  ⟨replace name a b.entries⟩

/-- The number of names that are bound. -/
def size (b : Bindings α) : Nat :=
  b.entries.length

theorem lookup_replace
    (name other : Name)
    (a : α)
    (entries : List (Name × α)) :
    lookup other (replace name a entries) =
      if name = other then some a else lookup other entries := by
  induction entries with
  | nil => simp [replace, lookup]
  | cons entry rest ih =>
      obtain ⟨key, b⟩ := entry
      by_cases hkey : key = name
      · subst hkey
        by_cases hother : key = other <;> simp [replace, lookup, hother]
      · by_cases hother : key = other
        · subst hother
          simp [replace, lookup, hkey, Ne.symm hkey]
        · simp [replace, lookup, hkey, hother, ih]

@[simp] theorem get?_empty
    (name : Name) :
    (empty : Bindings α).get? name = none := by
  rfl

theorem get?_insert
    (b : Bindings α)
    (name other : Name)
    (a : α) :
    (b.insert name a).get? other = if name = other then some a else b.get? other :=
  lookup_replace name other a b.entries

@[simp] theorem get?_insert_self
    (b : Bindings α)
    (name : Name)
    (a : α) :
    (b.insert name a).get? name = some a := by
  simp [get?_insert]

theorem contains_insert
    (b : Bindings α)
    (name other : Name)
    (a : α) :
    (b.insert name a).contains other = (decide (name = other) || b.contains other) := by
  by_cases h : name = other <;> simp [contains, get?_insert, h]

theorem get?_eq_none_of_contains
    {b : Bindings α}
    {name : Name}
    (h : b.contains name = false) :
    b.get? name = none := by
  simpa [contains] using h

end Bindings
end Trapline
