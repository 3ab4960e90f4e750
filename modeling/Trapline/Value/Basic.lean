import Trapline.Binary32.Basic

/-!
# Values

A value is an integer of 64 bits, a floating point number of 32 bits, a character, a vector of
values, or an identifier that names a variable or a label. A vector of characters is a string, and
so is the empty vector. Equality is structural; two floating point numbers are equal when their bit
patterns are.
-/

namespace Trapline

/-- The name of a variable, a label, a trap or a command. -/
abbrev Name := String

/-- What a command works on. -/
inductive Value where
  | int (n : Int64)
  | float (x : Binary32)
  | char (c : Char)
  | vector (items : List Value)
  | ident (name : Name)
deriving Inhabited, Repr

/-- The five kinds of values. -/
inductive Kind where
  | int
  | float
  | char
  | vector
  | ident
deriving DecidableEq, Repr, Inhabited

namespace Kind

/-- Every kind, in the order in which they are listed. -/
def all : List Kind := [.int, .float, .char, .vector, .ident]

/-- The name of a kind in messages. -/
def name : Kind → String
  | .int => "i64"
  | .float => "f32"
  | .char => "char"
  | .vector => "vector"
  | .ident => "ident"

/-- The kind with the given name. -/
def ofName? (name : String) : Option Kind :=
  all.find? fun kind => kind.name == name

end Kind

namespace Value

/-- The kind of a value. -/
def kind : Value → Kind
  | int _ => .int
  | float _ => .float
  | char _ => .char
  | vector _ => .vector
  | ident _ => .ident

@[simp] theorem kind_int
    (n : Int64) :
    (int n).kind = .int := by
  rfl

@[simp] theorem kind_float
    (x : Binary32) :
    (float x).kind = .float := by
  rfl

@[simp] theorem kind_char
    (c : Char) :
    (char c).kind = .char := by
  rfl

@[simp] theorem kind_vector
    (items : List Value) :
    (vector items).kind = .vector := by
  rfl

@[simp] theorem kind_ident
    (name : Name) :
    (ident name).kind = .ident := by
  rfl

/-- Whether a value is a character. -/
def isChar : Value → Bool
  | char _ => true
  | _ => false

/-- Whether a value is an identifier. -/
def isIdent : Value → Bool
  | ident _ => true
  | _ => false

/-- Whether a value is a vector of characters only. -/
def isString : Value → Bool
  | vector items => items.all isChar
  | _ => false

/-- The integer of an integer value. -/
def int? : Value → Option Int64
  | int n => some n
  | _ => none

/-- The number of a floating point value. -/
def float? : Value → Option Binary32
  | float x => some x
  | _ => none

/-- The character of a character value. -/
def char? : Value → Option Char
  | char c => some c
  | _ => none

/-- The elements of a vector. -/
def items? : Value → Option (List Value)
  | vector items => some items
  | _ => none

/-- The name of an identifier. -/
def name? : Value → Option Name
  | ident name => some name
  | _ => none

/-- The string with the given characters. -/
def ofChars (chars : List Char) : Value :=
  vector (chars.map char)

@[simp] theorem isString_ofChars
    (chars : List Char) :
    (ofChars chars).isString = true := by
  simp [ofChars, isString, isChar]

mutual

/-- Decides whether two values are equal. -/
def decEq : (v w : Value) → Decidable (v = w)
  | int m, int n =>
      if h : m = n then isTrue (by rw [h]) else isFalse (by simp [h])
  | float x, float y =>
      if h : x = y then isTrue (by rw [h]) else isFalse (by simp [h])
  | char c, char d =>
      if h : c = d then isTrue (by rw [h]) else isFalse (by simp [h])
  | vector vs, vector ws =>
      match decEqAll vs ws with
      | isTrue h => isTrue (by rw [h])
      | isFalse h => isFalse (by simp [h])
  | ident a, ident b =>
      if h : a = b then isTrue (by rw [h]) else isFalse (by simp [h])
  | int _, float _ | int _, char _ | int _, vector _ | int _, ident _
  | float _, int _ | float _, char _ | float _, vector _ | float _, ident _
  | char _, int _ | char _, float _ | char _, vector _ | char _, ident _
  | vector _, int _ | vector _, float _ | vector _, char _ | vector _, ident _
  | ident _, int _ | ident _, float _ | ident _, char _ | ident _, vector _ =>
      isFalse (by simp)

/-- Decides whether two lists of values are equal. -/
def decEqAll : (vs ws : List Value) → Decidable (vs = ws)
  | [], [] => isTrue rfl
  | [], _ :: _ => isFalse (by simp)
  | _ :: _, [] => isFalse (by simp)
  | v :: vs, w :: ws =>
      match decEq v w, decEqAll vs ws with
      | isTrue h, isTrue hs => isTrue (by rw [h, hs])
      | isFalse h, _ => isFalse (by simp [h])
      | _, isFalse hs => isFalse (by simp [hs])

end

instance : DecidableEq Value := decEq

end Value
end Trapline
