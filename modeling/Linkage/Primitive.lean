/-!
# Primitive Types

The nine primitive types, `void` among them, with their descriptor letters.
-/

namespace Linkage

/-- A primitive type. -/
inductive Primitive
  | void
  | boolean
  | byte
  | char
  | short
  | int
  | long
  | float
  | double
deriving DecidableEq, Repr, Inhabited

namespace Primitive

/-- All primitive types, in the order of their type numbers. -/
def all : List Primitive := [void, boolean, byte, char, short, int, long, float, double]

/-- The letter that stands for the type in descriptors. -/
def letter : Primitive → Char
  | .void => 'V'
  | .boolean => 'Z'
  | .byte => 'B'
  | .char => 'C'
  | .short => 'S'
  | .int => 'I'
  | .long => 'J'
  | .float => 'F'
  | .double => 'D'

/-- The name of the type in source text. -/
def name : Primitive → String
  | .void => "void"
  | .boolean => "boolean"
  | .byte => "byte"
  | .char => "char"
  | .short => "short"
  | .int => "int"
  | .long => "long"
  | .float => "float"
  | .double => "double"

/-- The place in `all`, which is the number of the type in every type table. -/
def index : Primitive → Nat
  | .void => 0
  | .boolean => 1
  | .byte => 2
  | .char => 3
  | .short => 4
  | .int => 5
  | .long => 6
  | .float => 7
  | .double => 8

/-- The type that a letter stands for. -/
def ofLetter? (c : Char) : Option Primitive := all.find? fun p => p.letter == c

/-- The list of primitive types is complete. -/
theorem mem_all (p : Primitive) : p ∈ all := by
  cases p <;> decide

/-- A primitive type stands in the list at its own number. -/
theorem getElem?_all_index (p : Primitive) : all[p.index]? = some p := by
  cases p <;> rfl

/-- A letter stands for a type exactly when it is that type's letter. -/
theorem ofLetter?_eq_some_iff {c : Char} {p : Primitive} :
    ofLetter? c = some p ↔ c = p.letter := by
  constructor
  · intro h
    have hletter : (p.letter == c) = true :=
      List.find?_some (p := fun q : Primitive => q.letter == c) h
    exact (beq_iff_eq.1 hletter).symm
  · rintro rfl
    cases p <;> decide

/-- No primitive letter opens a class name, an array or a parameter list, or ends one. -/
theorem letter_ne_of_mem {c : Char} (hc : c ∈ ['L', ';', '[', '(', ')']) (p : Primitive) :
    p.letter ≠ c := by
  simp only [List.mem_cons, List.not_mem_nil, or_false] at hc
  rcases hc with rfl | rfl | rfl | rfl | rfl <;> cases p <;> simp [letter]

end Primitive

end Linkage
