import Linkage.Symbol

/-!
# Types, Prototypes and Signatures by Number

A type table hands out numbers for types and for method prototypes. Everything else speaks of
them by number: a signature is a name with a prototype or a type, and a reference is a signature
with the type it was written against. Two handles from one table are equal exactly when they
mean the same.
-/

namespace Linkage

/-- The number of a type in its type table. -/
structure TypeId where
  val : Nat
deriving DecidableEq, Repr, Inhabited

namespace TypeId

/-- The root of every class hierarchy. -/
def object : TypeId := ⟨9⟩

/-- The first number for a type that is not built in. -/
def firstDynamic : TypeId := ⟨10⟩

/-- Whether the number is one of the nine primitive types'. -/
def isPrimitive (t : TypeId) : Bool := t.val ≤ 8

end TypeId

/-- The number of a prototype in its type table. -/
structure ProtoId where
  val : Nat
deriving DecidableEq, Repr, Inhabited

/-- The parameter types and the return type of a method. -/
structure Proto where
  params : List TypeId
  ret : TypeId
deriving DecidableEq, Repr, Inhabited

/-- What a method is called and what it takes and returns, wherever it is declared. -/
structure MethodSig where
  name : Symbol
  proto : ProtoId
deriving DecidableEq, Repr, Inhabited

/-- What a field is called and its type, wherever it is declared. -/
structure FieldSig where
  name : Symbol
  type : TypeId
deriving DecidableEq, Repr, Inhabited

/-- What a declared member is found under. Methods and fields never collide. -/
inductive MemberKey
  | method (sig : MethodSig)
  | field (sig : FieldSig)
deriving DecidableEq, Repr

/-- A method signature with the type it was written against. -/
structure MethodRef where
  holder : TypeId
  sig : MethodSig
deriving DecidableEq, Repr, Inhabited

/-- A field signature with the type it was written against. -/
structure FieldRef where
  holder : TypeId
  sig : FieldSig
deriving DecidableEq, Repr, Inhabited

end Linkage
