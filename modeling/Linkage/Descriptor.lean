import Linkage.Primitive

/-!
# Descriptors

The text form of field and method types. A field type is a run of `[`, one for each array
dimension, followed by the letter of a primitive type or by `L`, a class name and `;`. A method
type is a parenthesised list of field types followed by a return type, which is a field type or
a plain `V`.

This file holds the values, what makes them well formed, how they are written and what may be
wrong with a text. `Linkage.Descriptor.Reader` reads them.
-/

namespace Linkage

/-- An array type has at most this many dimensions. -/
def maxArrayDimensions : Nat := 255

/-- What is left of a field type without its array dimensions. -/
inductive BaseType
  | primitive (kind : Primitive)
  | object (name : String)
deriving DecidableEq, Repr, Inhabited

/-- A field type, or the `void` that may stand in its place as a return type. -/
structure FieldDescriptor where
  dimensions : Nat
  base : BaseType
deriving DecidableEq, Repr, Inhabited

/-- A method type. -/
structure MethodDescriptor where
  params : List FieldDescriptor
  ret : FieldDescriptor
deriving DecidableEq, Repr, Inhabited

namespace BaseType

/-- The letter of a primitive type, or a class name between `L` and `;`. -/
def render : BaseType → List Char
  | .primitive p => [p.letter]
  | .object name => 'L' :: (name.toList ++ [';'])

end BaseType

namespace FieldDescriptor

/-- Plain `void`. -/
def void : FieldDescriptor := ⟨0, .primitive .void⟩

/-- Whether this is plain `void`. -/
def isVoid (d : FieldDescriptor) : Bool := d == void

/-- The text of a field type. -/
def render (d : FieldDescriptor) : List Char :=
  List.replicate d.dimensions '[' ++ d.base.render

/-- A value that is the type of a field: not too many dimensions over a primitive type that has
values, or over a class whose name is not empty and does not end too early. -/
def IsFieldType (d : FieldDescriptor) : Prop :=
  d.dimensions ≤ maxArrayDimensions ∧
    match d.base with
    | .primitive p => p ≠ .void
    | .object name => name ≠ "" ∧ ';' ∉ name.toList

/-- Whether a descriptor is that of a field can be computed. -/
instance (d : FieldDescriptor) : Decidable d.IsFieldType := by
  unfold IsFieldType
  cases d.base <;> infer_instance

end FieldDescriptor

namespace MethodDescriptor

/-- The text of a method type. -/
def render (d : MethodDescriptor) : List Char :=
  '(' :: (d.params.flatMap FieldDescriptor.render ++ ')' :: d.ret.render)

/-- A value that is the type of a method. -/
def IsMethodType (d : MethodDescriptor) : Prop :=
  (∀ p ∈ d.params, p.IsFieldType) ∧ (d.ret.IsFieldType ∨ d.ret = .void)

/-- Whether a descriptor is that of a method can be computed. -/
instance (d : MethodDescriptor) : Decidable d.IsMethodType := by
  unfold IsMethodType
  infer_instance

end MethodDescriptor

/-! ### What may be wrong with a text -/

/-- A fault in a descriptor. `ρ` is how a place in the text is given: a reader has the text that
is still unread there, a report the number of bytes before it. -/
inductive DescriptorFault (ρ : Type)
  | empty
  | unexpectedChar (place : ρ)
  | unterminatedClassName
  | tooManyDimensions
  | voidNotAllowed
  | trailingInput (place : ρ)
  | missingParameterList
deriving DecidableEq, Repr

namespace DescriptorFault

/-- The same fault with its place given in another way. -/
def map {ρ σ : Type} (f : ρ → σ) : DescriptorFault ρ → DescriptorFault σ
  | .empty => .empty
  | .unexpectedChar r => .unexpectedChar (f r)
  | .unterminatedClassName => .unterminatedClassName
  | .tooManyDimensions => .tooManyDimensions
  | .voidNotAllowed => .voidNotAllowed
  | .trailingInput r => .trailingInput (f r)
  | .missingParameterList => .missingParameterList

/-- The place of a fault that has one. -/
def place? {ρ : Type} : DescriptorFault ρ → Option ρ
  | .unexpectedChar r => some r
  | .trailingInput r => some r
  | _ => none

end DescriptorFault

/-- A text that is not a descriptor, and what is wrong with it. -/
structure DescriptorError where
  descriptor : String
  fault : DescriptorFault Nat
deriving DecidableEq, Repr

namespace DescriptorError

/-- The report on a faulty descriptor. -/
def message (e : DescriptorError) : String :=
  match e.fault with
  | .empty => "empty descriptor"
  | .unexpectedChar n =>
    "unexpected character at offset " ++ toString n ++ " in descriptor `" ++ e.descriptor ++ "`"
  | .unterminatedClassName => "unterminated class name in descriptor `" ++ e.descriptor ++ "`"
  | .tooManyDimensions =>
    "descriptor `" ++ e.descriptor ++ "` exceeds " ++ toString maxArrayDimensions ++
      " array dimensions"
  | .voidNotAllowed => "`void` is only valid as a return type in `" ++ e.descriptor ++ "`"
  | .trailingInput n =>
    "trailing input at offset " ++ toString n ++ " in descriptor `" ++ e.descriptor ++ "`"
  | .missingParameterList =>
    "method descriptor `" ++ e.descriptor ++ "` has no parameter list"

end DescriptorError

end Linkage
