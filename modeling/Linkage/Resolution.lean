import Linkage.ClassDef

/-!
# Outcomes of Method Resolution

Failing to resolve a reference is an outcome like any other: it says which rule the reference
breaks.
-/

namespace Linkage

/-- What a method reference resolves to. -/
inductive Resolution
  /-- One method, declared on `resolved`, which `initial` leads to. -/
  | single (initial resolved : TypeId) (method : Method)
  /-- The type, or one needed on the way, has no definition. -/
  | classNotFound
  /-- The reference is of the wrong kind for its type, or several methods with a body compete,
  which are then listed. -/
  | incompatibleClass (conflicting : List Method)
  /-- A private method of a superclass. Which error that is depends on who asks. -/
  | illegalAccess (method : Method)
  /-- No method at all. -/
  | noSuchMethod
  /-- The method `clone` of an array type, which no class declares. -/
  | arrayClone
deriving DecidableEq, Repr

namespace Resolution

/-- The name of the kind of outcome. -/
def kindName : Resolution → String
  | .single .. => "single"
  | .classNotFound => "class_not_found"
  | .incompatibleClass _ => "incompatible_class"
  | .illegalAccess _ => "illegal_access_or_no_such_method"
  | .noSuchMethod => "no_such_method"
  | .arrayClone => "array_clone_method"

/-- Whether exactly one method was found. -/
def isSingle : Resolution → Bool
  | .single .. => true
  | _ => false

/-- Whether the reference was to the `clone` of an array type. -/
def isArrayClone : Resolution → Bool
  | .arrayClone => true
  | _ => false

/-- Whether the reference cannot be linked. -/
def isFailed (r : Resolution) : Bool := !r.isSingle && !r.isArrayClone

/-- The type that the reference was resolved on, if it was. -/
def initialHolder? : Resolution → Option TypeId
  | .single initial _ _ => some initial
  | _ => none

/-- The type that declares the method found. -/
def resolvedHolder? : Resolution → Option TypeId
  | .single _ resolved _ => some resolved
  | _ => none

/-- The method found. -/
def resolvedMethod? : Resolution → Option Method
  | .single _ _ method => some method
  | _ => none

/-- Whether the method found can be the target of virtual dispatch. -/
def isVirtualTarget (r : Resolution) : Bool :=
  match r.resolvedMethod? with
  | some m => !m.access.isStatic && !m.access.isPrivate
  | none => false

/-- The methods that compete. -/
def conflicting : Resolution → List Method
  | .incompatibleClass methods => methods
  | _ => []

/-- Every method that the outcome names. -/
def methods : Resolution → List Method
  | .single _ _ method => [method]
  | .incompatibleClass methods => methods
  | .illegalAccess method => [method]
  | _ => []

/-- An outcome without a method found is a failure, save for the `clone` of arrays. -/
theorem isFailed_eq_false_iff {r : Resolution} :
    r.isFailed = false ↔ r.isSingle = true ∨ r = .arrayClone := by
  cases r <;> simp [isFailed, isSingle, isArrayClone]

end Resolution

end Linkage
