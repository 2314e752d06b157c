import Linkage.Access
import Linkage.Signature

/-!
# Classes and their Members

A class definition is a value; a change to a class is a new value published in its place. Only
one thing about a published class may change afterwards: a method may be marked obsolete, once
its code has been replaced. The marker belongs to one method object, not to all methods that read
alike, so every method carries a stamp that tells it from all others, and the set of marked
stamps is kept apart from the definitions.

Two definitions are compared without regard to stamps.

## Main results

* `Marks.has_add`: what a marker says about other methods.
* `ClassDef.sameAs_refl`: a class is the same as itself, whatever its methods' stamps.
-/

namespace Linkage

/-- Tells a method object from all others. -/
structure Stamp where
  val : Nat
deriving DecidableEq, Repr, Inhabited

/-- A declared method. The code is a handle to a body that is kept elsewhere. -/
structure Method where
  stamp : Stamp
  holder : TypeId
  sig : MethodSig
  access : Access
  code : Option UInt32
deriving DecidableEq, Repr, Inhabited

/-- A declared field. The value is a handle to a constant that is kept elsewhere. -/
structure Field where
  holder : TypeId
  sig : FieldSig
  access : Access
  value : Option UInt32
deriving DecidableEq, Repr, Inhabited

namespace Method

/-- The same declaration without a stamp of its own. -/
def unstamped (m : Method) : Method := { m with stamp := ⟨0⟩ }

/-- Whether two methods are declared alike. -/
def sameAs (m n : Method) : Bool := m.unstamped == n.unstamped

/-- Whether a method may be offered by an interface to the classes below it. -/
def isInheritable (m : Method) : Bool := !m.access.isPrivate && !m.access.isStatic

end Method

/-- A declared member. -/
inductive Member
  | method (m : Method)
  | field (f : Field)
deriving DecidableEq, Repr

namespace Member

/-- The method, if the member is one. -/
def method? : Member → Option Method
  | .method m => some m
  | .field _ => none

/-- The field, if the member is one. -/
def field? : Member → Option Field
  | .field f => some f
  | .method _ => none

/-- The type that the member says it is declared on. -/
def holder : Member → TypeId
  | .method m => m.holder
  | .field f => f.holder

end Member

/-! ### Obsolete methods -/

/-- The methods that have been marked obsolete. -/
structure Marks where
  stamps : List Stamp
deriving Repr, Inhabited

namespace Marks

/-- No method is marked. -/
def empty : Marks := ⟨[]⟩

/-- Whether a method is marked. -/
def has (marks : Marks) (m : Method) : Bool := m.stamp ∈ marks.stamps

/-- Marks a method. -/
def add (marks : Marks) (m : Method) : Marks := ⟨m.stamp :: marks.stamps⟩

/-- Nothing is marked at first. -/
@[simp] theorem has_empty (m : Method) : empty.has m = false := by
  simp [has, empty]

/-- A marker is seen through every method with the same stamp, and through no other. -/
theorem has_add (marks : Marks) (m n : Method) :
    (marks.add m).has n = (n.stamp == m.stamp || marks.has n) := by
  by_cases h : n.stamp = m.stamp <;> simp [has, add, h]

end Marks

/-! ### Classes -/

/-- The definition of a class or interface. Interfaces are listed in the order of their
declaration, and so are methods and fields; nothing keeps two members from having the same
signature. -/
structure ClassDef where
  type : TypeId
  superType : Option TypeId
  interfaces : List TypeId
  access : Access
  origin : Origin
  methods : List Method
  fields : List Field
deriving DecidableEq, Repr, Inhabited

namespace ClassDef

/-- A public program class without members. -/
def ofClass (type : TypeId) (superType : Option TypeId) : ClassDef where
  type := type
  superType := superType
  interfaces := []
  access := .publicFlag
  origin := .program
  methods := []
  fields := []

/-- A public program interface without members. Every interface has the root class as its super
type. -/
def ofInterface (type : TypeId) : ClassDef :=
  { ofClass type (some .object) with
    access := (Access.publicFlag.union .interfaceFlag).union .abstractFlag }

/-- Whether the definition is an interface's. -/
def isInterface (c : ClassDef) : Bool := c.access.isInterface

/-- The first declared method with the given signature. -/
def method? (c : ClassDef) (sig : MethodSig) : Option Method := c.methods.find? (·.sig == sig)

/-- The first declared field with the given signature. -/
def field? (c : ClassDef) (sig : FieldSig) : Option Field := c.fields.find? (·.sig == sig)

/-- The declared methods with the given name, in order. -/
def methodsNamed (c : ClassDef) (name : Symbol) : List Method :=
  c.methods.filter (·.sig.name == name)

/-- The same definition without its methods' stamps. -/
def unstamped (c : ClassDef) : ClassDef := { c with methods := c.methods.map Method.unstamped }

/-- Whether two definitions read alike. -/
def sameAs (c d : ClassDef) : Bool := c.unstamped == d.unstamped

/-- A class is the same as itself. -/
theorem sameAs_refl (c : ClassDef) : c.sameAs c = true := by
  simp [sameAs]

/-- Classes that are the same have one type. -/
theorem type_eq_of_sameAs {c d : ClassDef} (h : c.sameAs d = true) : c.type = d.type := by
  have heq : c.unstamped = d.unstamped := by simpa [sameAs] using h
  change c.unstamped.type = d.unstamped.type
  rw [heq]

/-- What is found under a signature has this signature. -/
theorem sig_of_method? {c : ClassDef} {sig : MethodSig} {m : Method}
    (h : c.method? sig = some m) : m.sig = sig := by
  have hm : (m.sig == sig) = true :=
    List.find?_some (p := fun n : Method => n.sig == sig) h
  simpa using hm

/-- A method that is found by its signature is one of the class's own. -/
theorem mem_of_method? {c : ClassDef} {sig : MethodSig} {m : Method}
    (h : c.method? sig = some m) : m ∈ c.methods :=
  List.mem_of_find?_eq_some h

end ClassDef

end Linkage
