import Linkage.Candidates

/-!
# Method Resolution

What a method reference means in a hierarchy, by the rules of JVMS §5.4.3.3 for references to
classes and §5.4.3.4 for references to interfaces. A class reference looks along the superclass
chain first and into the superinterfaces only if the chain has nothing; an interface reference
looks at the interface itself, at the public methods of the root class, and then into the
superinterfaces. Array types have the methods of the root class, and a `clone` of their own.

The superclass chain is followed for as many links as the view allows. The number of links is
kept in 32 bits; under the largest possible bound, a chain that goes on past it makes the count
overflow, which is a fault and not an outcome.

## Main definitions

* `View.resolveOnClass`, `View.resolveOnInterface`: references of a stated kind.
* `View.resolveStructural`: references whose kind the type itself decides.
* `View.climb`: the walk along the superclass chain.
-/

namespace Linkage

/-- The number of superclass links followed does not fit 32 bits. -/
inductive WalkFault
  | linkOverflow
deriving DecidableEq, Repr

namespace WalkFault

/-- The text of the fault. -/
def message : WalkFault → String
  | .linkOverflow => "attempt to add with overflow"

end WalkFault

/-- The largest number of links that can be counted. -/
def maxLinks : Nat := UInt32.size - 1

namespace View

/-- The signature-polymorphic method of the given name: the only method of that name which one of
the two method-handle classes declares, if it is native and takes any number of arguments as one
array of objects. The class is asked, not its member table. -/
def polymorphic? (v : View) (c : ClassDef) (name : Symbol) : Option Method :=
  if c.type = v.wellKnown.methodHandle ∨ c.type = v.wellKnown.varHandle then
    match c.methodsNamed name with
    | [m] =>
      if m.access.isVarargsNative ∧
          (v.types.lookupProto? m.sig.proto).map Proto.params = some [v.wellKnown.objectArray]
      then some m
      else none
    | _ => none
  else none

/-- Walks from `c`, to which `links` links lead from `holder`, along the superclass chain up to
the first class that has the method. A method found by name is taken before one found by
signature. A private one is out of reach unless the holder itself declares it. -/
def climb (v : View) (sig : MethodSig) (holder : TypeId) (c : ClassDef) (links : Nat) :
    Walk (Except WalkFault (Option Resolution)) :=
  match v.polymorphic? c sig.name with
  | some m => pure (.ok (some (.single holder c.type m)))
  | none => do
    match ← v.readMethod c.type sig with
    | some m =>
      if m.access.isPrivate ∧ c.type ≠ holder then return .ok (some (.illegalAccess m))
      else return .ok (some (.single holder c.type m))
    | none =>
      match c.superType.bind v.definition with
      | none => return .ok none
      | some d =>
        if links = maxLinks then return .error .linkOverflow
        else if _ : v.bound ≤ links then
          Walk.warn ⟨.classChain, holder, v.maxDepth⟩
          return .ok none
        else v.climb sig holder d (links + 1)
termination_by v.bound - links

/-- Chooses among the methods that a class inherits from its superinterfaces. -/
def resolveInherited (v : View) (c : ClassDef) (sig : MethodSig) : Walk Resolution := do
  return (← Candidates.empty.collectFromClass v sig c).resolve c.type

/-- Resolves on a class that is known not to be an interface. -/
def resolveOnClassDef (v : View) (c : ClassDef) (sig : MethodSig) :
    Walk (Except WalkFault Resolution) := do
  match ← v.climb sig c.type c 0 with
  | .error e => return .error e
  | .ok (some r) => return .ok r
  | .ok none => return .ok (← v.resolveInherited c sig)

/-- Resolves a class reference to a type that is not an array. -/
def resolveOnPlainClass (v : View) (holder : TypeId) (sig : MethodSig) :
    Walk (Except WalkFault Resolution) :=
  match v.definition holder with
  | none => pure (.ok .classNotFound)
  | some c =>
    if c.isInterface then pure (.ok (.incompatibleClass []))
    else v.resolveOnClassDef c sig

/-- Resolves a reference to an array type. -/
def resolveOnArray (v : View) (sig : MethodSig) : Walk (Except WalkFault Resolution) :=
  if sig.name = v.wellKnown.cloneName then pure (.ok .arrayClone)
  else v.resolveOnPlainClass v.wellKnown.object sig

/-- Resolves a class method reference. -/
def resolveOnClass (v : View) (holder : TypeId) (sig : MethodSig) :
    Walk (Except WalkFault Resolution) :=
  if v.isArray holder then v.resolveOnArray sig else v.resolveOnPlainClass holder sig

/-- Resolves on a definition that is known to be an interface's. -/
def resolveOnInterfaceDef (v : View) (c : ClassDef) (sig : MethodSig) : Walk Resolution := do
  match ← v.readMethod c.type sig with
  | some m => return .single c.type c.type m
  | none =>
    let object := v.wellKnown.object
    match v.definition object with
    | none => return .classNotFound
    | some _ =>
      match (← v.readMethod object sig).filter
          fun m => m.access.isPublic && !m.access.isAbstract with
      | some m => return .single c.type object m
      | none => v.resolveInherited c sig

/-- Resolves an interface method reference. -/
def resolveOnInterface (v : View) (holder : TypeId) (sig : MethodSig) :
    Walk (Except WalkFault Resolution) :=
  if v.isArray holder then pure (.ok (.incompatibleClass []))
  else
    match v.definition holder with
    | none => pure (.ok .classNotFound)
    | some c =>
      if c.isInterface then .ok <$> v.resolveOnInterfaceDef c sig
      else pure (.ok (.incompatibleClass []))

/-- Resolves a reference whose kind is stated. -/
def resolve (v : View) (holder : TypeId) (sig : MethodSig) (isInterface : Bool) :
    Walk (Except WalkFault Resolution) :=
  if isInterface then v.resolveOnInterface holder sig else v.resolveOnClass holder sig

/-- Resolves a reference whose kind is left to the definition of its type. -/
def resolveStructural (v : View) (holder : TypeId) (sig : MethodSig) :
    Walk (Except WalkFault Resolution) :=
  if v.isArray holder then v.resolveOnArray sig
  else
    match v.definition holder with
    | none => pure (.ok .classNotFound)
    | some c =>
      if c.isInterface then .ok <$> v.resolveOnInterfaceDef c sig
      else v.resolveOnClassDef c sig

/-! ### Look-ups beside resolution -/

/-- The method that a type inherits from its superinterfaces, with the interface that declares
it, if a single one is chosen. -/
def inheritedTarget (v : View) (t : TypeId) (sig : MethodSig) :
    Walk (Option (TypeId × Method)) :=
  match v.definition t with
  | none => pure none
  | some c => do return (← Candidates.empty.collectFromClass v sig c).target?

/-- The method that a class would inherit which extends the root class and implements the given
interfaces. -/
def lambdaTarget (v : View) (interfaces : List TypeId) (sig : MethodSig) :
    Walk (Option (TypeId × Method)) := do
  return (← Candidates.empty.collect v sig (some v.wellKnown.object) interfaces).target?

/-- Whether a method is called directly: it is static, private or an initialiser. -/
def isDirect (v : View) (m : Method) : Bool :=
  m.access.isStatic || m.access.isPrivate || m.sig.name == v.wellKnown.initName ||
    m.sig.name == v.wellKnown.clinitName

/-- The directly called method that a program class declares, if the reference names this class
itself. -/
def directOnItself (v : View) (ref : MethodRef) (context : TypeId) : Walk (Option Method) :=
  if ref.holder = context then
    match v.definition context with
    | some c =>
      if c.origin.isProgram then do
        return (← v.readMethod context ref.sig).filter v.isDirect
      else pure none
    | none => pure none
  else pure none

/-- The static method that a program class declares, if the reference names this class itself. -/
def staticTarget (v : View) (ref : MethodRef) (context : TypeId) : Walk (Option Method) := do
  return (← v.directOnItself ref context).filter (·.access.isStatic)

/-- The directly called method, not static, that a program class declares, if the reference names
this class itself. -/
def directTarget (v : View) (ref : MethodRef) (context : TypeId) : Walk (Option Method) := do
  return (← v.directOnItself ref context).filter (!·.access.isStatic)

/-- A class inherits that method if it is defined like this. -/
theorem lambdaTarget_eq {v : View} {c : ClassDef} (h : c.superType = some v.wellKnown.object)
    (sig : MethodSig) :
    v.lambdaTarget c.interfaces sig = do
      return (← Candidates.empty.collectFromClass v sig c).target? := by
  rw [lambdaTarget, Candidates.collectFromClass, h]

/-! ### The climb, class by class -/

/-- A class with a signature-polymorphic method of the name ends the climb. -/
theorem climb_polymorphic {v : View} {sig : MethodSig} {c : ClassDef} {m : Method}
    (hp : v.polymorphic? c sig.name = some m) (holder : TypeId) (links : Nat) :
    v.climb sig holder c links = pure (.ok (some (.single holder c.type m))) := by
  rw [climb, hp]

/-- So does one that declares the method. -/
theorem climb_declares {v : View} {sig : MethodSig} {c : ClassDef} {m : Method}
    (hp : v.polymorphic? c sig.name = none) (hm : (v.table c.type).method? sig = some m)
    (holder : TypeId) (links : Nat) :
    v.climb sig holder c links = do
      Walk.read c.type
      return .ok (some (if m.access.isPrivate ∧ c.type ≠ holder then .illegalAccess m
        else .single holder c.type m)) := by
  rw [climb, hp]
  simp only [readMethod, hm, bind_assoc, pure_bind]
  split <;> rfl

/-- The climb ends at a class whose superclass is not known. -/
theorem climb_top {v : View} {sig : MethodSig} {c : ClassDef}
    (hp : v.polymorphic? c sig.name = none) (hm : (v.table c.type).method? sig = none)
    (hc : c.superType.bind v.definition = none) (holder : TypeId) (links : Nat) :
    v.climb sig holder c links = do
      Walk.read c.type
      return .ok none := by
  rw [climb, hp]
  simp only [readMethod, hm, hc, bind_assoc, pure_bind]

/-- Below the bound the links can be counted. -/
theorem links_ne_maxLinks {v : View} {links : Nat} (hl : links < v.bound) : links ≠ maxLinks := by
  have h := v.maxDepth.toNat_lt
  rw [bound] at hl
  rw [maxLinks, UInt32.size]
  omega

/-- Below the bound the climb goes on at the superclass. -/
theorem climb_super {v : View} {sig : MethodSig} {c d : ClassDef}
    (hp : v.polymorphic? c sig.name = none) (hm : (v.table c.type).method? sig = none)
    (hc : c.superType.bind v.definition = some d) {links : Nat} (hl : links < v.bound)
    (holder : TypeId) :
    v.climb sig holder c links = (do
      Walk.read c.type
      v.climb sig holder d (links + 1)) := by
  rw [climb, hp]
  simp only [readMethod, hm, hc, bind_assoc, pure_bind, if_neg (links_ne_maxLinks hl),
    dif_neg (Nat.not_le.2 hl)]

/-- At the bound the climb is cut off. -/
theorem climb_cut {v : View} {sig : MethodSig} {c d : ClassDef}
    (hp : v.polymorphic? c sig.name = none) (hm : (v.table c.type).method? sig = none)
    (hc : c.superType.bind v.definition = some d) {links : Nat} (hl : v.bound ≤ links)
    (hmax : links ≠ maxLinks) (holder : TypeId) :
    v.climb sig holder c links = do
      Walk.read c.type
      Walk.warn ⟨.classChain, holder, v.maxDepth⟩
      return .ok none := by
  rw [climb, hp]
  simp only [readMethod, hm, hc, bind_assoc, pure_bind, if_neg hmax, dif_pos hl]

/-- Where no further link can be counted, the climb breaks off. -/
theorem climb_overflow {v : View} {sig : MethodSig} {c d : ClassDef}
    (hp : v.polymorphic? c sig.name = none) (hm : (v.table c.type).method? sig = none)
    (hc : c.superType.bind v.definition = some d) (holder : TypeId) :
    v.climb sig holder c maxLinks = do
      Walk.read c.type
      return .error .linkOverflow := by
  rw [climb, hp]
  simp only [readMethod, hm, hc, bind_assoc, pure_bind, if_true]

end View

end Linkage
