import Linkage.Descriptor.Reader
import Linkage.Signature

/-!
# Type Tables

A type table owns the symbols, types and prototypes that a hierarchy is told in. Each is stored
once, so that its number says everything about it.

A class type is stored under the symbol of its descriptor; an array type under the number of its
element type, which need not be a number that the table has handed out. A table starts with the
nine primitive types, `java/lang/Object`, its array type and the two classes with
signature-polymorphic methods, in this order.

## Main results

* `lookup?_eq_some_iff`: a number denotes a type exactly when the type has that number.
* `lookup?_intern`: the number that interning returns denotes what was interned.
-/

namespace Linkage

/-- What a type number stands for. -/
inductive TypeData
  | primitive (kind : Primitive)
  | named (descriptor : Symbol)
  | array (element : TypeId)
deriving DecidableEq, Repr, Inhabited

/-- The types and names that resolution has to recognise. -/
structure WellKnown where
  object : TypeId
  objectArray : TypeId
  methodHandle : TypeId
  varHandle : TypeId
  cloneName : Symbol
  initName : Symbol
  clinitName : Symbol
deriving DecidableEq, Repr, Inhabited

/-- The symbols, types and prototypes that a hierarchy is told in. -/
structure TypeTable where
  symbols : SymbolTable
  types : Pool TypeData
  protos : Pool Proto
  wellKnown : WellKnown

namespace Primitive

/-- The number of a primitive type, the same in every table. -/
def typeId (p : Primitive) : TypeId := ⟨p.index⟩

end Primitive

namespace TypeTable

/-- A computation that may add to a type table. -/
abbrev Interning := StateM TypeTable

/-! ### Types -/

/-- What a type number stands for. -/
def lookup? (t : TypeTable) (id : TypeId) : Option TypeData := t.types.get? id.val

/-- The number of types. -/
def typeCount (t : TypeTable) : Nat := t.types.size

/-- The number of a type, which is added if it is new. The number is not cut off: what holds only
while it fits into 32 bits says so by the count of types. -/
def intern (data : TypeData) : Interning TypeId := fun t =>
  (⟨t.types.numberOf data⟩, { t with types := t.types.add data })

/-- The symbol of a text, which is filed if it is new. -/
def internText (text : String) : Interning Symbol := fun t =>
  let (a, symbols) := t.symbols.intern text
  (a, { t with symbols := symbols })

/-- The class type of a name such as `java/lang/String`. -/
def classNamed (name : String) : Interning TypeId := do
  intern (.named (← internText ("L" ++ name ++ ";")))

/-- The array type with the given element type. -/
def arrayOf (element : TypeId) : Interning TypeId := intern (.array element)

/-- The type of arrays with `n` more dimensions. -/
def arraysOf : Nat → TypeId → Interning TypeId
  | 0, id => pure id
  | n + 1, id => do arraysOf n (← arrayOf id)

/-- The element type of an array type. -/
def elementType? (t : TypeTable) (id : TypeId) : Option TypeId :=
  match t.lookup? id with
  | some (.array element) => some element
  | _ => none

/-- Whether a number stands for an array type. -/
def isArray (t : TypeTable) (id : TypeId) : Bool := (t.elementType? id).isSome

/-- The number of the type that a field descriptor describes. -/
def internField (d : FieldDescriptor) : Interning TypeId := do
  match d.base with
  | .primitive p => arraysOf d.dimensions p.typeId
  | .object name => arraysOf d.dimensions (← classNamed name)

/-- The number of the type that a text describes. A faulty text adds nothing. -/
def internDescriptor (text : String) : Interning (Except DescriptorError TypeId) :=
  match FieldDescriptor.ofString text with
  | .error e => pure (.error e)
  | .ok d => do return .ok (← internField d)

/-! ### Prototypes and signatures -/

/-- What a prototype number stands for. -/
def lookupProto? (t : TypeTable) (id : ProtoId) : Option Proto := t.protos.get? id.val

/-- The number of a prototype, which is added if it is new. As for types, the number is not cut off.
-/
def internProto (p : Proto) : Interning ProtoId := fun t =>
  (⟨t.protos.numberOf p⟩, { t with protos := t.protos.add p })

/-- The number of the prototype that a method descriptor describes. The return type gets its
number before the parameters get theirs. -/
def internMethod (d : MethodDescriptor) : Interning ProtoId := do
  let ret ← internField d.ret
  let params ← d.params.mapM internField
  internProto ⟨params, ret⟩

/-- The number of the prototype that a text describes. A faulty text adds nothing. -/
def internProtoDescriptor (text : String) : Interning (Except DescriptorError ProtoId) :=
  match MethodDescriptor.ofString text with
  | .error e => pure (.error e)
  | .ok d => do return .ok (← internMethod d)

/-- The signature of a method. The name is filed even if the descriptor is faulty. -/
def methodSig (name descriptor : String) : Interning (Except DescriptorError MethodSig) := do
  let symbol ← internText name
  return (← internProtoDescriptor descriptor).map (⟨symbol, ·⟩)

/-- The signature of a field. The name is filed even if the descriptor is faulty. -/
def fieldSig (name descriptor : String) : Interning (Except DescriptorError FieldSig) := do
  let symbol ← internText name
  return (← internDescriptor descriptor).map (⟨symbol, ·⟩)

/-! ### The table to start with -/

/-- Files the types and names that resolution has to recognise. -/
def internWellKnown : Interning WellKnown := do
  let object ← classNamed "java/lang/Object"
  return {
    object := object
    objectArray := ← arrayOf object
    methodHandle := ← classNamed "java/lang/invoke/MethodHandle"
    varHandle := ← classNamed "java/lang/invoke/VarHandle"
    cloneName := ← internText "clone"
    initName := ← internText "<init>"
    clinitName := ← internText "<clinit>" }

/-- The table with the built-in types, over the given choice of shards. -/
def freshWith (shardOf : String → Fin Symbol.shardCount) : TypeTable :=
  let (wellKnown, t) := Id.run <| StateT.run
    (do
      for p in Primitive.all do
        let _ ← intern (.primitive p)
      internWellKnown)
    { symbols := (SymbolTable.fresh shardOf).internCommon
      types := .empty
      protos := .empty
      wellKnown := default }
  { t with wellKnown := wellKnown }

/-- The table with the built-in types. -/
def fresh : TypeTable := freshWith SymbolTable.byteSum

/-! ### Small facts -/

/-- **A number denotes a type** exactly when the type has this number. -/
theorem lookup?_eq_some_iff {t : TypeTable} {id : TypeId} {data : TypeData} :
    t.lookup? id = some data ↔ t.types.find? data = some id.val :=
  Pool.find?_eq_some_iff.symm

/-- The number that interning returns denotes what was interned. -/
theorem lookup?_intern (t : TypeTable) (data : TypeData) :
    (intern data t).2.lookup? (intern data t).1 = some data :=
  Pool.get?_numberOf t.types data

/-- What a number denotes never changes. -/
theorem lookup?_intern_of_lookup? {t : TypeTable} {id : TypeId} {data : TypeData}
    (new : TypeData) (h : t.lookup? id = some data) :
    (intern new t).2.lookup? id = some data :=
  Pool.get?_add_of_get? new h

end TypeTable

end Linkage
