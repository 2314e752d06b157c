import Linkage.TypeTable

/-!
# Writing Types

Types, prototypes and references as text. A type is taken apart first: how many array layers lie
above what, and what that is. Since an array type may be built over a number that the table has not
handed out yet, such a number can come to stand for an array type above itself. The layers of such a
type never end, and neither does writing it: there is no shape, and no text, of it or of anything
that it is part of.

## Main results

* `shape?_of_lookup?_primitive`, `shape?_of_lookup?_named`: types without array layers.
* `unwrap_succ_of_array`: one array layer is one step of the descent.
-/

namespace Linkage

/-- What lies under the array layers of a type. -/
inductive TypeLeaf
  | primitive (kind : Primitive)
  | named (descriptor : Symbol)
  | unknown (id : TypeId)
deriving DecidableEq, Repr

/-- A type taken apart: its array layers and what lies under them. -/
structure TypeShape where
  dimensions : Nat
  leaf : TypeLeaf
deriving DecidableEq, Repr

namespace TypeTable

/-- Takes a type apart, with at most `steps` look-ups. -/
def unwrap (t : TypeTable) : Nat → TypeId → Option TypeShape
  | 0, _ => none
  | steps + 1, id =>
    match t.lookup? id with
    | some (.primitive p) => some ⟨0, .primitive p⟩
    | some (.named a) => some ⟨0, .named a⟩
    | some (.array element) =>
      (t.unwrap steps element).map fun s => ⟨s.dimensions + 1, s.leaf⟩
    | none => some ⟨0, .unknown id⟩

/-- The shape of a type, or nothing if its array layers never end. The table has only so many
array types, so that a longer descent meets one of them twice. -/
def shape? (t : TypeTable) (id : TypeId) : Option TypeShape := t.unwrap (t.typeCount + 1) id

/-- What stands in a descriptor for what lies under the array layers: `?` in place of a type that
the table does not know. -/
def leafDescriptor (t : TypeTable) : TypeLeaf → String
  | .primitive p => p.letter.toString
  | .named a => t.symbols.text a
  | .unknown _ => "?"

/-- The descriptor of a type, or nothing if writing it never ends. -/
def descriptor? (t : TypeTable) (id : TypeId) : Option String := do
  let s ← t.shape? id
  return String.ofList (List.replicate s.dimensions '[') ++ t.leafDescriptor s.leaf

/-- The name in a class descriptor: what stands between the `L` and the `;`, or all of a text
that does not have both. -/
def binaryName (descriptor : List Char) : List Char :=
  match descriptor with
  | 'L' :: rest => if rest.getLast? = some ';' then rest.dropLast else descriptor
  | _ => descriptor

/-- What stands in source text for what lies under the array layers. -/
def leafName (t : TypeTable) : TypeLeaf → String
  | .primitive p => p.name
  | .named a =>
    String.ofList ((binaryName (t.symbols.text a).toList).map fun c => if c = '/' then '.' else c)
  | .unknown n => "<unknown type " ++ toString n.val ++ ">"

/-- The name of a type in source text, such as `java.lang.Object` or `int[]`, or nothing if writing
it never ends. -/
def typeName? (t : TypeTable) (id : TypeId) : Option String := do
  let s ← t.shape? id
  return t.leafName s.leaf ++ String.join (List.replicate s.dimensions "[]")

/-- The descriptor of a prototype, or nothing if writing one of its types never ends. -/
def protoDescriptor? (t : TypeTable) (id : ProtoId) : Option String :=
  match t.lookupProto? id with
  | some p => do
    let params ← p.params.mapM t.descriptor?
    let ret ← t.descriptor? p.ret
    return "(" ++ String.join params ++ ")" ++ ret
  | none => some "(?)?"

/-- A method reference as `Type.name(params)ret`, or nothing if writing it never ends. -/
def displayMethod? (t : TypeTable) (m : MethodRef) : Option String := do
  let holder ← t.typeName? m.holder
  let proto ← t.protoDescriptor? m.sig.proto
  return holder ++ "." ++ t.symbols.text m.sig.name ++ proto

/-- A field reference as `Type.name:type`, or nothing if writing it never ends. -/
def displayField? (t : TypeTable) (f : FieldRef) : Option String := do
  let holder ← t.typeName? f.holder
  let type ← t.descriptor? f.sig.type
  return holder ++ "." ++ t.symbols.text f.sig.name ++ ":" ++ type

/-! ### Taking types apart -/

/-- One array layer is one step of the descent. -/
theorem unwrap_succ_of_array {t : TypeTable} {id element : TypeId}
    (h : t.lookup? id = some (.array element)) (steps : Nat) :
    t.unwrap (steps + 1) id =
      (t.unwrap steps element).map fun s => ⟨s.dimensions + 1, s.leaf⟩ := by
  rw [unwrap, h]

/-- A primitive type has no array layers. -/
theorem shape?_of_lookup?_primitive {t : TypeTable} {id : TypeId} {p : Primitive}
    (h : t.lookup? id = some (.primitive p)) : t.shape? id = some ⟨0, .primitive p⟩ := by
  rw [shape?, unwrap, h]

/-- A class has no array layers. -/
theorem shape?_of_lookup?_named {t : TypeTable} {id : TypeId} {a : Symbol}
    (h : t.lookup? id = some (.named a)) : t.shape? id = some ⟨0, .named a⟩ := by
  rw [shape?, unwrap, h]

/-- A longer descent finds the same shape. -/
theorem unwrap_succ {t : TypeTable} {steps : Nat} {id : TypeId} {s : TypeShape}
    (h : t.unwrap steps id = some s) : t.unwrap (steps + 1) id = some s := by
  induction steps generalizing id s with
  | zero => simp [unwrap] at h
  | succ steps ih =>
    rw [unwrap] at h ⊢
    split at h
    · exact h
    · exact h
    · next element _ =>
      obtain ⟨s', hs', rfl⟩ := Option.map_eq_some_iff.1 h
      rw [ih hs']
      rfl
    · exact h

end TypeTable

end Linkage
