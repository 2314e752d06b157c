import Linkage.Proofs.SymbolIdentity
import Linkage.TypeTable.Request

/-!
# Growing Type Tables

Whatever a type table is asked for, it only ever gains symbols, types and prototypes: what a number
has come to stand for, it stands for ever after. So a fact that says what numbers stand for, once
true, need not be looked at again.

A computation that may add to a table is settled by its parts: `Enlarges` is kept by the ways in
which computations are put together.

## Main definitions

* `GrowsTo`: one table knows all that another one knows.
* `Enlarges`: a computation forgets nothing.
* `Founded`: the built-in types have the numbers meant for them.

## Main results

* `enlarges_serve`, `growsTo_after`: no request and no run forgets anything.
* `Reachable.founded`: the built-in types of every table that comes about.
-/

namespace Linkage

namespace TypeTable

/-- One table knows all that another one knows: each symbol stands for the same text, each number of
a type or a prototype for the same type or prototype. -/
structure GrowsTo (t u : TypeTable) : Prop where
  symbols : t.symbols.GrowsTo u.symbols
  types : ∀ {id : TypeId} {data : TypeData}, t.lookup? id = some data → u.lookup? id = some data
  protos : ∀ {id : ProtoId} {p : Proto}, t.lookupProto? id = some p → u.lookupProto? id = some p

/-- Every table grows to itself. -/
theorem GrowsTo.refl (t : TypeTable) : t.GrowsTo t := ⟨.refl _, id, id⟩

/-- A table that grows step by step grows. -/
theorem GrowsTo.trans {t u v : TypeTable} (h : t.GrowsTo u) (h' : u.GrowsTo v) : t.GrowsTo v :=
  ⟨h.symbols.trans h'.symbols, fun ha => h'.types (h.types ha), fun ha => h'.protos (h.protos ha)⟩

/-! ### Computations that forget nothing -/

/-- A computation keeps the texts of a table in their shards, and forgets nothing. -/
def Enlarges {α : Type} (x : Interning α) : Prop :=
  ∀ t : TypeTable, t.symbols.Filed → (x t).2.symbols.Filed ∧ t.GrowsTo (x t).2

section Enlarges

variable {α β : Type}

/-- An answer that is at hand forgets nothing. -/
theorem enlarges_pure (a : α) : Enlarges (pure a) := fun t ht => ⟨ht, .refl t⟩

/-- **One computation after the other** forgets nothing, if neither does. -/
theorem Enlarges.bind {x : Interning α} {f : α → Interning β} (hx : Enlarges x)
    (hf : ∀ a, Enlarges (f a)) : Enlarges (x >>= f) := by
  intro t ht
  obtain ⟨hfiled, hgrows⟩ := hx t ht
  obtain ⟨hfiled', hgrows'⟩ := hf (x t).1 (x t).2 hfiled
  exact ⟨hfiled', hgrows.trans hgrows'⟩

/-- Computations for each of several things forget nothing, if none of them does. -/
theorem enlarges_mapM {f : α → Interning β} (hf : ∀ a, Enlarges (f a)) (as : List α) :
    Enlarges (as.mapM f) := by
  induction as with
  | nil => exact enlarges_pure []
  | cons a as ih =>
      rw [List.mapM_cons]
      exact (hf a).bind fun b => ih.bind fun bs => enlarges_pure (b :: bs)

/-- Asking for a type forgets nothing. -/
theorem enlarges_intern (data : TypeData) : Enlarges (intern data) :=
  fun _ ht => ⟨ht, .refl _, lookup?_intern_of_lookup? data, id⟩

/-- Asking for a prototype forgets nothing. -/
theorem enlarges_internProto (p : Proto) : Enlarges (internProto p) :=
  fun _ ht => ⟨ht, .refl _, id, Pool.get?_add_of_get? p⟩

/-- Filing a text forgets nothing. -/
theorem enlarges_internText (s : String) : Enlarges (internText s) :=
  fun _ ht => ⟨ht.intern s, ht.growsTo_intern s, id, id⟩

/-- Asking for a class by its name forgets nothing. -/
theorem enlarges_classNamed (name : String) : Enlarges (classNamed name) :=
  (enlarges_internText _).bind fun a => enlarges_intern (.named a)

/-- Asking for an array type forgets nothing. -/
theorem enlarges_arrayOf (element : TypeId) : Enlarges (arrayOf element) :=
  enlarges_intern (.array element)

/-- Asking for an array type with several dimensions forgets nothing. -/
theorem enlarges_arraysOf (n : Nat) (id : TypeId) : Enlarges (arraysOf n id) := by
  induction n generalizing id with
  | zero => exact enlarges_pure id
  | succ n ih => exact (enlarges_arrayOf id).bind ih

/-- Asking for the type of a field forgets nothing. -/
theorem enlarges_internField (d : FieldDescriptor) : Enlarges (internField d) := by
  obtain ⟨n, base⟩ := d
  cases base with
  | primitive p => exact enlarges_arraysOf n p.typeId
  | object name => exact (enlarges_classNamed name).bind (enlarges_arraysOf n)

/-- Asking for the prototype of a method forgets nothing. -/
theorem enlarges_internMethod (d : MethodDescriptor) : Enlarges (internMethod d) :=
  (enlarges_internField d.ret).bind fun ret =>
    (enlarges_mapM enlarges_internField d.params).bind fun params =>
      enlarges_internProto ⟨params, ret⟩

/-- Asking for a type by its text forgets nothing. -/
theorem enlarges_internDescriptor (s : String) : Enlarges (internDescriptor s) := by
  rw [internDescriptor]
  cases FieldDescriptor.ofString s with
  | error e => exact enlarges_pure _
  | ok d => exact (enlarges_internField d).bind fun _ => enlarges_pure _

/-- Asking for a prototype by its text forgets nothing. -/
theorem enlarges_internProtoDescriptor (s : String) : Enlarges (internProtoDescriptor s) := by
  rw [internProtoDescriptor]
  cases MethodDescriptor.ofString s with
  | error e => exact enlarges_pure _
  | ok d => exact (enlarges_internMethod d).bind fun _ => enlarges_pure _

/-- Asking for the signature of a method forgets nothing. -/
theorem enlarges_methodSig (name s : String) : Enlarges (methodSig name s) :=
  (enlarges_internText name).bind fun _ =>
    (enlarges_internProtoDescriptor s).bind fun _ => enlarges_pure _

/-- Asking for the signature of a field forgets nothing. -/
theorem enlarges_fieldSig (name s : String) : Enlarges (fieldSig name s) :=
  (enlarges_internText name).bind fun _ =>
    (enlarges_internDescriptor s).bind fun _ => enlarges_pure _

/-- **No request makes a table forget anything.** -/
theorem enlarges_serve (r : Request) : Enlarges (serve r) := by
  cases r with
  | text s => exact enlarges_internText s
  | type data => exact enlarges_intern data
  | classNamed name => exact enlarges_classNamed name
  | arrayOf element => exact enlarges_arrayOf element
  | descriptor s => exact enlarges_internDescriptor s
  | proto p => exact enlarges_internProto p
  | protoDescriptor s => exact enlarges_internProtoDescriptor s
  | methodSig name s => exact enlarges_methodSig name s
  | fieldSig name s => exact enlarges_fieldSig name s

end Enlarges

/-- **No run makes a table forget anything.** -/
theorem growsTo_after {t : TypeTable} (ht : t.symbols.Filed) (rs : List Request) :
    (t.after rs).symbols.Filed ∧ t.GrowsTo (t.after rs) := by
  induction rs generalizing t with
  | nil => exact ⟨ht, .refl t⟩
  | cons r rs ih =>
      obtain ⟨hfiled, hgrows⟩ := enlarges_serve r t ht
      obtain ⟨hfiled', hgrows'⟩ := ih hfiled
      exact ⟨hfiled', hgrows.trans hgrows'⟩

/-! ### The built-in types -/

/-- The texts of a table are in their shards, and the built-in types have the numbers meant for
them. -/
structure Founded (t : TypeTable) : Prop where
  filed : t.symbols.Filed
  primitive : ∀ p : Primitive, t.lookup? p.typeId = some (.primitive p)
  object : ∃ a, t.lookup? .object = some (.named a) ∧
    t.symbols.text? a = some "Ljava/lang/Object;"

/-- A table that grows keeps its built-in types. -/
theorem Founded.growsTo {t u : TypeTable} (h : t.Founded) (hfiled : u.symbols.Filed)
    (hgrows : t.GrowsTo u) : u.Founded where
  filed := hfiled
  primitive p := hgrows.types (h.primitive p)
  object := by
    obtain ⟨a, ha, htext⟩ := h.object
    exact ⟨a, hgrows.types ha, hgrows.symbols htext⟩

/-- A computation that forgets nothing keeps the built-in types. -/
theorem Founded.enlarge {t : TypeTable} {α : Type} {x : Interning α} (h : t.Founded)
    (hx : Enlarges x) : (x t).2.Founded := by
  obtain ⟨hfiled, hgrows⟩ := hx t h.filed
  exact h.growsTo hfiled hgrows

/-- A run keeps the built-in types, and forgets nothing. -/
theorem Founded.after {t : TypeTable} (h : t.Founded) (rs : List Request) :
    (t.after rs).Founded ∧ t.GrowsTo (t.after rs) := by
  obtain ⟨hfiled, hgrows⟩ := growsTo_after h.filed rs
  exact ⟨h.growsTo hfiled hgrows, hgrows⟩

/-- What a request is answered with is kept by the run that follows it. -/
theorem Founded.after_cons {t : TypeTable} (h : t.Founded) (r : Request) (later : List Request) :
    (t.after (r :: later)).Founded ∧ (serve r t).2.GrowsTo (t.after (r :: later)) :=
  (h.enlarge (enlarges_serve r)).after later

/-- The primitive types, each with its number. -/
def primitiveTypes : Pool TypeData :=
  Primitive.all.foldl (fun types p => types.add (.primitive p)) .empty

/-- The primitive types come in their order. -/
theorem values_primitiveTypes : primitiveTypes.values = Primitive.all.map .primitive := by
  decide +kernel

/-- Each of them has the number meant for it. -/
theorem get?_primitiveTypes (p : Primitive) :
    primitiveTypes.get? p.index = some (.primitive p) := by
  rw [Pool.get?, values_primitiveTypes, List.getElem?_map, p.getElem?_all_index, Option.map_some]

/-- The root class gets the number that follows those of the primitive types. -/
theorem numberOf_primitiveTypes_named (a : Symbol) :
    primitiveTypes.numberOf (.named a) = TypeId.object.val := by
  have hnew : (.named a : TypeData) ∉ primitiveTypes.values := by
    rw [values_primitiveTypes, List.mem_map]
    rintro ⟨p, -, hp⟩
    cases hp
  rw [Pool.numberOf, Pool.find?_eq_none_iff.2 hnew, Option.getD_none, Pool.size,
    values_primitiveTypes]
  rfl

/-- Adding some primitive types adds them to the types, and changes nothing else. -/
theorem run_forIn_intern {α : Type} (ps : List Primitive) (k : Interning α) (t : TypeTable) :
    StateT.run
      (do
        for p in ps do
          let _ ← intern (.primitive p)
        k) t =
    k { t with types := ps.foldl (fun types p => types.add (.primitive p)) t.types } := by
  induction ps generalizing t with
  | nil => rfl
  | cons p ps ih =>
      rw [List.foldl_cons, List.forIn_cons]
      exact ih (intern (.primitive p) t).2

/-- Which types are well known is noted down, and changes nothing else. -/
theorem Founded.setWellKnown {t : TypeTable} (h : t.Founded) (wellKnown : WellKnown) :
    ({ t with wellKnown } : TypeTable).Founded :=
  ⟨h.filed, h.primitive, h.object⟩

/-- The table that knows the primitive types and no others. -/
def primitives (symbols : SymbolTable) : TypeTable where
  symbols := symbols
  types := primitiveTypes
  protos := .empty
  wellKnown := default

/-- A new table starts from the primitive types, and adds the well-known types to them. -/
theorem freshWith_eq (shardOf : String → Fin Symbol.shardCount) :
    freshWith shardOf =
      { (internWellKnown (primitives (SymbolTable.fresh shardOf).internCommon)).2 with
        wellKnown :=
          (internWellKnown (primitives (SymbolTable.fresh shardOf).internCommon)).1 } := by
  rw [freshWith, run_forIn_intern]
  rfl

/-- The well-known types are asked for by their names, the root class first. -/
theorem exists_internWellKnown_eq (t : TypeTable) :
    ∃ rest, (internWellKnown t).2 = t.after (.classNamed "java/lang/Object" :: rest) ∧
      ∀ r ∈ rest, ∀ data, r ≠ .type data := by
  refine ⟨[.arrayOf (classNamed "java/lang/Object" t).1,
    .classNamed "java/lang/invoke/MethodHandle", .classNamed "java/lang/invoke/VarHandle",
    .text "clone", .text "<init>", .text "<clinit>"], rfl, ?_⟩
  rintro r hr data rfl
  simp at hr

/-- The first class that is added to the primitive types gets the number of the root class. -/
theorem lookup?_classNamed_primitives {symbols : SymbolTable} (hfiled : symbols.Filed)
    (name : String) :
    ∃ a, (classNamed name (primitives symbols)).2.lookup? .object = some (.named a) ∧
      (classNamed name (primitives symbols)).2.symbols.text? a = some ("L" ++ name ++ ";") := by
  have hlookup := primitiveTypes.get?_numberOf
    (.named (symbols.intern ("L" ++ name ++ ";")).1)
  rw [numberOf_primitiveTypes_named] at hlookup
  exact ⟨_, hlookup, hfiled.text?_intern_self _⟩

/-- With the root class the built-in types are complete. -/
theorem founded_classNamed_object {symbols : SymbolTable} (hfiled : symbols.Filed) :
    (classNamed "java/lang/Object" (primitives symbols)).2.Founded := by
  obtain ⟨hfiled', hgrows⟩ := enlarges_classNamed "java/lang/Object" (primitives symbols) hfiled
  exact ⟨hfiled', fun p => hgrows.types (get?_primitiveTypes p),
    lookup?_classNamed_primitives hfiled "java/lang/Object"⟩

/-- **The built-in types of a new table** have the numbers meant for them. -/
theorem founded_freshWith (shardOf : String → Fin Symbol.shardCount) :
    (freshWith shardOf).Founded := by
  have hcommon := ((SymbolTable.filed_fresh shardOf).internAll SymbolTable.commonTexts).1
  have hobject := founded_classNamed_object hcommon
  rw [freshWith_eq]
  refine Founded.setWellKnown ?_ _
  obtain ⟨rest, heq, -⟩ :=
    exists_internWellKnown_eq (primitives (SymbolTable.fresh shardOf).internCommon)
  rw [heq, TypeTable.after_cons, serve]
  exact (hobject.after rest).1

/-- **The built-in types of every table that comes about** have the numbers meant for them. -/
theorem Reachable.founded {t : TypeTable} (h : t.Reachable) : t.Founded := by
  obtain ⟨shardOf, rs, rfl⟩ := h
  exact ((founded_freshWith shardOf).after rs).1

end TypeTable

end Linkage
