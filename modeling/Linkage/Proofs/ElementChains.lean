import Linkage.Proofs.TypeIdentity
import Mathlib.Data.Fintype.EquivFin
import Mathlib.Data.List.Forall2
import Mathlib.Logic.Relation

/-!
# Chains of Element Types

A type is written by going from an array type to its element type, and on from there, until
something else comes up. Nothing bounds this but the types themselves, and they need not: an array
type may be asked for over a number that is not given out yet, and if this is the very number that
the array type then gets, the array type is its own element.

Where writing ends is therefore a property of a table and a number. It is stated without bounds on
the number of steps, by the recursion alone, and compared with the bounded descent that types are
taken apart by, and with cycles of element types.

## Main definitions

* `WritesDescriptor`, `WritesName`, `WritesProto`, `WritesMethod`, `WritesField`: what the
  recursions write, where they end.
* `Ends`: the element types below a number come to an end.
* `SelfElement`: a type is its own element, directly or through a chain of elements.

## Main results

* `ends_iff_forall_not_selfElement`: element types end exactly if they do not lead to a cycle.
* `shape?_eq_some_iff`: as many steps as there are types are enough to take a type apart.
* `writesDescriptor_iff`, `writesName_iff`: what is written for a type is what `descriptor?` and
  `typeName?` give.
* `writesProto_iff`, `writesMethod_iff`, `writesField_iff`: prototypes and references to members.
* `exists_writesDescriptor_iff`, `exists_writesName_iff`, `exists_writesProto_iff`: all this is
  written exactly where the elements of types end.
-/

namespace Linkage

namespace TypeTable

variable {t u : TypeTable} {id element : TypeId}

/-! ### What the recursions do -/

/-- What is written for a type: something for what lies under the array layers, and something more
for each layer. -/
inductive Writes (t : TypeTable) (leaf : TypeLeaf → String) (layer : String → String) :
    TypeId → String → Prop
  | primitive {id : TypeId} {p : Primitive} (h : t.lookup? id = some (.primitive p)) :
      Writes t leaf layer id (leaf (.primitive p))
  | named {id : TypeId} {a : Symbol} (h : t.lookup? id = some (.named a)) :
      Writes t leaf layer id (leaf (.named a))
  | array {id element : TypeId} {text : String} (h : t.lookup? id = some (.array element))
      (helement : Writes t leaf layer element text) : Writes t leaf layer id (layer text)
  | unknown {id : TypeId} (h : t.lookup? id = none) : Writes t leaf layer id (leaf (.unknown id))

/-- What is written as the descriptor of a type. -/
def WritesDescriptor (t : TypeTable) : TypeId → String → Prop :=
  t.Writes t.leafDescriptor fun text => "[" ++ text

/-- What is written as the name of a type. -/
def WritesName (t : TypeTable) : TypeId → String → Prop :=
  t.Writes t.leafName fun text => text ++ "[]"

/-- What is written for a prototype: its parameter types in order, and its return type. -/
inductive WritesProto (t : TypeTable) (id : ProtoId) : String → Prop
  | known {p : Proto} {params : List String} {ret : String} (h : t.lookupProto? id = some p)
      (hparams : List.Forall₂ t.WritesDescriptor p.params params)
      (hret : t.WritesDescriptor p.ret ret) :
      WritesProto t id ("(" ++ String.join params ++ ")" ++ ret)
  | unknown (h : t.lookupProto? id = none) : WritesProto t id "(?)?"

/-- What is written for a method reference. -/
inductive WritesMethod (t : TypeTable) (m : MethodRef) : String → Prop
  | intro {holder proto : String} (hholder : t.WritesName m.holder holder)
      (hproto : t.WritesProto m.sig.proto proto) :
      WritesMethod t m (holder ++ "." ++ t.symbols.text m.sig.name ++ proto)

/-- What is written for a field reference. -/
inductive WritesField (t : TypeTable) (f : FieldRef) : String → Prop
  | intro {holder type : String} (hholder : t.WritesName f.holder holder)
      (htype : t.WritesDescriptor f.sig.type type) :
      WritesField t f (holder ++ "." ++ t.symbols.text f.sig.name ++ ":" ++ type)

/-- The element types below a number come to an end. -/
inductive Ends (t : TypeTable) : TypeId → Prop
  | leaf {id : TypeId} (h : t.elementType? id = none) : Ends t id
  | array {id element : TypeId} (h : t.elementType? id = some element)
      (helement : Ends t element) : Ends t id

/-- A type has elements if it is an array type over them. -/
theorem elementType?_eq_some_iff :
    t.elementType? id = some element ↔ t.lookup? id = some (.array element) := by
  rw [elementType?]
  cases h : t.lookup? id with
  | none => simp
  | some data => cases data <;> simp

/-- Array types are among the types handed out. -/
theorem lt_typeCount_of_elementType? (h : t.elementType? id = some element) :
    id.val < t.typeCount :=
  lt_typeCount_of_lookup? (elementType?_eq_some_iff.1 h)

/-- A type ends with its element type. -/
theorem Ends.of_element (h : t.Ends id) (helement : t.elementType? id = some element) :
    t.Ends element := by
  cases h with
  | leaf hnone =>
      rw [helement] at hnone
      cases hnone
  | array h hends =>
      rw [helement] at h
      cases h
      exact hends

/-! ### Cycles -/

/-- Element types lead from one number to another one, in any number of steps. -/
def LeadsTo (t : TypeTable) : TypeId → TypeId → Prop :=
  Relation.ReflTransGen fun id element => t.elementType? id = some element

/-- A type is its own element, directly or through a chain of elements. -/
def SelfElement (t : TypeTable) (id : TypeId) : Prop :=
  Relation.TransGen (fun id element => t.elementType? id = some element) id id

/-- All that a type leads to ends with it. -/
theorem Ends.of_leadsTo {below : TypeId} (h : t.Ends id) (hleads : t.LeadsTo id below) :
    t.Ends below := by
  induction hleads with
  | refl => exact h
  | tail _ hstep ih => exact ih.of_element hstep

/-- A type that is its own element has an element that is so as well. -/
theorem SelfElement.exists_element (h : t.SelfElement id) :
    ∃ element, t.elementType? id = some element ∧ t.SelfElement element := by
  obtain ⟨element, hstep, hback⟩ := Relation.TransGen.head'_iff.1 h
  exact ⟨element, hstep, Relation.TransGen.tail' hback hstep⟩

/-- No type that ends is its own element. -/
theorem Ends.not_selfElement (h : t.Ends id) : ¬ t.SelfElement id := by
  induction h with
  | leaf hnone =>
      intro hself
      obtain ⟨element, hstep, -⟩ := hself.exists_element
      rw [hnone] at hstep
      cases hstep
  | array hstep _ ih =>
      intro hself
      obtain ⟨element, hstep', hself'⟩ := hself.exists_element
      rw [hstep] at hstep'
      cases hstep'
      exact ih hself'

/-- **Element types end** exactly if they do not lead to a cycle. There are finitely many array
types, so that without a cycle the order of elements among them is well founded. -/
theorem ends_iff_forall_not_selfElement :
    t.Ends id ↔ ∀ below, t.LeadsTo id below → ¬ t.SelfElement below := by
  constructor
  · intro h below hleads
    exact (h.of_leadsTo hleads).not_selfElement
  · intro h
    let r : Fin t.typeCount → Fin t.typeCount → Prop := fun b a => t.LeadsTo id ⟨a⟩ ∧
      Relation.TransGen (fun id element => t.elementType? id = some element) ⟨a⟩ ⟨b⟩
    have : IsTrans (Fin t.typeCount) r := ⟨fun _ _ _ hba hcb => ⟨hcb.1, hcb.2.trans hba.2⟩⟩
    have : Std.Irrefl r := ⟨fun a ha => h ⟨a⟩ ha.1 ha.2⟩
    have hwf : WellFounded r := Finite.wellFounded_of_trans_of_irrefl r
    have hknown : ∀ a : Fin t.typeCount, t.LeadsTo id ⟨a⟩ → t.Ends ⟨a⟩ := by
      intro a
      induction a using hwf.induction with
      | _ a ih =>
          intro hleads
          cases hstep : t.elementType? ⟨a⟩ with
          | none => exact .leaf hstep
          | some element =>
              refine .array hstep ?_
              cases hnext : t.elementType? element with
              | none => exact .leaf hnext
              | some _ =>
                  exact ih ⟨element.val, lt_typeCount_of_elementType? hnext⟩
                    ⟨hleads, .single hstep⟩ (hleads.tail hstep)
    cases hstep : t.elementType? id with
    | none => exact .leaf hstep
    | some element => exact hknown ⟨id.val, lt_typeCount_of_elementType? hstep⟩ .refl

/-! ### Taking types apart -/

/-- The array layers of a type that ends are different types. -/
theorem Ends.exists_layers (h : t.Ends id) :
    ∃ layers : List (Fin t.typeCount), layers.Nodup ∧ (∀ a ∈ layers, t.LeadsTo id ⟨a⟩) ∧
      ∃ leaf, t.unwrap (layers.length + 1) id = some ⟨layers.length, leaf⟩ := by
  induction h with
  | @leaf id h =>
      refine ⟨[], .nil, nofun, ?_⟩
      simp only [List.length_nil, unwrap]
      cases hlookup : t.lookup? id with
      | none => exact ⟨_, rfl⟩
      | some data =>
          cases data with
          | primitive p => exact ⟨_, rfl⟩
          | named a => exact ⟨_, rfl⟩
          | array element =>
              rw [elementType?_eq_some_iff.2 hlookup] at h
              cases h
  | @array id element h helement ih =>
      obtain ⟨layers, hnodup, hleads, leaf, hunwrap⟩ := ih
      refine ⟨⟨id.val, lt_typeCount_of_elementType? h⟩ :: layers, ?_, ?_, leaf, ?_⟩
      · refine List.nodup_cons.2 ⟨fun hmem => ?_, hnodup⟩
        exact (helement.of_leadsTo (hleads _ hmem)).not_selfElement
          (Relation.TransGen.head' h (hleads _ hmem))
      · intro a ha
        rcases List.mem_cons.1 ha with rfl | ha
        · exact .refl
        · exact .head h (hleads a ha)
      · rw [List.length_cons, unwrap_succ_of_array (elementType?_eq_some_iff.1 h), hunwrap]
        rfl

/-- A longer descent finds the same shape. -/
theorem unwrap_of_le {steps steps' : Nat} {s : TypeShape} (h : t.unwrap steps id = some s)
    (hle : steps ≤ steps') : t.unwrap steps' id = some s := by
  induction hle with
  | refl => exact h
  | step _ ih => exact unwrap_succ ih

/-- A descent that finds a shape has come to an end. -/
theorem ends_of_unwrap {steps : Nat} {s : TypeShape} (h : t.unwrap steps id = some s) :
    t.Ends id := by
  induction steps generalizing id s with
  | zero => cases h
  | succ steps ih =>
      cases hstep : t.elementType? id with
      | none => exact .leaf hstep
      | some element =>
          rw [unwrap_succ_of_array (elementType?_eq_some_iff.1 hstep), Option.map_eq_some_iff] at h
          obtain ⟨s', hs', -⟩ := h
          exact .array hstep (ih hs')

/-- **As many steps as there are types** are enough to take a type apart, if any number is. -/
theorem shape?_eq_some_iff {s : TypeShape} :
    t.shape? id = some s ↔ ∃ steps, t.unwrap steps id = some s := by
  constructor
  · intro h
    exact ⟨_, h⟩
  · rintro ⟨steps, h⟩
    obtain ⟨layers, hnodup, -, leaf, hunwrap⟩ := (ends_of_unwrap h).exists_layers
    have hle := hnodup.length_le_card
    rw [Fintype.card_fin] at hle
    have hshape := unwrap_of_le hunwrap (Nat.succ_le_succ hle)
    have hsame := unwrap_of_le hunwrap (Nat.le_max_left _ steps)
    rw [unwrap_of_le h (Nat.le_max_right _ steps)] at hsame
    rw [shape?, hshape, hsame]

/-- A type has a shape exactly if its array layers end. -/
theorem isSome_shape?_iff : (t.shape? id).isSome ↔ t.Ends id := by
  rw [Option.isSome_iff_exists]
  constructor
  · rintro ⟨s, hs⟩
    exact ends_of_unwrap hs
  · intro h
    obtain ⟨_, -, -, leaf, hunwrap⟩ := h.exists_layers
    exact ⟨_, shape?_eq_some_iff.2 ⟨_, hunwrap⟩⟩

/-! ### Writing types -/

/-- A descent with any number of steps writes what it finds. -/
theorem writes_of_unwrap {leaf : TypeLeaf → String} {layer : String → String} {steps : Nat}
    {s : TypeShape} (h : t.unwrap steps id = some s) :
    t.Writes leaf layer id (layer^[s.dimensions] (leaf s.leaf)) := by
  induction steps generalizing id s with
  | zero => cases h
  | succ steps ih =>
      rw [unwrap] at h
      split at h
      · next hlookup =>
        cases h
        exact .primitive hlookup
      · next hlookup =>
        cases h
        exact .named hlookup
      · next hlookup =>
        obtain ⟨s', hs', rfl⟩ := Option.map_eq_some_iff.1 h
        rw [Function.iterate_succ_apply']
        exact .array hlookup (ih hs')
      · next hlookup =>
        cases h
        exact .unknown hlookup

/-- **A type is written** exactly if it can be taken apart, layer by layer over what lies under the
layers. -/
theorem writes_iff_shape? {leaf : TypeLeaf → String} {layer : String → String} {text : String} :
    t.Writes leaf layer id text ↔
      ∃ s, t.shape? id = some s ∧ text = layer^[s.dimensions] (leaf s.leaf) := by
  constructor
  · intro h
    induction h with
    | primitive h => exact ⟨_, shape?_of_lookup?_primitive h, rfl⟩
    | named h => exact ⟨_, shape?_of_lookup?_named h, rfl⟩
    | @unknown id h => exact ⟨⟨0, .unknown id⟩, by rw [shape?, unwrap, h], rfl⟩
    | @array id element _ h _ ih =>
        obtain ⟨s, hs, rfl⟩ := ih
        refine ⟨⟨s.dimensions + 1, s.leaf⟩, shape?_eq_some_iff.2 ⟨t.typeCount + 1 + 1, ?_⟩, ?_⟩
        · rw [unwrap_succ_of_array h, ← shape?, hs]
          rfl
        · rw [Function.iterate_succ_apply']
  · rintro ⟨s, hs, rfl⟩
    exact writes_of_unwrap hs

/-- A type has a text exactly if its array layers end. -/
theorem exists_writes_iff_ends {leaf : TypeLeaf → String} {layer : String → String} :
    (∃ text, t.Writes leaf layer id text) ↔ t.Ends id := by
  rw [← isSome_shape?_iff, Option.isSome_iff_exists]
  constructor
  · rintro ⟨text, h⟩
    obtain ⟨s, hs, -⟩ := writes_iff_shape?.1 h
    exact ⟨s, hs⟩
  · rintro ⟨s, hs⟩
    exact ⟨_, writes_iff_shape?.2 ⟨s, hs, rfl⟩⟩

/-- A bracket in front for every layer. -/
theorem iterate_bracket (n : Nat) (text : String) :
    (fun text => "[" ++ text)^[n] text = String.ofList (List.replicate n '[') ++ text := by
  induction n with
  | zero => rw [List.replicate_zero, String.ofList_nil, String.empty_append]; rfl
  | succ n ih =>
      rw [Function.iterate_succ_apply', ih, List.replicate_succ, ← List.singleton_append,
        String.ofList_append, String.append_assoc]

/-- A pair of brackets behind for every layer. -/
theorem iterate_brackets (n : Nat) (text : String) :
    (fun text => text ++ "[]")^[n] text = text ++ String.join (List.replicate n "[]") := by
  induction n with
  | zero => exact (String.append_empty ..).symm
  | succ n ih =>
      rw [Function.iterate_succ_apply', ih, List.replicate_succ', String.join_append,
        ← String.append_assoc]
      rfl

/-- The descriptor of a type has one bracket for each of its layers. -/
theorem descriptor?_eq_some_iff {text : String} :
    t.descriptor? id = some text ↔ ∃ s, t.shape? id = some s ∧
      text = (fun text => "[" ++ text)^[s.dimensions] (t.leafDescriptor s.leaf) := by
  simp only [descriptor?, bind, Option.bind_eq_some_iff, pure, Option.some.injEq, iterate_bracket]
  exact exists_congr fun s => and_congr_right fun _ => eq_comm

/-- The name of a type has one pair of brackets for each of its layers. -/
theorem typeName?_eq_some_iff {text : String} :
    t.typeName? id = some text ↔ ∃ s, t.shape? id = some s ∧
      text = (fun text => text ++ "[]")^[s.dimensions] (t.leafName s.leaf) := by
  simp only [typeName?, bind, Option.bind_eq_some_iff, pure, Option.some.injEq, iterate_brackets]
  exact exists_congr fun s => and_congr_right fun _ => eq_comm

/-- **What is written as a descriptor** is what `descriptor?` gives. -/
theorem writesDescriptor_iff {text : String} :
    t.WritesDescriptor id text ↔ t.descriptor? id = some text :=
  writes_iff_shape?.trans descriptor?_eq_some_iff.symm

/-- **What is written as a name** is what `typeName?` gives. -/
theorem writesName_iff {text : String} :
    t.WritesName id text ↔ t.typeName? id = some text :=
  writes_iff_shape?.trans typeName?_eq_some_iff.symm

/-- **Descriptors are written** where the elements of a type end. -/
theorem exists_writesDescriptor_iff : (∃ text, t.WritesDescriptor id text) ↔ t.Ends id :=
  exists_writes_iff_ends

/-- **Names are written** where the elements of a type end. -/
theorem exists_writesName_iff : (∃ text, t.WritesName id text) ↔ t.Ends id :=
  exists_writes_iff_ends

/-- All types that a prototype is made of end. -/
def ProtoEnds (t : TypeTable) (id : ProtoId) : Prop :=
  ∀ p, t.lookupProto? id = some p → (∀ param ∈ p.params, t.Ends param) ∧ t.Ends p.ret

/-- Several descriptors are written one after the other. -/
theorem forall₂_writesDescriptor_iff {ids : List TypeId} {texts : List String} :
    List.Forall₂ t.WritesDescriptor ids texts ↔ ids.mapM t.descriptor? = some texts := by
  induction ids generalizing texts with
  | nil => simp [eq_comm]
  | cons id ids ih =>
      simp only [List.forall₂_cons_left_iff, writesDescriptor_iff, ih, List.mapM_cons, bind,
        Option.bind_eq_some_iff, pure, Option.some.injEq]
      constructor
      · rintro ⟨text, texts, htext, htexts, rfl⟩
        exact ⟨text, htext, texts, htexts, rfl⟩
      · rintro ⟨text, htext, texts, htexts, rfl⟩
        exact ⟨text, texts, htext, htexts, rfl⟩

/-- **What is written for a prototype** is what `protoDescriptor?` gives. -/
theorem writesProto_iff {id : ProtoId} {text : String} :
    t.WritesProto id text ↔ t.protoDescriptor? id = some text := by
  rw [protoDescriptor?]
  constructor
  · intro h
    cases h with
    | known h hparams hret =>
        simp only [h, forall₂_writesDescriptor_iff.1 hparams, writesDescriptor_iff.1 hret, bind,
          Option.bind_some, pure]
    | unknown h => simp only [h]
  · intro h
    cases hlookup : t.lookupProto? id with
    | none =>
        rw [hlookup] at h
        cases h
        exact .unknown hlookup
    | some p =>
        simp only [hlookup, bind, Option.bind_eq_some_iff, pure, Option.some.injEq] at h
        obtain ⟨params, hparams, ret, hret, rfl⟩ := h
        exact .known hlookup (forall₂_writesDescriptor_iff.2 hparams) (writesDescriptor_iff.2 hret)

/-- **What is written for a method reference** is what `displayMethod?` gives. -/
theorem writesMethod_iff {m : MethodRef} {text : String} :
    t.WritesMethod m text ↔ t.displayMethod? m = some text := by
  simp only [displayMethod?, bind, Option.bind_eq_some_iff, pure, Option.some.injEq,
    ← writesName_iff, ← writesProto_iff]
  constructor
  · rintro ⟨hholder, hproto⟩
    exact ⟨_, hholder, _, hproto, rfl⟩
  · rintro ⟨holder, hholder, proto, hproto, rfl⟩
    exact ⟨hholder, hproto⟩

/-- **What is written for a field reference** is what `displayField?` gives. -/
theorem writesField_iff {f : FieldRef} {text : String} :
    t.WritesField f text ↔ t.displayField? f = some text := by
  simp only [displayField?, bind, Option.bind_eq_some_iff, pure, Option.some.injEq,
    ← writesName_iff, ← writesDescriptor_iff]
  constructor
  · rintro ⟨hholder, htype⟩
    exact ⟨_, hholder, _, htype, rfl⟩
  · rintro ⟨holder, hholder, type, htype, rfl⟩
    exact ⟨hholder, htype⟩

/-- Several descriptors are written where the elements of all types end. -/
theorem exists_forall₂_writesDescriptor_iff {ids : List TypeId} :
    (∃ texts, List.Forall₂ t.WritesDescriptor ids texts) ↔ ∀ id ∈ ids, t.Ends id := by
  induction ids with
  | nil => simp
  | cons id ids ih =>
      rw [List.forall_mem_cons, ← ih, ← exists_writesDescriptor_iff]
      constructor
      · rintro ⟨texts, h⟩
        obtain ⟨text, texts', htext, htexts, -⟩ := List.forall₂_cons_left_iff.1 h
        exact ⟨⟨text, htext⟩, texts', htexts⟩
      · rintro ⟨⟨text, htext⟩, texts, htexts⟩
        exact ⟨text :: texts, .cons htext htexts⟩

/-- **Prototypes are written** where all their types end. -/
theorem exists_writesProto_iff {id : ProtoId} :
    (∃ text, t.WritesProto id text) ↔ t.ProtoEnds id := by
  constructor
  · rintro ⟨text, hwrites⟩ p hp
    cases hwrites with
    | known h hparams hret =>
        obtain rfl := Option.some.inj (h.symm.trans hp)
        exact ⟨exists_forall₂_writesDescriptor_iff.1 ⟨_, hparams⟩,
          exists_writesDescriptor_iff.1 ⟨_, hret⟩⟩
    | unknown h =>
        rw [h] at hp
        cases hp
  · intro hends
    cases hp : t.lookupProto? id with
    | none => exact ⟨_, .unknown hp⟩
    | some p =>
        obtain ⟨hparams, hret⟩ := hends p hp
        obtain ⟨params, hparams⟩ := exists_forall₂_writesDescriptor_iff.2 hparams
        obtain ⟨ret, hret⟩ := exists_writesDescriptor_iff.2 hret
        exact ⟨_, .known hp hparams hret⟩

end TypeTable

end Linkage
