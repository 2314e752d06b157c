import Linkage.Proofs.Coherence
import Mathlib.Data.Finset.Card

/-!
# Tables of First Declarations

Nothing keeps a class from declaring a signature more than once, or a field by the name of one of
its methods. The definition of the class lists all of it; its member table, from which references
are resolved, has one key space for methods and fields and keeps what came in first. Both are read,
the list by the search for signature-polymorphic methods and the table by the other look-ups, so
they must not drift apart. This module shows that they do not, whatever is declared twice: the table
holds the first declarations, one for each signature that the class declares, and nothing else.

## Main definitions

* `FirstWith`: an element of a list is the first one with its key.

## Main results

* `ClassDef.method?_eq_some_iff`, `ClassDef.field?_eq_some_iff`: a look-up in a definition finds
  first declarations.
* `MemberTable.mem_keys_ofClass`: the keys of a table are the signatures that the class declares.
* `MemberTable.size_ofClass`: a table has one entry for each of them.
* `MemberTable.ofClass_agrees`: a table agrees with the class that it indexes.
-/

namespace Linkage

/-! ### First declarations -/

section

variable {β κ : Type} {key : β → κ} {k : κ} {xs : List β} {x : β}

/-- **The first element with a key**: it has the key, and no element before it does. -/
def FirstWith (key : β → κ) (k : κ) (xs : List β) (x : β) : Prop :=
  ∃ before after, xs = before ++ x :: after ∧ key x = k ∧ ∀ y ∈ before, key y ≠ k

/-- What is found by its key is the first with this key. -/
theorem find?_key_eq_some_iff [DecidableEq κ] :
    (xs.find? fun x => key x == k) = some x ↔ FirstWith key k xs x := by
  rw [List.find?_eq_some_iff_append]
  constructor
  · rintro ⟨hkey, before, after, hxs, hbefore⟩
    refine ⟨before, after, hxs, eq_of_beq hkey, fun y hy => ?_⟩
    exact bne_iff_ne.1 (hbefore y hy)
  · rintro ⟨before, after, hxs, hkey, hbefore⟩
    exact ⟨beq_iff_eq.2 hkey, before, after, hxs, fun y hy => bne_iff_ne.2 (hbefore y hy)⟩

end

namespace ClassDef

/-- A definition is asked for the first method with a signature, -/
theorem method?_eq_some_iff {c : ClassDef} {sig : MethodSig} {m : Method} :
    c.method? sig = some m ↔ FirstWith Method.sig sig c.methods m :=
  find?_key_eq_some_iff

/-- and for the first field. -/
theorem field?_eq_some_iff {c : ClassDef} {sig : FieldSig} {f : Field} :
    c.field? sig = some f ↔ FirstWith Field.sig sig c.fields f :=
  find?_key_eq_some_iff

end ClassDef

/-! ### The keys of a table -/

namespace OrderedMap

/-- Storing a list of values under new keys only adds the keys of the list. -/
theorem mem_keys_foldl_insertNew {α β κ : Type} [DecidableEq κ] (key : β → κ) (val : β → α)
    (xs : List β) (m : OrderedMap κ α) (k : κ) :
    k ∈ (xs.foldl (fun m x => m.insertNew (key x) (val x)) m).keys ↔
      k ∈ m.keys ∨ k ∈ xs.map key := by
  rw [← contains_iff_mem_keys, ← contains_iff_mem_keys, contains, contains, get?_foldl_insertNew,
    Option.isSome_or, Option.isSome_map, Bool.or_eq_true, List.find?_isSome, List.mem_map]
  simp only [beq_iff_eq]

end OrderedMap

namespace MemberTable

/-- **A table has an entry for every signature that the class declares**, as a method or as a
field, and for no other. -/
theorem mem_keys_ofClass (c : ClassDef) (k : MemberKey) :
    k ∈ (ofClass c).keys ↔
      k ∈ (c.methods.map Method.sig).map .method ∨ k ∈ (c.fields.map Field.sig).map .field := by
  rw [ofClass, OrderedMap.mem_keys_foldl_insertNew (fun f : Field => MemberKey.field f.sig),
    OrderedMap.mem_keys_foldl_insertNew (fun m : Method => MemberKey.method m.sig),
    OrderedMap.keys_empty, or_iff_right List.not_mem_nil, List.map_map, List.map_map]
  rfl

/-- **A table has one entry for each signature**, however often the class declares it. The same
name can make two entries, since a method's key is not a field's. -/
theorem size_ofClass (c : ClassDef) :
    (ofClass c).size =
      (c.methods.map Method.sig).toFinset.card + (c.fields.map Field.sig).toFinset.card := by
  have hkeys : (ofClass c).keys.toFinset =
      (c.methods.map Method.sig).toFinset.image .method ∪
        (c.fields.map Field.sig).toFinset.image .field := by
    ext k
    simp only [List.mem_toFinset, mem_keys_ofClass, List.mem_map, Finset.mem_union,
      Finset.mem_image]
  have hdisjoint : Disjoint ((c.methods.map Method.sig).toFinset.image MemberKey.method)
      ((c.fields.map Field.sig).toFinset.image MemberKey.field) := by
    rw [Finset.disjoint_left]
    intro k hmethod hfield
    obtain ⟨_, -, rfl⟩ := Finset.mem_image.1 hmethod
    obtain ⟨_, -, h⟩ := Finset.mem_image.1 hfield
    exact MemberKey.noConfusion h
  calc (ofClass c).size
      = (ofClass c).keys.toFinset.card := by
        rw [List.toFinset_card_of_nodup (ofClass c).nodup_keys, OrderedMap.length_keys]
    _ = ((c.methods.map Method.sig).toFinset.image MemberKey.method).card +
          ((c.fields.map Field.sig).toFinset.image MemberKey.field).card := by
        rw [hkeys, Finset.card_union_of_disjoint hdisjoint]
    _ = _ := by
        rw [Finset.card_image_of_injective _ fun _ _ => MemberKey.method.inj,
          Finset.card_image_of_injective _ fun _ _ => MemberKey.field.inj]

/-! ### A table and its class -/

/-- **A table agrees with the class that it indexes**, however often the class declares a signature.
Under each signature the table and the definition have the same method, stamp included: the one that
is declared first. So it is with fields, which have no stamps. A method's key never leads to a
field, nor a field's key to a method, and there are as many entries as there are different
signatures of methods and of fields. -/
theorem ofClass_agrees (c : ClassDef) :
    (∀ sig, (ofClass c).method? sig = c.method? sig) ∧
      (∀ sig m, (ofClass c).method? sig = some m ↔ FirstWith Method.sig sig c.methods m) ∧
      (∀ sig, (ofClass c).field? sig = c.field? sig) ∧
      (∀ sig f, (ofClass c).field? sig = some f ↔ FirstWith Field.sig sig c.fields f) ∧
      (∀ sig f, (ofClass c).get? (.method sig) ≠ some (.field f)) ∧
      (∀ sig m, (ofClass c).get? (.field sig) ≠ some (.method m)) ∧
      (ofClass c).size =
        (c.methods.map Method.sig).toFinset.card + (c.fields.map Field.sig).toFinset.card := by
  refine ⟨method?_ofClass c, fun sig m => ?_, field?_ofClass c, fun sig f => ?_,
    fun sig f => ?_, fun sig m => ?_, size_ofClass c⟩
  · rw [method?_ofClass, ClassDef.method?_eq_some_iff]
  · rw [field?_ofClass, ClassDef.field?_eq_some_iff]
  · rw [get?_ofClass_method]
    cases c.method? sig <;> simp
  · rw [get?_ofClass_field]
    cases c.field? sig <;> simp

/-- A class that declares one method twice, and a field by its name. -/
def declaredTwice : ClassDef :=
  { ClassDef.ofClass ⟨90⟩ (some .object) with
    methods :=
      [⟨⟨1⟩, ⟨90⟩, ⟨⟨1⟩, ⟨0⟩⟩, .publicFlag, none⟩, ⟨⟨2⟩, ⟨90⟩, ⟨⟨1⟩, ⟨0⟩⟩, .staticFlag, none⟩]
    fields := [⟨⟨90⟩, ⟨⟨1⟩, ⟨0⟩⟩, .publicFlag, none⟩] }

example :
    ((ofClass declaredTwice).method? ⟨⟨1⟩, ⟨0⟩⟩).map Method.stamp = some ⟨1⟩ ∧
      (ofClass declaredTwice).size = 2 := by
  decide

end MemberTable

end Linkage
