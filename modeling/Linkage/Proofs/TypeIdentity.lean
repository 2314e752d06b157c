import Linkage.Proofs.Capacity
import Linkage.Proofs.DescriptorGrammar
import Linkage.TypeTable.Render
import Mathlib.Data.Fintype.Card

/-!
# Numbers and Types

A number of a type table is as good as the type it stands for: two field types get one number
exactly if they are equal, however far apart in a run they are asked for, and the number reads back
as the text of the type.

`Denotes` says which type a number stands for, layer by layer: an array type by the number below it,
a class by the text of its symbol. Numbers that stand for no type of a field (a class under a symbol
of some other text, an array over a number that is not given out yet) are not denoted by anything,
and so are never in the way of those that are.

## Main definitions

* `Denotes`: a number stands for the type that a descriptor describes.

## Main results

* `Denotes.growsTo`: what a number stands for never changes.
* `Denotes.id_unique`, `Denotes.type_unique`: a type has one number, and a number one type.
* `denotes_internField`: a descriptor's number stands for the type that it describes.
* `Denotes.descriptor?_eq`: a number reads back as the text of its type.
* `identifies_types`: numbers and types in every run.
-/

namespace Linkage

namespace TypeTable

/-! ### What numbers stand for -/

/-- A number of a table stands for the type that a descriptor describes. -/
inductive Denotes (t : TypeTable) : FieldDescriptor → TypeId → Prop
  | primitive {p : Primitive} {id : TypeId} (h : t.lookup? id = some (.primitive p)) :
      Denotes t ⟨0, .primitive p⟩ id
  | object {name : String} {a : Symbol} {id : TypeId} (h : t.lookup? id = some (.named a))
      (htext : t.symbols.text? a = some ("L" ++ name ++ ";")) : Denotes t ⟨0, .object name⟩ id
  | array {n : Nat} {base : BaseType} {element id : TypeId}
      (h : t.lookup? id = some (.array element)) (helement : Denotes t ⟨n, base⟩ element) :
      Denotes t ⟨n + 1, base⟩ id

/-- A type has one number only. -/
theorem lookup?_inj {t : TypeTable} {id id' : TypeId} {data : TypeData}
    (h : t.lookup? id = some data) (h' : t.lookup? id' = some data) : id = id' :=
  congrArg TypeId.mk (Pool.get?_inj h h')

/-- The numbers that stand for types are those given out. -/
theorem lt_typeCount_of_lookup? {t : TypeTable} {id : TypeId} {data : TypeData}
    (h : t.lookup? id = some data) : id.val < t.typeCount :=
  Pool.lt_size_of_get? h

/-- The numbers given out are those below the number of types. -/
theorem isSome_lookup?_iff {t : TypeTable} {id : TypeId} :
    (t.lookup? id).isSome ↔ id.val < t.typeCount := by
  rw [Option.isSome_iff_ne_none, Ne, lookup?, Pool.get?_eq_none_iff, Nat.not_le]
  rfl

/-- A number stands for a type exactly if asking for the type gives that number and adds nothing. -/
theorem lookup?_eq_some_iff_intern {t : TypeTable} {id : TypeId} {data : TypeData} :
    t.lookup? id = some data ↔
      (intern data t).1 = id ∧ (intern data t).2.typeCount = t.typeCount := by
  have hcount : (intern data t).2.typeCount = t.typeCount ↔ data ∈ t.types.values := by
    rw [typeCount, intern, Pool.size_add, typeCount]
    split <;> simp [*]
  constructor
  · intro h
    have hold := lookup?_intern_of_lookup? data h
    exact ⟨lookup?_inj (lookup?_intern t data) hold, hcount.2 (List.mem_of_getElem? h)⟩
  · rintro ⟨rfl, h⟩
    have hsame : (intern data t).2 = t := by
      rw [intern, Pool.add_of_mem (hcount.1 h)]
    have hlookup := lookup?_intern t data
    rw [hsame] at hlookup
    exact hlookup

/-- A type that is new gets the next number. -/
theorem intern_of_new {t : TypeTable} {data : TypeData} (h : ∀ id, t.lookup? id ≠ some data) :
    (intern data t).1 = ⟨t.typeCount⟩ ∧ (intern data t).2.typeCount = t.typeCount + 1 := by
  have hnew : data ∉ t.types.values := by
    intro hmem
    obtain ⟨n, hn⟩ := List.mem_iff_getElem?.1 hmem
    exact h ⟨n⟩ hn
  constructor
  · rw [intern, Pool.numberOf, Pool.find?_eq_none_iff.2 hnew, Option.getD_none]
    rfl
  · rw [typeCount, intern, Pool.size_add, if_neg hnew]
    rfl

namespace Denotes

variable {t u : TypeTable} {d e : FieldDescriptor} {id id' : TypeId}

/-- **What a number stands for never changes.** -/
theorem growsTo (h : t.Denotes d id) (hgrows : t.GrowsTo u) : u.Denotes d id := by
  induction h with
  | primitive h => exact .primitive (hgrows.types h)
  | object h htext => exact .object (hgrows.types h) (hgrows.symbols htext)
  | array h _ ih => exact .array (hgrows.types h) ih

/-- **A type has one number only.** -/
theorem id_unique (hfiled : t.symbols.Filed) (h : t.Denotes d id) (h' : t.Denotes d id') :
    id = id' := by
  induction h generalizing id' with
  | primitive h =>
      obtain ⟨h'⟩ := h'
      exact lookup?_inj h h'
  | object h htext =>
      obtain _ | ⟨h', htext'⟩ := h'
      rw [hfiled.text?_inj htext htext'] at h
      exact lookup?_inj h h'
  | array h _ ih =>
      obtain _ | _ | ⟨h', helement'⟩ := h'
      rw [ih helement'] at h
      exact lookup?_inj h h'

/-- **A number stands for one type only.** -/
theorem type_unique (h : t.Denotes d id) (h' : t.Denotes e id) : d = e := by
  induction h generalizing e with
  | primitive h =>
      cases h' with
      | primitive h' =>
          rw [h] at h'
          cases h'
          rfl
      | object h' => simp [h] at h'
      | array h' => simp [h] at h'
  | @object name a _ h htext =>
      cases h' with
      | primitive h' => simp [h] at h'
      | array h' => simp [h] at h'
      | @object name' a' _ h' htext' =>
          rw [h] at h'
          cases h'
          rw [htext, Option.some.injEq] at htext'
          have hname : name = name' := by simpa using htext'
          rw [hname]
  | array h _ ih =>
      cases h' with
      | primitive h' => simp [h] at h'
      | object h' => simp [h] at h'
      | array h' helement' =>
          rw [h] at h'
          cases h'
          cases ih helement'
          rfl

/-- The number of a type that was asked for was given out. -/
theorem lt_typeCount (h : t.Denotes d id) : id.val < t.typeCount := by
  cases h with
  | primitive h => exact lt_typeCount_of_lookup? h
  | object h => exact lt_typeCount_of_lookup? h
  | array h => exact lt_typeCount_of_lookup? h

/-- Below an array type all types with fewer dimensions have numbers. -/
theorem exists_of_le (h : t.Denotes d id) {k : Nat} (hk : k ≤ d.dimensions) :
    ∃ below, t.Denotes ⟨k, d.base⟩ below := by
  induction h with
  | primitive h =>
      obtain rfl := Nat.le_zero.1 hk
      exact ⟨_, .primitive h⟩
  | object h htext =>
      obtain rfl := Nat.le_zero.1 hk
      exact ⟨_, .object h htext⟩
  | array h helement ih =>
      rcases Nat.le_succ_iff.1 hk with hk | rfl
      · exact ih hk
      · exact ⟨_, .array h helement⟩

/-- An array type has fewer dimensions than there are types: each dimension below it is a type of
its own. -/
theorem dimensions_lt (h : t.Denotes d id) : d.dimensions < t.typeCount := by
  choose below hbelow using fun k : Fin (d.dimensions + 1) =>
    h.exists_of_le (Nat.le_of_lt_succ k.isLt)
  have hinj : Function.Injective fun k => (⟨(below k).val, (hbelow k).lt_typeCount⟩ :
      Fin t.typeCount) := by
    intro k l hkl
    have hid : below k = below l := congrArg TypeId.mk (Fin.mk.inj hkl)
    have htype := (hbelow k).type_unique (hid ▸ hbelow l)
    exact Fin.ext (FieldDescriptor.mk.inj htype).1
  have hcard := Fintype.card_le_of_injective _ hinj
  rw [Fintype.card_fin, Fintype.card_fin] at hcard
  exact hcard

end Denotes

/-! ### Reading numbers back -/

/-- What lies under the array layers of a type is its base type. -/
def IsLeaf (t : TypeTable) : BaseType → TypeLeaf → Prop
  | .primitive p, leaf => leaf = .primitive p
  | .object name, leaf => ∃ a, leaf = .named a ∧ t.symbols.text? a = some ("L" ++ name ++ ";")

/-- Each dimension of an array type is one step of taking it apart. -/
theorem Denotes.exists_unwrap {t : TypeTable} {d : FieldDescriptor} {id : TypeId}
    (h : t.Denotes d id) {steps : Nat} (hsteps : d.dimensions < steps) :
    ∃ leaf, t.IsLeaf d.base leaf ∧ t.unwrap steps id = some ⟨d.dimensions, leaf⟩ := by
  induction h generalizing steps with
  | @primitive p _ h =>
      obtain ⟨steps, rfl⟩ := Nat.exists_eq_add_of_lt hsteps
      exact ⟨.primitive p, rfl, by rw [unwrap, h]⟩
  | @object _ a _ h htext =>
      obtain ⟨steps, rfl⟩ := Nat.exists_eq_add_of_lt hsteps
      exact ⟨.named a, ⟨a, rfl, htext⟩, by rw [unwrap, h]⟩
  | array h _ ih =>
      obtain ⟨steps, rfl⟩ := Nat.exists_eq_succ_of_ne_zero (Nat.ne_zero_of_lt hsteps)
      obtain ⟨leaf, hleaf, hunwrap⟩ := ih (Nat.lt_of_succ_lt_succ hsteps)
      refine ⟨leaf, hleaf, ?_⟩
      rw [unwrap_succ_of_array h, hunwrap]
      rfl

/-- **A number reads back as the text of its type.** -/
theorem Denotes.descriptor?_eq {t : TypeTable} {d : FieldDescriptor} {id : TypeId}
    (h : t.Denotes d id) : t.descriptor? id = some (String.ofList d.render) := by
  obtain ⟨leaf, hleaf, hunwrap⟩ := h.exists_unwrap (Nat.lt_succ_of_lt h.dimensions_lt)
  have hshape : t.shape? id = some ⟨d.dimensions, leaf⟩ := hunwrap
  obtain ⟨n, base⟩ := d
  rw [descriptor?, hshape, FieldDescriptor.render, String.ofList_append]
  cases base with
  | primitive p =>
      obtain rfl := hleaf
      rfl
  | object name =>
      obtain ⟨a, rfl, htext⟩ := hleaf
      have hrender : String.ofList (BaseType.object name).render = "L" ++ name ++ ";" := by
        rw [← String.toList_inj]
        simp [BaseType.render]
      have hleafText : t.leafDescriptor (.named a) = "L" ++ name ++ ";" := by
        rw [leafDescriptor, SymbolTable.text, htext, Option.getD_some]
      rw [hrender, ← hleafText]
      rfl

/-! ### What is asked for by its text -/

/-- Each dimension of an array type is one type that is asked for. -/
theorem denotes_arraysOf {t : TypeTable} {m : Nat} {base : BaseType} {id : TypeId}
    (hfiled : t.symbols.Filed) (h : t.Denotes ⟨m, base⟩ id) (n : Nat) :
    (arraysOf n id t).2.Denotes ⟨m + n, base⟩ (arraysOf n id t).1 := by
  induction n generalizing t m id with
  | zero => exact h
  | succ n ih =>
      obtain ⟨hfiled', hgrows⟩ := enlarges_arrayOf id t hfiled
      have harray : (arrayOf id t).2.Denotes ⟨m + 1, base⟩ (arrayOf id t).1 :=
        .array (lookup?_intern t (.array id)) (h.growsTo hgrows)
      have hrest := ih hfiled' harray
      rw [Nat.add_right_comm] at hrest
      exact hrest

/-- A class that is asked for by its name is known by its name. -/
theorem denotes_classNamed {t : TypeTable} (hfiled : t.symbols.Filed) (name : String) :
    (classNamed name t).2.Denotes ⟨0, .object name⟩ (classNamed name t).1 := by
  have hlookup := lookup?_intern (internText ("L" ++ name ++ ";") t).2
    (.named (internText ("L" ++ name ++ ";") t).1)
  exact .object hlookup (hfiled.text?_intern_self ("L" ++ name ++ ";"))

/-- **A descriptor's number stands for the type that it describes.** -/
theorem denotes_internField {t : TypeTable} (h : t.Founded) (d : FieldDescriptor) :
    (internField d t).2.Denotes d (internField d t).1 := by
  obtain ⟨n, base⟩ := d
  cases base with
  | primitive p =>
      have harrays := denotes_arraysOf h.filed (.primitive (h.primitive p)) n
      rw [Nat.zero_add] at harrays
      exact harrays
  | object name =>
      have hfiled := (enlarges_classNamed name t h.filed).1
      have harrays := denotes_arraysOf hfiled (denotes_classNamed h.filed name) n
      rw [Nat.zero_add] at harrays
      exact harrays

/-- A text that is accepted as a field type is asked for by the type that it describes. -/
theorem internDescriptor_of_ofString {text : String} {d : FieldDescriptor}
    (h : FieldDescriptor.ofString text = .ok d) (t : TypeTable) :
    internDescriptor text t = (.ok (internField d t).1, (internField d t).2) := by
  rw [internDescriptor, h]
  rfl

/-- A call for a type that finds room is answered. -/
theorem call_descriptor {text : String} {d : FieldDescriptor} {t : TypeTable}
    (h : FieldDescriptor.ofString text = .ok d) (hroom : t.symbols.Admits (fieldTexts d)) :
    call (.descriptor text) t = .ok (.ok (internField d t).1, (internField d t).2) := by
  refine call_eq_ok_iff.2 ⟨?_, (internDescriptor_of_ofString h t).symm⟩
  rw [Request.texts, descriptorTexts, h]
  exact hroom

/-- A call for a type is answered with the number of the type that its text describes. -/
theorem eq_of_call_descriptor {text : String} {d : FieldDescriptor} {t u : TypeTable} {id : TypeId}
    (h : FieldDescriptor.ofString text = .ok d)
    (hcall : call (.descriptor text) t = .ok (.ok id, u)) :
    id = (internField d t).1 ∧ u = (internField d t).2 := by
  obtain ⟨-, heq⟩ := call_eq_ok_iff.1 hcall
  rw [serve, internDescriptor_of_ofString h] at heq
  obtain ⟨hid, hu⟩ := Prod.mk.inj heq
  exact ⟨Except.ok.inj hid, hu⟩

/-- A call for a type whose class finds its shard full is not answered. -/
theorem call_descriptor_of_full {text s : String} {d : FieldDescriptor} {t : TypeTable}
    (h : FieldDescriptor.ofString text = .ok d) (hfits : t.symbols.Fits) (hs : s ∈ fieldTexts d)
    (hfull : ¬ t.symbols.HasRoom s) :
    call (.descriptor text) t = .error ⟨t.symbols.shardOf s, Symbol.placeCount⟩ := by
  have htexts : Request.texts (.descriptor text) = [s] := by
    rw [Request.texts, descriptorTexts, h]
    obtain ⟨n, p | name⟩ := d
    · cases hs
    · obtain rfl := List.mem_singleton.1 hs
      rfl
  rw [call, htexts, hfits.internAll?_eq_error hfull]
  rfl

/-- **Two descriptors that are asked for at different times** get one number exactly if they are
equal. -/
theorem Founded.internField_eq_iff {t u : TypeTable} (ht : t.Founded) (hu : u.Founded)
    {d e : FieldDescriptor} (hgrows : (internField d t).2.GrowsTo u) :
    (internField d t).1 = (internField e u).1 ↔ d = e := by
  have hd := ((denotes_internField ht d).growsTo hgrows).growsTo
    (enlarges_internField e u hu.filed).2
  have he := denotes_internField hu e
  constructor
  · intro heq
    rw [heq] at hd
    exact hd.type_unique he
  · rintro rfl
    exact hd.id_unique (hu.enlarge (enlarges_internField d)).filed he

/-! ### Every run -/

/-- The primitive types have the numbers up to 8, each the number meant for it, and no others do. -/
theorem Founded.lookup?_eq_primitive_iff {t : TypeTable} (h : t.Founded) {id : TypeId}
    {p : Primitive} : t.lookup? id = some (.primitive p) ↔ id = p.typeId := by
  constructor
  · intro hid
    exact lookup?_inj hid (h.primitive p)
  · rintro rfl
    exact h.primitive p

/-- The numbers up to 8 are those of the primitive types. -/
theorem val_le_iff {id : TypeId} : id.val ≤ 8 ↔ ∃ p : Primitive, id = p.typeId := by
  have hall : ∀ n < 9, ∃ p ∈ Primitive.all, n = p.index := by decide
  constructor
  · intro h
    obtain ⟨p, -, hp⟩ := hall id.val (Nat.lt_succ_of_le h)
    exact ⟨p, congrArg TypeId.mk hp⟩
  · rintro ⟨p, rfl⟩
    cases p <;> decide

/-- **Numbers and types.** In every table that a run of calls has led to, as long as these have
returned:

* a number stands for a type exactly if asking for the type gives this number and adds no type;
* the numbers given out are those below the number of types, a new type gets the next one, and what
  a number stands for never changes;
* the numbers up to 8 stand for the primitive types, each for the one it is meant for, no other
  number does so, and number 9 stands for `java.lang.Object`;
* a text that writes the type of a field has a number, which reads back as the text from then on,
  unless the text of its class finds its shard full: then the call does not return;
* two such texts that are asked for at any two times have one number exactly if they are equal;
* symbols are numbers of 32 bits, and so are those of types, as long as there are no more types than
  that. -/
theorem identifies_types {shardOf : String → Fin Symbol.shardCount} {past : List Request}
    {t : TypeTable} (ht : (freshWith shardOf).calls past = .ok t) :
    (∀ (id : TypeId) (data : TypeData), t.lookup? id = some data ↔
      ∃ u, call (.type data) t = .ok (id, u) ∧ u.typeCount = t.typeCount) ∧
    (∀ id : TypeId, (t.lookup? id).isSome ↔ id.val < t.typeCount) ∧
    (∀ data : TypeData, (∀ id, t.lookup? id ≠ some data) →
      ∃ u, call (.type data) t = .ok (⟨t.typeCount⟩, u) ∧ u.typeCount = t.typeCount + 1) ∧
    (∀ (id : TypeId) (data : TypeData) (later : List Request) (u : TypeTable),
      t.calls later = .ok u → t.lookup? id = some data → u.lookup? id = some data) ∧
    (∀ (id : TypeId) (p : Primitive), t.lookup? id = some (.primitive p) ↔ id = p.typeId) ∧
    (∀ id : TypeId, id.val ≤ 8 ↔ ∃ p, t.lookup? id = some (.primitive p)) ∧
    (∃ a, t.lookup? ⟨9⟩ = some (.named a) ∧ t.symbols.text? a = some "Ljava/lang/Object;") ∧
    (∀ (text : String) (d : FieldDescriptor), d.IsFieldType → text = String.ofList d.render →
      (∃ id u, call (.descriptor text) t = .ok (.ok id, u) ∧
        ∀ later v, u.calls later = .ok v → v.descriptor? id = some text) ∨
      ∃ s ∈ fieldTexts d, ¬ t.symbols.HasRoom s ∧
        call (.descriptor text) t = .error ⟨t.symbols.shardOf s, Symbol.placeCount⟩) ∧
    (∀ (text text' : String) (d d' : FieldDescriptor) (later : List Request) (id id' : TypeId)
      (u v v' : TypeTable), d.IsFieldType → text = String.ofList d.render →
      d'.IsFieldType → text' = String.ofList d'.render →
      call (.descriptor text) t = .ok (.ok id, u) → u.calls later = .ok v →
      call (.descriptor text') v = .ok (.ok id', v') → (id = id' ↔ text = text')) ∧
    (∀ (a : Symbol) (s : String), t.symbols.text? a = some s → a.raw < UInt32.size) ∧
    (t.typeCount ≤ UInt32.size → ∀ id : TypeId, (t.lookup? id).isSome → id.val < UInt32.size) := by
  have hfounded := founded_of_calls ht
  have hfits := fits_of_calls ht
  refine ⟨fun id data => ?_, fun _ => isSome_lookup?_iff, fun data hnew => ?_,
    fun id data later u hu => (hfounded.calls hu).2.types,
    fun _ _ => hfounded.lookup?_eq_primitive_iff, fun id => ?_, hfounded.object,
    fun text d hd htext => ?_,
    fun text text' d d' later id id' u v v' hd htext hd' htext' hcall hcalls hcall' => ?_,
    fun a s => hfits.raw_lt, fun hcount id hid => ?_⟩
  · rw [lookup?_eq_some_iff_intern]
    constructor
    · rintro ⟨rfl, hcount⟩
      exact ⟨_, rfl, hcount⟩
    · rintro ⟨u, hcall, hcount⟩
      obtain ⟨-, heq⟩ := call_eq_ok_iff.1 hcall
      obtain ⟨rfl, rfl⟩ := Prod.mk.inj heq
      exact ⟨rfl, hcount⟩
  · obtain ⟨hid, hcount⟩ := intern_of_new hnew
    exact ⟨_, congrArg Except.ok (Prod.ext hid rfl), hcount⟩
  · simp only [hfounded.lookup?_eq_primitive_iff, val_le_iff]
  · have hread := FieldDescriptor.ofString_eq_ok_iff_render.2 ⟨htext, hd⟩
    by_cases hroom : ∀ s ∈ fieldTexts d, t.symbols.HasRoom s
    · have hcall := call_descriptor hread (admits_fieldTexts_iff.2 hroom)
      refine .inl ⟨_, _, hcall, fun later v hv => ?_⟩
      have hu := hfounded.call hcall
      rw [((denotes_internField hfounded d).growsTo (hu.1.calls hv).2).descriptor?_eq, htext]
    · simp only [not_forall] at hroom
      obtain ⟨s, hs, hfull⟩ := hroom
      exact .inr ⟨s, hs, hfull, call_descriptor_of_full hread hfits hs hfull⟩
  · have hread := FieldDescriptor.ofString_eq_ok_iff_render.2 ⟨htext, hd⟩
    have hread' := FieldDescriptor.ofString_eq_ok_iff_render.2 ⟨htext', hd'⟩
    obtain ⟨hu, -⟩ := hfounded.call hcall
    obtain ⟨hv, hgrows⟩ := hu.calls hcalls
    obtain ⟨rfl, rfl⟩ := eq_of_call_descriptor hread hcall
    obtain ⟨rfl, -⟩ := eq_of_call_descriptor hread' hcall'
    rw [hfounded.internField_eq_iff hv hgrows, FieldDescriptor.ofString_inj hread hread']
  · exact Nat.lt_of_lt_of_le (isSome_lookup?_iff.1 hid) hcount

/-! ### Numbers used ahead of time -/

/-- An array type over a number that is given out later on, and a class under a symbol that is not.
-/
def aheadRun : List Request :=
  [.arrayOf ⟨15⟩, .type (.named ⟨4242⟩), .classNamed "p/A", .descriptor "[[", .proto ⟨[⟨16⟩], ⟨99⟩⟩]

/-- The table after this run, with all texts in one shard. -/
def ahead : TypeTable := (freshWith SymbolTable.crowded).after aheadRun

/-- The array type that was asked for ahead of time is the one that its text writes, then and ever
after, and no other text gets its number. -/
theorem identifies_types_ahead :
    (freshWith SymbolTable.crowded).calls aheadRun = .ok ahead ∧
    ahead.lookup? ⟨13⟩ = some (.array ⟨15⟩) ∧
    (∃ u, call (.type (.array ⟨99⟩)) ahead = .ok (⟨ahead.typeCount⟩, u)) ∧
    (∀ id : TypeId, (ahead.lookup? id).isSome → id.val < UInt32.size) ∧
    ∃ u, call (.descriptor "[Lp/A;") ahead = .ok (.ok ⟨13⟩, u) ∧
      ∀ later v, u.calls later = .ok v → v.lookup? ⟨13⟩ = some (.array ⟨15⟩) ∧
        v.descriptor? ⟨13⟩ = some "[Lp/A;" ∧
        ∀ id v', call (.descriptor "[[Lp/A;") v = .ok (.ok id, v') → ⟨13⟩ ≠ id := by
  have hcalls : (freshWith SymbolTable.crowded).calls aheadRun = .ok ahead :=
    calls_eq_ok_iff.2 ⟨by decide +kernel, rfl⟩
  obtain ⟨-, -, hnew, hlater, -, -, -, hread, hsame, -, hbits⟩ := identifies_types hcalls
  have harray : ahead.lookup? ⟨13⟩ = some (.array ⟨15⟩) := by decide +kernel
  have hnone : ∀ id, ahead.lookup? id ≠ some (.array ⟨99⟩) := by
    have hmem : .array ⟨99⟩ ∉ ahead.types.values := by decide +kernel
    exact fun id hid => hmem (List.mem_of_getElem? hid)
  have hd : FieldDescriptor.IsFieldType ⟨1, .object "p/A"⟩ := by decide
  have hd' : FieldDescriptor.IsFieldType ⟨2, .object "p/A"⟩ := by decide
  have hcount : ahead.typeCount ≤ UInt32.size := by decide +kernel
  have hroom : ∀ s ∈ fieldTexts ⟨1, .object "p/A"⟩, ahead.symbols.HasRoom s := by decide +kernel
  obtain ⟨u, hu, -⟩ := hnew _ hnone
  obtain ⟨id, v, hcall, hback⟩ | ⟨s, hs, hfull, -⟩ := hread "[Lp/A;" _ hd (by decide)
  · obtain rfl : id = ⟨13⟩ := by
      obtain ⟨rfl, -⟩ := eq_of_call_descriptor
        (FieldDescriptor.ofString_eq_ok_iff_render.2 ⟨by decide, hd⟩) hcall
      decide +kernel
    refine ⟨hcalls, harray, ⟨u, hu⟩, hbits hcount, v, hcall, fun later v' hv' => ⟨?_, ?_, ?_⟩⟩
    · exact hlater _ _ (.descriptor "[Lp/A;" :: later) _
        (calls_cons_eq_ok_iff.2 ⟨_, hcall, hv'⟩) harray
    · exact hback later v' hv'
    · intro id v'' hcall'
      rw [Ne, hsame "[Lp/A;" "[[Lp/A;" _ _ later _ _ _ _ _ hd (by decide) hd' (by decide) hcall hv'
        hcall']
      decide
  · exact absurd (hroom s hs) hfull

/-! ### A class that is not answered -/

/-- **A class whose shard is full has no number**, however few types there are. And while a number
always stands for the same array type, what it reads back as is settled only once the number below
it is given out. -/
theorem not_identifies_types :
    ((freshWith SymbolTable.crowded).calls (crowdingRun crowdingCount) =
        .ok (crowdedOut crowdingCount) ∧
      (crowdedOut crowdingCount).typeCount < UInt32.size ∧
      FieldDescriptor.IsFieldType ⟨0, .object "p/A"⟩ ∧
      "Lp/A;" = String.ofList (FieldDescriptor.render ⟨0, .object "p/A"⟩) ∧
      call (.descriptor "Lp/A;") (crowdedOut crowdingCount) =
        .error ⟨crowdedShard, Symbol.placeCount⟩) ∧
    ∃ u v, (freshWith SymbolTable.crowded).calls [.arrayOf ⟨14⟩] = .ok u ∧
      u.calls [.classNamed "p/A"] = .ok v ∧ u.descriptor? ⟨13⟩ = some "[?" ∧
      v.descriptor? ⟨13⟩ = some "[Lp/A;" := by
  have hcount : (crowdedOut crowdingCount).typeCount < UInt32.size :=
    (typeCount_crowdedOut_le crowdingCount).trans_lt (by decide)
  have htexts : Request.texts (.descriptor "Lp/A;") = ["Lp/A;"] := by decide +kernel
  exact ⟨⟨calls_crowdingRun (Nat.le_of_eq builtInTexts_add_crowdingCount), hcount, by decide,
      by decide, call_eq_error htexts internAll?_crowdedOut⟩, _, _,
    calls_eq_ok_iff.2 ⟨by decide +kernel, rfl⟩, calls_eq_ok_iff.2 ⟨by decide +kernel, rfl⟩,
    by decide +kernel, by decide +kernel⟩

end TypeTable

end Linkage
