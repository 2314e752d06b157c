import Linkage.Proofs.ElementChains

/-!
# Where Writing Ends

Which requests leave a table whose types can all be written. A request adds types one after the
other, each under the next free number. An array type over the number of a type that a descriptor
describes, or over any number that leads to known types only, ends if its element does. That leaves
the array types that are asked for over a number of the caller's choice: such a number may lead to
the very number that is free, and then the array type is its own element.

The properties that all other requests keep are treated together: `Stable` says what it takes, and
`keeps_serve` goes through the requests once.

## Main definitions

* `ClosedBy`: a request makes an array type its own element.
* `Unclosed`: no request of a run does.
* `OverKnown`: a run uses no number before it is given out.

## Main results

* `ends_serve`, `ClosedBy.exists_selfElement`: what one request does.
* `ends_after_iff`: what a run does.
* `writing_ends_iff`: every run of a new table.
-/

namespace Linkage

namespace TypeTable

variable {t u : TypeTable} {id element : TypeId}

/-! ### What requests do to chains -/

/-- An array type has the element type that it is asked for with, and no others are changed. -/
theorem elementType?_intern_eq_some_iff {data : TypeData} :
    (intern data t).2.elementType? id = some element ↔
      t.elementType? id = some element ∨ id = (intern data t).1 ∧ data = .array element := by
  rw [elementType?_eq_some_iff, elementType?_eq_some_iff]
  refine Pool.get?_add_eq_some_iff.trans (or_congr_right (and_congr ?_ eq_comm))
  exact ⟨congrArg TypeId.mk, congrArg TypeId.val⟩

/-- What ends goes on ending where no element type is new. -/
theorem Ends.congr (h : t.Ends id) (heq : u.types = t.types) : u.Ends id := by
  have hsame : ∀ id, u.elementType? id = t.elementType? id := by
    intro id
    rw [elementType?, elementType?, lookup?, lookup?, heq]
  induction h with
  | leaf h => exact .leaf ((hsame _).trans h)
  | array h _ ih => exact .array ((hsame _).trans h) ih

/-- What does not lead to a number ends as before when that number is given out. -/
theorem Ends.intern_of_not_leadsTo {data : TypeData} (h : t.Ends id)
    (hleads : ¬ t.LeadsTo id (intern data t).1) : (intern data t).2.Ends id := by
  induction h with
  | @leaf id h =>
      refine .leaf (Option.eq_none_iff_forall_ne_some.2 fun element helement => ?_)
      rcases elementType?_intern_eq_some_iff.1 helement with hold | ⟨rfl, -⟩
      · rw [h] at hold
        cases hold
      · exact hleads .refl
  | array h _ ih =>
      exact .array (elementType?_intern_eq_some_iff.2 (.inl h)) (ih fun hl => hleads (.head h hl))

/-- **All types go on ending** when one is added whose own elements do not lead to its number. -/
theorem Ends.intern {data : TypeData} (h : t.Ends id) (hall : ∀ id, t.Ends id)
    (hdata : ∀ element, data = .array element → ¬ t.LeadsTo element (intern data t).1) :
    (intern data t).2.Ends id := by
  -- the number that is given out comes first: all others end there, or where they ended before
  have hnew : t.elementType? (TypeTable.intern data t).1 = none →
      (TypeTable.intern data t).2.Ends (TypeTable.intern data t).1 := by
    intro hnone
    cases hstep : (TypeTable.intern data t).2.elementType? (TypeTable.intern data t).1 with
    | none => exact .leaf hstep
    | some element =>
        rcases elementType?_intern_eq_some_iff.1 hstep with hold | ⟨-, hdata'⟩
        · rw [hnone] at hold
          cases hold
        · exact .array hstep ((hall element).intern_of_not_leadsTo (hdata element hdata'))
  induction h with
  | @leaf id h =>
      cases hstep : (TypeTable.intern data t).2.elementType? id with
      | none => exact .leaf hstep
      | some element =>
          rcases elementType?_intern_eq_some_iff.1 hstep with hold | ⟨rfl, -⟩
          · rw [h] at hold
            cases hold
          · exact hnew h
  | array h _ ih => exact .array (elementType?_intern_eq_some_iff.2 (.inl h)) ih

/-- A request for an array type over a number whose elements lead to the number that the array type
gets. -/
def ClosedBy (t : TypeTable) (r : Request) : Prop :=
  ∃ element, (r = .arrayOf element ∨ r = .type (.array element)) ∧
    t.LeadsTo element (arrayOf element t).1

/-- What leads to a number goes on doing so. -/
theorem LeadsTo.growsTo {below : TypeId} (h : t.LeadsTo id below) (hgrows : t.GrowsTo u) :
    u.LeadsTo id below :=
  Relation.ReflTransGen.mono (fun _ _ hstep =>
    elementType?_eq_some_iff.2 (hgrows.types (elementType?_eq_some_iff.1 hstep))) _ _ h

/-- A type that is its own element stays so. -/
theorem SelfElement.growsTo (h : t.SelfElement id) (hgrows : t.GrowsTo u) : u.SelfElement id :=
  Relation.TransGen.mono (fun _ _ hstep =>
    elementType?_eq_some_iff.2 (hgrows.types (elementType?_eq_some_iff.1 hstep))) _ _ h

/-- **A request that closes a cycle** leaves an array type that is its own element. -/
theorem ClosedBy.exists_selfElement {r : Request} (hfiled : t.symbols.Filed) (h : t.ClosedBy r) :
    ∃ id, (serve r t).2.SelfElement id := by
  obtain ⟨element, hr, hleads⟩ := h
  have hstep : (arrayOf element t).2.elementType? (arrayOf element t).1 = some element :=
    elementType?_eq_some_iff.2 (lookup?_intern t (.array element))
  refine ⟨(arrayOf element t).1, ?_⟩
  have hself : (arrayOf element t).2.SelfElement (arrayOf element t).1 :=
    Relation.TransGen.head' hstep (hleads.growsTo (enlarges_arrayOf element t hfiled).2)
  rcases hr with rfl | rfl
  · exact hself
  · exact hself

/-! ### What all other requests keep -/

/-- The texts of a table are in their shards, and the primitive types have the numbers meant for
them. -/
structure Based (t : TypeTable) : Prop where
  filed : t.symbols.Filed
  primitive : ∀ p : Primitive, t.lookup? p.typeId = some (.primitive p)

/-- A property of tables that only depends on the types, and is kept when a type is added that is
not an array type, or an array type over a type that a descriptor describes. -/
structure Stable (P : TypeTable → Prop) : Prop where
  congr : ∀ {t u : TypeTable}, u.types = t.types → P t → P u
  intern : ∀ {t : TypeTable} {data : TypeData}, (∀ element, data ≠ .array element) → P t →
    P (intern data t).2
  arrayOf : ∀ {t : TypeTable} {d : FieldDescriptor} {element : TypeId}, t.Denotes d element → P t →
    P (arrayOf element t).2

/-- A computation forgets nothing, and keeps a property of tables. -/
structure Keeps {α : Type} (P : TypeTable → Prop) (x : Interning α) : Prop where
  enlarges : Enlarges x
  keeps : ∀ {t : TypeTable}, t.Based → P t → P (x t).2

/-- What forgets nothing leaves the texts and the primitive types where they are. -/
theorem Based.enlarge {α : Type} {x : Interning α} (h : t.Based) (hx : Enlarges x) :
    (x t).2.Based :=
  ⟨(hx t h.filed).1, fun p => (hx t h.filed).2.types (h.primitive p)⟩

section Keeps

variable {α β : Type} {P : TypeTable → Prop}

/-- An answer that is at hand keeps every property. -/
theorem keeps_pure (a : α) : Keeps P (pure a) := ⟨enlarges_pure a, fun _ h => h⟩

/-- **One computation after the other** keeps a property, if both do. -/
theorem Keeps.bind {x : Interning α} {f : α → Interning β} (hx : Keeps P x)
    (hf : ∀ a, Keeps P (f a)) : Keeps P (x >>= f) where
  enlarges := hx.enlarges.bind fun a => (hf a).enlarges
  keeps hbased h := (hf _).keeps (hbased.enlarge hx.enlarges) (hx.keeps hbased h)

/-- Computations for each of several things keep a property, if each of them does. -/
theorem keeps_mapM {f : α → Interning β} (hf : ∀ a, Keeps P (f a)) (as : List α) :
    Keeps P (as.mapM f) := by
  induction as with
  | nil => exact keeps_pure []
  | cons a as ih =>
      rw [List.mapM_cons]
      exact (hf a).bind fun b => ih.bind fun bs => keeps_pure (b :: bs)

variable (hP : Stable P)

include hP

/-- Filing a text keeps such a property. -/
theorem keeps_internText (s : String) : Keeps P (internText s) :=
  ⟨enlarges_internText s, fun {t} _ h => hP.congr (t := t) (by rfl) h⟩

/-- Asking for a prototype keeps such a property. -/
theorem keeps_internProto (p : Proto) : Keeps P (internProto p) :=
  ⟨enlarges_internProto p, fun {t} _ h => hP.congr (t := t) (by rfl) h⟩

/-- Asking for a type that is no array type keeps such a property. -/
theorem keeps_intern {data : TypeData} (hdata : ∀ element, data ≠ .array element) :
    Keeps P (intern data) :=
  ⟨enlarges_intern data, fun _ h => hP.intern hdata h⟩

/-- Asking for a class by its name keeps such a property. -/
theorem keeps_classNamed (name : String) : Keeps P (classNamed name) :=
  (keeps_internText hP _).bind fun _ => keeps_intern hP nofun

/-- Arrays over a type that is described keep the property, one dimension after the other. -/
theorem keeps_arraysOf {m : Nat} {base : BaseType} (n : Nat) (hbased : t.Based)
    (hid : t.Denotes ⟨m, base⟩ id) (h : P t) : P (arraysOf n id t).2 := by
  induction n generalizing t m id with
  | zero => exact h
  | succ n ih =>
      have hgrows := (enlarges_arrayOf id t hbased.filed).2
      exact ih (hbased.enlarge (enlarges_arrayOf id))
        (.array (lookup?_intern t (.array id)) (hid.growsTo hgrows)) (hP.arrayOf hid h)

/-- Asking for the type of a field keeps such a property. -/
theorem keeps_internField (d : FieldDescriptor) : Keeps P (internField d) := by
  refine ⟨enlarges_internField d, fun {t} hbased h => ?_⟩
  obtain ⟨n, base⟩ := d
  cases base with
  | primitive p => exact keeps_arraysOf hP n hbased (.primitive (hbased.primitive p)) h
  | object name =>
      exact keeps_arraysOf hP n (hbased.enlarge (enlarges_classNamed name))
        (denotes_classNamed hbased.filed name) ((keeps_classNamed hP name).keeps hbased h)

/-- Asking for the prototype of a method keeps such a property. -/
theorem keeps_internMethod (d : MethodDescriptor) : Keeps P (internMethod d) :=
  (keeps_internField hP d.ret).bind fun ret =>
    (keeps_mapM (keeps_internField hP) d.params).bind fun params =>
      keeps_internProto hP ⟨params, ret⟩

/-- Asking for a type by its text keeps such a property. -/
theorem keeps_internDescriptor (s : String) : Keeps P (internDescriptor s) := by
  rw [internDescriptor]
  cases FieldDescriptor.ofString s with
  | error e => exact keeps_pure _
  | ok d => exact (keeps_internField hP d).bind fun _ => keeps_pure _

/-- Asking for a prototype by its text keeps such a property. -/
theorem keeps_internProtoDescriptor (s : String) : Keeps P (internProtoDescriptor s) := by
  rw [internProtoDescriptor]
  cases MethodDescriptor.ofString s with
  | error e => exact keeps_pure _
  | ok d => exact (keeps_internMethod hP d).bind fun _ => keeps_pure _

/-- Asking for the signature of a method keeps such a property. -/
theorem keeps_methodSig (name s : String) : Keeps P (methodSig name s) :=
  (keeps_internText hP name).bind fun _ =>
    (keeps_internProtoDescriptor hP s).bind fun _ => keeps_pure _

/-- Asking for the signature of a field keeps such a property. -/
theorem keeps_fieldSig (name s : String) : Keeps P (fieldSig name s) :=
  (keeps_internText hP name).bind fun _ =>
    (keeps_internDescriptor hP s).bind fun _ => keeps_pure _

/-- **A request keeps a stable property**, unless it is one for an array type over a number of its
own choice that breaks it. -/
theorem keeps_serve (r : Request) (harray : ∀ element,
    r = .arrayOf element ∨ r = .type (.array element) → P t → P (arrayOf element t).2)
    (hbased : t.Based) (h : P t) : P (serve r t).2 := by
  cases r with
  | text s => exact (keeps_internText hP s).keeps hbased h
  | type data =>
      cases data with
      | primitive p =>
          have hdata : ∀ element, TypeData.primitive p ≠ .array element := nofun
          exact (keeps_intern hP hdata).keeps hbased h
      | named a =>
          have hdata : ∀ element, TypeData.named a ≠ .array element := nofun
          exact (keeps_intern hP hdata).keeps hbased h
      | array element => exact harray element (.inr rfl) h
  | classNamed name => exact (keeps_classNamed hP name).keeps hbased h
  | arrayOf element => exact harray element (.inl rfl) h
  | descriptor s => exact (keeps_internDescriptor hP s).keeps hbased h
  | proto p => exact (keeps_internProto hP p).keeps hbased h
  | protoDescriptor s => exact (keeps_internProtoDescriptor hP s).keeps hbased h
  | methodSig name s => exact (keeps_methodSig hP name s).keeps hbased h
  | fieldSig name s => exact (keeps_fieldSig hP name s).keeps hbased h

end Keeps

/-- All that a described type leads to is described. -/
theorem Denotes.of_leadsTo {d : FieldDescriptor} {below : TypeId} (h : t.Denotes d id)
    (hleads : t.LeadsTo id below) : ∃ d', t.Denotes d' below := by
  induction hleads with
  | refl => exact ⟨d, h⟩
  | tail _ hstep ih =>
      obtain ⟨d', hd'⟩ := ih
      rw [elementType?_eq_some_iff] at hstep
      cases hd' with
      | primitive h' => rw [hstep] at h'; cases h'
      | object h' => rw [hstep] at h'; cases h'
      | array h' helement =>
          rw [hstep] at h'
          cases h'
          exact ⟨_, helement⟩

/-- The number of an array type is new, or that of a type whose elements its element type is one of.
-/
theorem arrayOf_eq_or (t : TypeTable) (element : TypeId) :
    t.lookup? (arrayOf element t).1 = none ∨
      t.elementType? (arrayOf element t).1 = some element := by
  cases h : t.lookup? (arrayOf element t).1 with
  | none => exact .inl rfl
  | some data =>
      have hlater := lookup?_intern_of_lookup? (.array element) h
      have hself := lookup?_intern t (.array element)
      rw [arrayOf] at hlater h
      rw [hlater] at hself
      cases hself
      exact .inr (elementType?_eq_some_iff.2 h)

/-- **An array type closes no cycle** over a number that leads to known types only: the number that
it gets is either not known yet, or already that of the same array type. -/
theorem not_leadsTo_arrayOf (hall : ∀ id, t.Ends id)
    (hknown : ∀ below, t.LeadsTo element below → (t.lookup? below).isSome) :
    ¬ t.LeadsTo element (arrayOf element t).1 := by
  intro hleads
  rcases arrayOf_eq_or t element with hnone | hstep
  · have hsome := hknown _ hleads
    rw [hnone] at hsome
    cases hsome
  · exact (hall element).not_selfElement (Relation.TransGen.tail' hleads hstep)

/-- That all types end is kept. -/
theorem stable_ends : Stable fun t => ∀ id, t.Ends id where
  congr heq h id := (h id).congr heq
  intern hdata h id := (h id).intern h fun element heq => absurd heq (hdata element)
  arrayOf hd h id := by
    refine (h id).intern h fun element heq => ?_
    cases heq
    refine not_leadsTo_arrayOf h fun below hleads => ?_
    obtain ⟨d', hd'⟩ := hd.of_leadsTo hleads
    exact isSome_lookup?_iff.2 hd'.lt_typeCount

/-- Every array type is over a number that is given out. -/
def Grounded (t : TypeTable) : Prop :=
  ∀ id element, t.elementType? id = some element → element.val < t.typeCount

/-- Asking for a type takes no type away. -/
theorem typeCount_le_intern (t : TypeTable) (data : TypeData) :
    t.typeCount ≤ (intern data t).2.typeCount := by
  have hsize := Pool.size_add t.types data
  change t.types.size ≤ (t.types.add data).size
  split at hsize <;> omega

/-- An array type over a number that is given out changes nothing about this. -/
theorem Grounded.arrayOf (h : t.Grounded) (hknown : element.val < t.typeCount) :
    (arrayOf element t).2.Grounded := by
  intro id element' hstep
  refine Nat.lt_of_lt_of_le ?_ (typeCount_le_intern t (.array element))
  rcases elementType?_intern_eq_some_iff.1 hstep with hold | ⟨-, hdata⟩
  · exact h id element' hold
  · cases hdata
    exact hknown

/-- That all array types are over known ones is kept. -/
theorem stable_grounded : Stable Grounded where
  congr {t u} heq h id element hstep := by
    rw [elementType?, lookup?, heq] at hstep
    rw [typeCount, heq]
    exact h id element hstep
  intern {t data} hdata h id element hstep := by
    refine Nat.lt_of_lt_of_le ?_ (typeCount_le_intern t data)
    rcases elementType?_intern_eq_some_iff.1 hstep with hold | ⟨-, heq⟩
    · exact h id element hold
    · exact absurd heq (hdata element)
  arrayOf hd h := h.arrayOf hd.lt_typeCount

/-- Over grounded types all that is led to is known. -/
theorem Grounded.lt_typeCount_of_leadsTo {below : TypeId} (h : t.Grounded)
    (hid : id.val < t.typeCount) (hleads : t.LeadsTo id below) : below.val < t.typeCount := by
  induction hleads with
  | refl => exact hid
  | tail _ hstep _ => exact h _ _ hstep

/-! ### Runs -/

/-- No request of a run makes an array type its own element. -/
def Unclosed (t : TypeTable) (rs : List Request) : Prop :=
  ∀ before r later, rs = before ++ r :: later → ¬ (t.after before).ClosedBy r

/-- A run without requests makes nothing its own element. -/
theorem unclosed_nil (t : TypeTable) : t.Unclosed [] := by
  intro before r later h
  cases before <;> cases h

/-- A run makes nothing its own element if neither its first request nor the rest of it does. -/
theorem unclosed_cons {r : Request} {rs : List Request} :
    t.Unclosed (r :: rs) ↔ ¬ t.ClosedBy r ∧ (serve r t).2.Unclosed rs := by
  constructor
  · intro h
    exact ⟨h [] r rs rfl, fun before r' later heq => h (r :: before) r' later (congrArg _ heq)⟩
  · rintro ⟨hr, hrs⟩ before r' later heq
    cases before with
    | nil =>
        cases heq
        exact hr
    | cons r'' before =>
        cases heq
        exact hrs before r' later rfl

/-- A request that closes no cycle leaves all types ending. -/
theorem ends_serve {r : Request} (hbased : t.Based) (hall : ∀ id, t.Ends id)
    (hr : ¬ t.ClosedBy r) : ∀ id, (serve r t).2.Ends id :=
  keeps_serve stable_ends r (fun element heq h id => (h id).intern h fun element' hdata => by
    cases hdata
    exact fun hleads => hr ⟨element, heq, hleads⟩) hbased hall

/-- **In the course of a run all types end** until the first request that closes a cycle, and not
after that. -/
theorem ends_after_iff (hbased : t.Based) (hall : ∀ id, t.Ends id) (rs : List Request) :
    (∀ id, (t.after rs).Ends id) ↔ t.Unclosed rs := by
  induction rs generalizing t with
  | nil => exact ⟨fun _ => unclosed_nil t, fun _ => hall⟩
  | cons r rs ih =>
      rw [unclosed_cons]
      by_cases hr : t.ClosedBy r
      · obtain ⟨id, hself⟩ := hr.exists_selfElement hbased.filed
        have hfiled := (enlarges_serve r t hbased.filed).1
        have hlater := hself.growsTo (growsTo_after hfiled rs).2
        exact ⟨fun h => absurd hlater (h id).not_selfElement, fun h => absurd hr h.1⟩
      · rw [and_iff_right hr]
        exact ih (hbased.enlarge (enlarges_serve r)) (ends_serve hbased hall hr)

/-- All array types of a run are asked for over numbers that are given out by then. -/
def OverKnown (t : TypeTable) (rs : List Request) : Prop :=
  ∀ before r later element, rs = before ++ r :: later →
    r = .arrayOf element ∨ r = .type (.array element) →
      element.val < (t.after before).typeCount

/-- **A run that uses no number ahead of time** closes no cycle. -/
theorem OverKnown.unclosed {rs : List Request} (h : t.OverKnown rs) (hbased : t.Based)
    (hall : ∀ id, t.Ends id) (hgrounded : t.Grounded) : t.Unclosed rs := by
  induction rs generalizing t with
  | nil => exact unclosed_nil t
  | cons r rs ih =>
      have hfirst : ∀ element, r = .arrayOf element ∨ r = .type (.array element) →
          element.val < t.typeCount := fun element => h [] r rs element rfl
      have hr : ¬ t.ClosedBy r := by
        rintro ⟨element, heq, hleads⟩
        refine not_leadsTo_arrayOf hall (fun below hbelow => ?_) hleads
        exact isSome_lookup?_iff.2 (hgrounded.lt_typeCount_of_leadsTo (hfirst element heq) hbelow)
      refine unclosed_cons.2 ⟨hr, ih ?_ (hbased.enlarge (enlarges_serve r))
        (ends_serve hbased hall hr) ?_⟩
      · intro before r' later element heq
        exact h (r :: before) r' later element (congrArg _ heq)
      · exact keeps_serve stable_grounded r
          (fun element heq hg => hg.arrayOf (hfirst element heq)) hbased hgrounded

/-! ### The tables to start with -/

/-- Requests other than for array types keep a stable property. -/
theorem Stable.after {P : TypeTable → Prop} (hP : Stable P) {rs : List Request}
    (hrs : ∀ r ∈ rs, ∀ element, r ≠ .arrayOf element ∧ r ≠ .type (.array element))
    (hbased : t.Based) (h : P t) : P (t.after rs) := by
  induction rs generalizing t with
  | nil => exact h
  | cons r rs ih =>
      obtain ⟨hr, hrs⟩ := List.forall_mem_cons.1 hrs
      refine ih hrs (hbased.enlarge (enlarges_serve r)) (keeps_serve hP r ?_ hbased h)
      rintro element (heq | heq)
      · exact absurd heq (hr element).1
      · exact absurd heq (hr element).2

/-- The well-known types are asked for by their descriptors. -/
theorem Stable.internWellKnown {P : TypeTable → Prop} (hP : Stable P) (hbased : t.Based) (h : P t) :
    P (internWellKnown t).2 := by
  change P ((internField ⟨1, .object "java/lang/Object"⟩ t).2.after
    [.classNamed "java/lang/invoke/MethodHandle", .classNamed "java/lang/invoke/VarHandle",
      .text "clone", .text "<init>", .text "<clinit>"])
  refine hP.after ?_ (hbased.enlarge (enlarges_internField _))
    ((keeps_internField hP _).keeps hbased h)
  simp

/-- What holds of the primitive types alone, and is stable, holds of a new table. -/
theorem Stable.freshWith {P : TypeTable → Prop} (hP : Stable P)
    (h : ∀ symbols, P (primitives symbols)) (shardOf : String → Fin Symbol.shardCount) :
    P (freshWith shardOf) := by
  have hfiled := ((SymbolTable.filed_fresh shardOf).internAll SymbolTable.commonTexts).1
  have hbased : (primitives (SymbolTable.fresh shardOf).internCommon).Based :=
    ⟨hfiled, get?_primitiveTypes⟩
  have hwellKnown := hP.internWellKnown hbased (h _)
  rw [freshWith_eq]
  exact hP.congr (by rfl) hwellKnown

/-- There are no array types among the primitive ones. -/
theorem elementType?_primitives (symbols : SymbolTable) (id : TypeId) :
    (primitives symbols).elementType? id = none := by
  refine Option.eq_none_iff_forall_ne_some.2 fun element h => ?_
  have hmem := List.mem_of_getElem? (elementType?_eq_some_iff.1 h)
  rw [primitives, values_primitiveTypes, List.mem_map] at hmem
  obtain ⟨p, -, hp⟩ := hmem
  cases hp

/-- The built-in types are where they should be. -/
theorem based_freshWith (shardOf : String → Fin Symbol.shardCount) : (freshWith shardOf).Based :=
  ⟨(founded_freshWith shardOf).filed, (founded_freshWith shardOf).primitive⟩

/-- The elements of every built-in type end. -/
theorem ends_freshWith (shardOf : String → Fin Symbol.shardCount) (id : TypeId) :
    (freshWith shardOf).Ends id :=
  stable_ends.freshWith (fun symbols _ => .leaf (elementType?_primitives symbols _)) shardOf id

/-- The built-in array type is over a number that is given out. -/
theorem grounded_freshWith (shardOf : String → Fin Symbol.shardCount) :
    (freshWith shardOf).Grounded :=
  stable_grounded.freshWith (fun symbols id element h => by
    rw [elementType?_primitives symbols id] at h
    cases h) shardOf

/-! ### Every run -/

/-- All elements end exactly if no type is its own element. -/
theorem forall_ends_iff : (∀ id, t.Ends id) ↔ ∀ id, ¬ t.SelfElement id := by
  constructor
  · intro h id
    exact (h id).not_selfElement
  · intro h id
    exact ends_iff_forall_not_selfElement.2 fun below _ => h below

/-- **Where writing ends.** After any run of requests to a new table:

* no array type is its own element, directly or through a chain of elements, exactly if no request
  of the run asked for an array type over a number that leads to the number it then got; this is so
  if no number is used before it is given out;
* exactly then the descriptors of all numbers are written, known or not, and so are all names;
* prototypes and references to members are written then;
* in any case, the descriptor and the name of a number are written exactly if the number does not
  lead to an array type that is its own element;
* and whatever is written is what `descriptor?`, `typeName?`, `protoDescriptor?`, `displayMethod?`
  and `displayField?` give, which give nothing where nothing is written. -/
theorem writing_ends_iff (shardOf : String → Fin Symbol.shardCount) (rs : List Request) :
    ((freshWith shardOf).Unclosed rs ↔ ∀ id, ¬ ((freshWith shardOf).after rs).SelfElement id) ∧
    ((freshWith shardOf).OverKnown rs → (freshWith shardOf).Unclosed rs) ∧
    ((freshWith shardOf).Unclosed rs ↔
      ∀ id, ∃ text, ((freshWith shardOf).after rs).WritesDescriptor id text) ∧
    ((freshWith shardOf).Unclosed rs ↔
      ∀ id, ∃ text, ((freshWith shardOf).after rs).WritesName id text) ∧
    ((freshWith shardOf).Unclosed rs →
      let t := (freshWith shardOf).after rs
      (∀ id, ∃ text, t.WritesProto id text) ∧ (∀ m, ∃ text, t.WritesMethod m text) ∧
      ∀ f, ∃ text, t.WritesField f text) ∧
    (∀ id,
      let t := (freshWith shardOf).after rs
      ((∃ text, t.WritesDescriptor id text) ↔ ∀ below, t.LeadsTo id below → ¬ t.SelfElement below) ∧
      ((∃ text, t.WritesName id text) ↔ ∀ below, t.LeadsTo id below → ¬ t.SelfElement below)) ∧
    ∀ text,
      let t := (freshWith shardOf).after rs
      (∀ id, t.WritesDescriptor id text ↔ t.descriptor? id = some text) ∧
      (∀ id, t.WritesName id text ↔ t.typeName? id = some text) ∧
      (∀ id, t.WritesProto id text ↔ t.protoDescriptor? id = some text) ∧
      (∀ m, t.WritesMethod m text ↔ t.displayMethod? m = some text) ∧
      ∀ f, t.WritesField f text ↔ t.displayField? f = some text := by
  have hbased := based_freshWith shardOf
  have hall := ends_freshWith shardOf
  have hrun := ends_after_iff hbased hall rs
  refine ⟨hrun.symm.trans forall_ends_iff,
    fun h => h.unclosed hbased hall (grounded_freshWith shardOf), ?_, ?_, fun h => ?_, fun id => ?_,
    fun text => ⟨fun _ => writesDescriptor_iff, fun _ => writesName_iff, fun _ => writesProto_iff,
      fun _ => writesMethod_iff, fun _ => writesField_iff⟩⟩
  · exact hrun.symm.trans (forall_congr' fun _ => exists_writes_iff_ends.symm)
  · exact hrun.symm.trans (forall_congr' fun _ => exists_writes_iff_ends.symm)
  · have hends := hrun.2 h
    have hname id := exists_writesName_iff.2 (hends id)
    have htype id := exists_writesDescriptor_iff.2 (hends id)
    have hproto : ∀ id, ∃ text, ((freshWith shardOf).after rs).WritesProto id text :=
      fun _ => exists_writesProto_iff.2 fun _ _ => ⟨fun _ _ => hends _, hends _⟩
    refine ⟨hproto, fun m => ?_, fun f => ?_⟩
    · obtain ⟨holder, hholder⟩ := hname m.holder
      obtain ⟨proto, hproto⟩ := hproto m.sig.proto
      exact ⟨_, .intro hholder hproto⟩
    · obtain ⟨holder, hholder⟩ := hname f.holder
      obtain ⟨type, htype⟩ := htype f.sig.type
      exact ⟨_, .intro hholder htype⟩
  · exact ⟨exists_writes_iff_ends.trans ends_iff_forall_not_selfElement,
      exists_writes_iff_ends.trans ends_iff_forall_not_selfElement⟩

/-! ### Numbers used ahead of time -/

/-- From a number without an element type nothing else is led to. -/
theorem eq_of_leadsTo {below : TypeId} (h : t.elementType? id = none)
    (hleads : t.LeadsTo id below) : below = id := by
  rcases Relation.ReflTransGen.cases_head hleads with rfl | ⟨element, hstep, -⟩
  · rfl
  · rw [h] at hstep
    cases hstep

/-- Two layers of arrays over a class that only comes after them. -/
def forwardRun : List Request := [.arrayOf ⟨15⟩, .arrayOf ⟨13⟩, .classNamed "p/A"]

/-- The number of the class is used ahead of time, and all types are written all the same. -/
theorem writing_ends_forward :
    fresh.Unclosed forwardRun ∧ ¬ fresh.OverKnown forwardRun ∧
    (∀ id, ∃ text, (fresh.after forwardRun).WritesDescriptor id text) ∧
    (fresh.after forwardRun).WritesDescriptor ⟨14⟩ "[[Lp/A;" ∧
    ∀ id, ¬ (fresh.after forwardRun).SelfElement id := by
  obtain ⟨hcycle, -, hwrites, -, -, -, htext⟩ := writing_ends_iff SymbolTable.byteSum forwardRun
  have hfirst : ¬ fresh.ClosedBy (.arrayOf ⟨15⟩) := by
    rintro ⟨element, heq, hleads⟩
    obtain rfl : element = ⟨15⟩ := by simpa [eq_comm] using heq
    exact absurd (eq_of_leadsTo (by decide +kernel) hleads) (by decide +kernel)
  have hsecond : ¬ (serve (.arrayOf ⟨15⟩) fresh).2.ClosedBy (.arrayOf ⟨13⟩) := by
    rintro ⟨element, heq, hleads⟩
    obtain rfl : element = ⟨13⟩ := by simpa [eq_comm] using heq
    rcases Relation.ReflTransGen.cases_head hleads with heq | ⟨below, hstep, hleads⟩
    · exact absurd heq (by decide +kernel)
    · obtain rfl : ⟨15⟩ = below := Option.some.inj (Eq.trans (by decide +kernel) hstep)
      exact absurd (eq_of_leadsTo (by decide +kernel) hleads) (by decide +kernel)
  have hunclosed : fresh.Unclosed forwardRun := by
    refine unclosed_cons.2 ⟨hfirst, unclosed_cons.2 ⟨hsecond, unclosed_cons.2 ⟨?_, unclosed_nil _⟩⟩⟩
    rintro ⟨element, heq, -⟩
    simp at heq
  have hforward := ((htext "[[Lp/A;").1 ⟨14⟩).2 (by decide +kernel)
  refine ⟨hunclosed, fun h => ?_, hwrites.1 hunclosed, hforward, hcycle.1 hunclosed⟩
  exact absurd (h [] _ _ ⟨15⟩ rfl (.inl rfl)) (by decide +kernel)

/-- An array type over the next free number, and a prototype that takes one. -/
def ownElementRun : List Request := [.arrayOf ⟨13⟩, .proto ⟨[⟨13⟩], ⟨0⟩⟩]

/-- The table after this run. -/
def ownElement : TypeTable := fresh.after ownElementRun

/-- **An array type over the next free number is its own element**, and nothing that it is part of
is ever written: descending to its element goes on whatever the number of steps. -/
theorem not_writes_ownElement :
    ownElement.Reachable ∧ (arrayOf ⟨13⟩ fresh).1 = ⟨13⟩ ∧
    ownElement.elementType? ⟨13⟩ = some ⟨13⟩ ∧ ownElement.SelfElement ⟨13⟩ ∧
    (∀ steps, ownElement.unwrap steps ⟨13⟩ = none) ∧
    (∀ text, ¬ ownElement.WritesDescriptor ⟨13⟩ text) ∧
    (∀ text, ¬ ownElement.WritesName ⟨13⟩ text) ∧
    (∀ text, ¬ ownElement.WritesProto ⟨0⟩ text) ∧
    (∀ name text, ¬ ownElement.WritesMethod ⟨.object, ⟨name, ⟨0⟩⟩⟩ text) ∧
    ∀ name text, ¬ ownElement.WritesField ⟨.object, ⟨name, ⟨13⟩⟩⟩ text := by
  have hstep : ownElement.elementType? ⟨13⟩ = some ⟨13⟩ := by decide +kernel
  have hself : ownElement.SelfElement ⟨13⟩ := .single hstep
  have hends : ¬ ownElement.Ends ⟨13⟩ := fun h => h.not_selfElement hself
  have hproto : ¬ ownElement.ProtoEnds ⟨0⟩ := fun h =>
    hends ((h ⟨[⟨13⟩], ⟨0⟩⟩ (by decide +kernel)).1 _ List.mem_cons_self)
  have hunwrap (steps : Nat) : ownElement.unwrap steps ⟨13⟩ = none :=
    Option.eq_none_iff_forall_ne_some.2 fun s hs => hends (ends_of_unwrap hs)
  refine ⟨⟨_, ownElementRun, rfl⟩, by decide +kernel, hstep, hself, hunwrap,
    fun _ h => hends (exists_writesDescriptor_iff.1 ⟨_, h⟩),
    fun _ h => hends (exists_writesName_iff.1 ⟨_, h⟩),
    fun _ h => hproto (exists_writesProto_iff.1 ⟨_, h⟩), fun _ _ h => ?_, fun _ _ h => ?_⟩
  · obtain ⟨-, h⟩ := h
    exact hproto (exists_writesProto_iff.1 ⟨_, h⟩)
  · obtain ⟨-, h⟩ := h
    exact hends (exists_writesDescriptor_iff.1 ⟨_, h⟩)

end TypeTable

end Linkage
