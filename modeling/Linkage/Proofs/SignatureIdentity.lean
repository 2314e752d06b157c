import Linkage.Proofs.ParallelRuns
import Linkage.Proofs.TypeIdentity

/-!
# Numbers and Signatures

What `Linkage.Proofs.TypeIdentity` says of types holds of prototypes and signatures as well: two of
them that are asked for by their texts are equal exactly if the texts are. A prototype is denoted
through its types, so that the order in which these get their numbers plays no part.

A text that is turned down adds no type and no prototype. The name of a signature is filed all the
same, and shifts the symbols of the texts that are filed after it: later symbols stand for the same
texts as in the same run without the request, and the numbers of types and prototypes are the same.
A caller who names a class by the number of a symbol names another one after such a shift, so that
this holds of runs that mean the same texts.

## Main definitions

* `DenotesProto`: a number stands for the prototype that a descriptor describes.
* `Rejects`: a request is turned down.

## Main results

* `DenotesProto.id_unique`, `DenotesProto.type_unique`: a prototype has one number, and a number one
  prototype.
* `DenotesProto.protoDescriptor?_eq`: a number reads back as the text of its prototype.
* `Rejects.types_eq`: a request that is turned down adds no types and prototypes.
* `Rejects.sameReplies`: a request that is turned down has no effect on later replies.
* `identifies_signatures`: signatures in every run.
-/

namespace Linkage

namespace TypeTable

/-! ### What the numbers of prototypes stand for -/

/-- A number of a table stands for the prototype that a descriptor describes. -/
def DenotesProto (t : TypeTable) (d : MethodDescriptor) (id : ProtoId) : Prop :=
  ∃ p, t.lookupProto? id = some p ∧ List.Forall₂ t.Denotes d.params p.params ∧ t.Denotes d.ret p.ret

/-- Types that are named by descriptors are written one after the other. -/
theorem mapM_descriptor?_eq {t : TypeTable} {ds : List FieldDescriptor} {ids : List TypeId}
    (h : List.Forall₂ t.Denotes ds ids) :
    ids.mapM t.descriptor? = some (ds.map fun d => String.ofList d.render) := by
  induction h with
  | nil => rfl
  | cons hd _ ih =>
      rw [List.mapM_cons, hd.descriptor?_eq, ih]
      rfl

namespace DenotesProto

variable {t u : TypeTable} {d e : MethodDescriptor} {id id' : ProtoId}

/-- **What a number stands for never changes.** -/
theorem growsTo (h : t.DenotesProto d id) (hgrows : t.GrowsTo u) : u.DenotesProto d id := by
  obtain ⟨p, hp, hparams, hret⟩ := h
  exact ⟨p, hgrows.protos hp, hparams.imp fun _ _ hparam => hparam.growsTo hgrows,
    hret.growsTo hgrows⟩

/-- **A prototype has one number only.** -/
theorem id_unique (hfiled : t.symbols.Filed) (h : t.DenotesProto d id)
    (h' : t.DenotesProto d id') : id = id' := by
  obtain ⟨⟨params, ret⟩, hp, hparams, hret⟩ := h
  obtain ⟨⟨params', ret'⟩, hp', hparams', hret'⟩ := h'
  have hunique : Relator.RightUnique t.Denotes := fun _ _ _ hi hi' => hi.id_unique hfiled hi'
  obtain rfl : params = params' := List.right_unique_forall₂' hunique hparams hparams'
  obtain rfl : ret = ret' := hret.id_unique hfiled hret'
  exact congrArg ProtoId.mk (Pool.get?_inj hp hp')

/-- **A number stands for one prototype only.** -/
theorem type_unique (h : t.DenotesProto d id) (h' : t.DenotesProto e id) : d = e := by
  obtain ⟨p, hp, hparams, hret⟩ := h
  obtain ⟨p', hp', hparams', hret'⟩ := h'
  rw [hp, Option.some.injEq] at hp'
  subst hp'
  have hunique : Relator.LeftUnique t.Denotes := fun _ _ _ hi hi' => hi.type_unique hi'
  have hparams := List.left_unique_forall₂' hunique hparams hparams'
  rw [MethodDescriptor.mk.injEq]
  exact ⟨hparams, hret.type_unique hret'⟩

/-- **A number reads back as the text of its prototype.** -/
theorem protoDescriptor?_eq (h : t.DenotesProto d id) :
    t.protoDescriptor? id = some (String.ofList d.render) := by
  obtain ⟨p, hp, hparams, hret⟩ := h
  rw [protoDescriptor?, hp]
  simp only [mapM_descriptor?_eq hparams, hret.descriptor?_eq, bind, Option.bind_some, pure,
    Option.some.injEq]
  rw [← String.toList_inj]
  simp [MethodDescriptor.render, List.flatMap_def, Function.comp_def]

end DenotesProto

/-! ### What is asked for by its text -/

/-- Types that are asked for one after the other have numbers that stand for them. -/
theorem denotes_mapM {t : TypeTable} (h : t.Founded) (ds : List FieldDescriptor) :
    List.Forall₂ (ds.mapM internField t).2.Denotes ds (ds.mapM internField t).1 := by
  induction ds generalizing t with
  | nil => exact .nil
  | cons d ds ih =>
      have hd := h.enlarge (enlarges_internField d)
      obtain ⟨hfiled, hgrows⟩ := enlarges_mapM enlarges_internField ds (internField d t).2 hd.filed
      rw [List.mapM_cons]
      exact .cons ((denotes_internField h d).growsTo hgrows) (ih hd)

/-- **A descriptor's number stands for the prototype that it describes.** -/
theorem denotesProto_internMethod {t : TypeTable} (h : t.Founded) (d : MethodDescriptor) :
    (internMethod d t).2.DenotesProto d (internMethod d t).1 := by
  have hret := h.enlarge (enlarges_internField d.ret)
  have hparams := denotes_mapM hret d.params
  obtain ⟨hfiled, hgrows⟩ :=
    enlarges_mapM enlarges_internField d.params (internField d.ret t).2 hret.filed
  have hproto := fun ids => (enlarges_internProto ⟨ids, (internField d.ret t).1⟩ _ hfiled).2
  exact ⟨_, Pool.get?_numberOf _ _, hparams.imp fun _ _ hparam => hparam.growsTo (hproto _),
    ((denotes_internField h d.ret).growsTo hgrows).growsTo (hproto _)⟩

/-- **Two descriptors that are asked for at different times** get one number exactly if they are
equal. -/
theorem Founded.internMethod_eq_iff {t u : TypeTable} (ht : t.Founded) (hu : u.Founded)
    {d e : MethodDescriptor} (hgrows : (internMethod d t).2.GrowsTo u) :
    (internMethod d t).1 = (internMethod e u).1 ↔ d = e := by
  have hd := ((denotesProto_internMethod ht d).growsTo hgrows).growsTo
    (enlarges_internMethod e u hu.filed).2
  have he := denotesProto_internMethod hu e
  constructor
  · intro heq
    rw [heq] at hd
    exact hd.type_unique he
  · rintro rfl
    exact hd.id_unique (hu.enlarge (enlarges_internMethod d)).filed he

/-- A text that is accepted as a method type is asked for by the prototype that it describes. -/
theorem internProtoDescriptor_of_ofString {text : String} {d : MethodDescriptor}
    (h : MethodDescriptor.ofString text = .ok d) (t : TypeTable) :
    internProtoDescriptor text t = (.ok (internMethod d t).1, (internMethod d t).2) := by
  rw [internProtoDescriptor, h]
  rfl

/-- The name of a method is filed before its prototype is asked for. -/
theorem methodSig_eq (name text : String) (t : TypeTable) :
    methodSig name text t =
      ((internProtoDescriptor text (internText name t).2).1.map
          (MethodSig.mk (internText name t).1),
        (internProtoDescriptor text (internText name t).2).2) := rfl

/-- The name of a field is filed before its type is asked for. -/
theorem fieldSig_eq (name text : String) (t : TypeTable) :
    fieldSig name text t =
      ((internDescriptor text (internText name t).2).1.map (FieldSig.mk (internText name t).1),
        (internDescriptor text (internText name t).2).2) := rfl

/-- A method signature that is accepted has the symbol of the name and the number of the
prototype. -/
theorem methodSig_of_ofString {text : String} {d : MethodDescriptor}
    (h : MethodDescriptor.ofString text = .ok d) (name : String) (t : TypeTable) :
    methodSig name text t =
      (.ok ⟨(internText name t).1, (internMethod d (internText name t).2).1⟩,
        (internMethod d (internText name t).2).2) := by
  rw [methodSig_eq, internProtoDescriptor_of_ofString h]
  rfl

/-- A field signature that is accepted has the symbol of the name and the number of the type. -/
theorem fieldSig_of_ofString {text : String} {d : FieldDescriptor}
    (h : FieldDescriptor.ofString text = .ok d) (name : String) (t : TypeTable) :
    fieldSig name text t =
      (.ok ⟨(internText name t).1, (internField d (internText name t).2).1⟩,
        (internField d (internText name t).2).2) := by
  rw [fieldSig_eq, internDescriptor_of_ofString h]
  rfl

/-- **Two method signatures that are asked for at different times** are equal exactly if their names
and their descriptors are. -/
theorem Founded.methodSig_eq_iff {t u : TypeTable} (ht : t.Founded) (hu : u.Founded)
    {name name' text text' : String} {d d' : MethodDescriptor}
    (h : MethodDescriptor.ofString text = .ok d) (h' : MethodDescriptor.ofString text' = .ok d')
    (hgrows : (methodSig name text t).2.GrowsTo u) :
    (methodSig name text t).1 = (methodSig name' text' u).1 ↔ name = name' ∧ d = d' := by
  rw [methodSig_of_ofString h] at hgrows ⊢
  rw [methodSig_of_ofString h', Except.ok.injEq, MethodSig.mk.injEq]
  have hname := ht.enlarge (enlarges_internText name)
  have hname' := enlarges_internText name' u hu.filed
  have hproto := (enlarges_internMethod d (internText name t).2 hname.filed).2
  exact and_congr (ht.filed.intern_eq_iff hu.filed (hproto.trans hgrows).symbols)
    (hname.internMethod_eq_iff (hu.growsTo hname'.1 hname'.2) (hgrows.trans hname'.2))

/-- **Two field signatures that are asked for at different times** are equal exactly if their names
and their descriptors are. -/
theorem Founded.fieldSig_eq_iff {t u : TypeTable} (ht : t.Founded) (hu : u.Founded)
    {name name' text text' : String} {d d' : FieldDescriptor}
    (h : FieldDescriptor.ofString text = .ok d) (h' : FieldDescriptor.ofString text' = .ok d')
    (hgrows : (fieldSig name text t).2.GrowsTo u) :
    (fieldSig name text t).1 = (fieldSig name' text' u).1 ↔ name = name' ∧ d = d' := by
  rw [fieldSig_of_ofString h] at hgrows ⊢
  rw [fieldSig_of_ofString h', Except.ok.injEq, FieldSig.mk.injEq]
  have hname := ht.enlarge (enlarges_internText name)
  have hname' := enlarges_internText name' u hu.filed
  have htype := (enlarges_internField d (internText name t).2 hname.filed).2
  exact and_congr (ht.filed.intern_eq_iff hu.filed (htype.trans hgrows).symbols)
    (hname.internField_eq_iff (hu.growsTo hname'.1 hname'.2) (hgrows.trans hname'.2))

/-! ### Requests that are turned down -/

/-- A table turns a request down if the text that it comes with is no descriptor. -/
def Rejects (t : TypeTable) : Request → Prop
  | .descriptor text => ∃ e, (internDescriptor text t).1 = .error e
  | .protoDescriptor text => ∃ e, (internProtoDescriptor text t).1 = .error e
  | .methodSig name text => ∃ e, (methodSig name text t).1 = .error e
  | .fieldSig name text => ∃ e, (fieldSig name text t).1 = .error e
  | _ => False

/-- A field descriptor that is turned down changes nothing. -/
theorem internDescriptor_of_error {text : String} {t : TypeTable} {e : DescriptorError}
    (h : (internDescriptor text t).1 = .error e) : (internDescriptor text t).2 = t := by
  cases hread : FieldDescriptor.ofString text with
  | error e =>
      rw [internDescriptor, hread]
      rfl
  | ok d =>
      rw [internDescriptor_of_ofString hread] at h
      cases h

/-- A method descriptor that is turned down changes nothing. -/
theorem internProtoDescriptor_of_error {text : String} {t : TypeTable} {e : DescriptorError}
    (h : (internProtoDescriptor text t).1 = .error e) : (internProtoDescriptor text t).2 = t := by
  cases hread : MethodDescriptor.ofString text with
  | error e =>
      rw [internProtoDescriptor, hread]
      rfl
  | ok d =>
      rw [internProtoDescriptor_of_ofString hread] at h
      cases h

/-- A fault that is passed on was there before. -/
theorem eq_error_of_map_eq_error {α β ε : Type} {f : α → β} {x : Except ε α} {e : ε}
    (h : x.map f = .error e) : x = .error e := by
  cases x with
  | error e' => exact congrArg _ (Except.error.inj h)
  | ok a => cases h

/-- **A request that is turned down adds no types and no prototypes**, at most a name. -/
theorem Rejects.types_eq {t : TypeTable} {r : Request} (h : t.Rejects r) :
    (serve r t).2.types = t.types ∧ (serve r t).2.protos = t.protos := by
  cases r with
  | descriptor text =>
      obtain ⟨e, h⟩ := h
      rw [serve, internDescriptor_of_error h]
      exact ⟨rfl, rfl⟩
  | protoDescriptor text =>
      obtain ⟨e, h⟩ := h
      rw [serve, internProtoDescriptor_of_error h]
      exact ⟨rfl, rfl⟩
  | methodSig name text =>
      obtain ⟨e, h⟩ := h
      rw [methodSig_eq] at h
      rw [serve, methodSig_eq, internProtoDescriptor_of_error (eq_error_of_map_eq_error h)]
      exact ⟨rfl, rfl⟩
  | fieldSig name text =>
      obtain ⟨e, h⟩ := h
      rw [fieldSig_eq] at h
      rw [serve, fieldSig_eq, internDescriptor_of_error (eq_error_of_map_eq_error h)]
      exact ⟨rfl, rfl⟩
  | _ => exact absurd h not_false

/-- Tables stay alike if one of them turns a request down that the other one does not get. -/
theorem Alike.reject {T T' : SymbolTable} {t t' : TypeTable} (h : Alike T T' t t') {r : Request}
    (hr : t.Rejects r) : Alike T T' (serve r t).2 t' where
  filed := (enlarges_serve r t h.filed).1
  filed' := h.filed'
  types := by
    rw [hr.types_eq.1]
    exact h.types
  protos := hr.types_eq.2.trans h.protos

/-! ### Calls -/

section Calls

variable {t u : TypeTable} {name text : String}

/-- A call for a prototype is answered with the number of the one that its text describes. -/
theorem eq_of_call_protoDescriptor {d : MethodDescriptor} {answer : Except DescriptorError ProtoId}
    (h : MethodDescriptor.ofString text = .ok d)
    (hcall : call (.protoDescriptor text) t = .ok (answer, u)) :
    answer = .ok (internMethod d t).1 ∧ u = (internMethod d t).2 := by
  obtain ⟨-, heq⟩ := call_eq_ok_iff.1 hcall
  rw [serve, internProtoDescriptor_of_ofString h] at heq
  exact Prod.mk.inj heq

/-- A call for a prototype that finds room is answered. -/
theorem call_protoDescriptor {d : MethodDescriptor} (h : MethodDescriptor.ofString text = .ok d)
    (hroom : t.symbols.Admits (methodTexts d)) :
    call (.protoDescriptor text) t = .ok (.ok (internMethod d t).1, (internMethod d t).2) := by
  refine call_eq_ok_iff.2 ⟨?_, (internProtoDescriptor_of_ofString h t).symm⟩
  rw [Request.texts, protoTexts, h]
  exact hroom

/-- A call is answered with what its request is served. -/
theorem eq_of_call {r : Request} {answer : r.Result} (hcall : call r t = .ok (answer, u)) :
    answer = (serve r t).1 ∧ u = (serve r t).2 := by
  obtain ⟨-, heq⟩ := call_eq_ok_iff.1 hcall
  exact Prod.mk.inj heq

/-- A call for a signature that finds room is answered. -/
theorem call_methodSig {d : MethodDescriptor} (h : MethodDescriptor.ofString text = .ok d)
    (name : String) (hroom : t.symbols.Admits (name :: methodTexts d)) :
    call (.methodSig name text) t =
      .ok (.ok ⟨(internText name t).1, (internMethod d (internText name t).2).1⟩,
        (internMethod d (internText name t).2).2) := by
  refine call_eq_ok_iff.2 ⟨?_, (methodSig_of_ofString h name t).symm⟩
  rw [Request.texts, protoTexts, h]
  exact hroom

/-- A type that is turned down leaves the table as it is. -/
theorem call_descriptor_of_error {e : DescriptorError}
    (h : FieldDescriptor.ofString text = .error e) : call (.descriptor text) t = .ok (.error e, t) := by
  refine call_eq_ok_iff.2 ⟨?_, ?_⟩
  · rw [Request.texts, descriptorTexts, h]
    exact trivial
  · rw [serve, internDescriptor, h]
    rfl

/-- A prototype that is turned down leaves the table as it is. -/
theorem call_protoDescriptor_of_error {e : DescriptorError}
    (h : MethodDescriptor.ofString text = .error e) :
    call (.protoDescriptor text) t = .ok (.error e, t) := by
  refine call_eq_ok_iff.2 ⟨?_, ?_⟩
  · rw [Request.texts, protoTexts, h]
    exact trivial
  · rw [serve, internProtoDescriptor, h]
    rfl

end Calls

/-! ### Every run -/

/-- **A request that is turned down has no effect on later replies.** Compared are the run that goes
on after the request, and one that goes on as if the request had not been made.

The two runs make the same requests. Since the name of a signature is filed in one of them only, a
text may have two symbols there, and a request that names a class by its symbol is the same if the
two symbols stand for one text. A symbol that was made up, and stands for no text, may be used in
both runs as long as no text gets it in either. -/
theorem Rejects.sameReplies {shardOf : String → Fin Symbol.shardCount} {past : List Request}
    {t : TypeTable} (ht : t = (freshWith shardOf).after past) {r : Request} (h : t.Rejects r)
    {later later' : List Request}
    (hlater : List.Forall₂ (SameRequest (t.after (r :: later)).symbols (t.after later').symbols)
      (past ++ later) (past ++ later')) :
    List.Forall₂ (SameReply (t.after (r :: later)).symbols (t.after later').symbols)
      ((serve r t).2.replies later) (t.replies later') := by
  subst ht
  obtain ⟨hpast, hpastGrows⟩ := (founded_freshWith shardOf).after past
  obtain ⟨hfiled, hgrows⟩ := growsTo_after hpast.filed (r :: later)
  obtain ⟨hfiled', hgrows'⟩ := growsTo_after hpast.filed later'
  -- up to the request the two runs are one, which is compared with itself: a symbol that was made
  -- up has to mean the same to both from the start
  have hsamePast := List.forall₂_take_append _ _ _ hlater
  have hsameLater := List.forall₂_drop_append _ _ _ hlater
  rw [List.take_left] at hsamePast
  rw [List.drop_left] at hsameLater
  have hfresh := alike_freshWith hfiled hfiled' (hpastGrows.trans hgrows).symbols
    (hpastGrows.trans hgrows').symbols
  obtain ⟨-, halike⟩ := hfresh.after hfiled hfiled' hsamePast hgrows.symbols hgrows'.symbols
  exact ((halike.reject h).after hfiled hfiled' hsameLater (.refl _) (.refl _)).1

/-- A run that returns after a call returns without it: it finds fewer texts on file. -/
theorem exists_calls_of_call {t v : TypeTable} {r : Request} {p : r.Result × TypeTable}
    {later later' : List Request} (hfits : t.symbols.Fits) (hcall : call r t = .ok p)
    (hcalls : p.2.calls later = .ok v)
    (htexts : later.flatMap Request.texts = later'.flatMap Request.texts) :
    t.calls later' = .ok (t.after later') := by
  obtain ⟨hroom, rfl⟩ := call_eq_ok_iff.1 hcall
  obtain ⟨hroomLater, -⟩ := calls_eq_ok_iff.1 hcalls
  rw [files_serve r t] at hroomLater
  refine calls_eq_ok_iff.2 ⟨?_, rfl⟩
  rw [← htexts]
  exact (t.symbols.covers_internAll r.texts).admits (hfits.internAll hroom) hroomLater

/-- Requests that are the same up to symbols file the same texts. -/
theorem flatMap_texts_eq {T T' : SymbolTable} {rs rs' : List Request}
    (h : List.Forall₂ (SameRequest T T') rs rs') :
    rs.flatMap Request.texts = rs'.flatMap Request.texts := by
  induction h with
  | nil => rfl
  | cons hr _ ih => rw [List.flatMap_cons, List.flatMap_cons, hr.texts_eq, ih]

/-- A request that names no class by its symbol is the same in every table. -/
theorem sameRequest_self {T T' : SymbolTable} {r : Request} (h : ∀ a, r ≠ .type (.named a)) :
    SameRequest T T' r r := by
  cases r with
  | type data =>
      cases data with
      | primitive p => exact .type (.primitive p)
      | named a => exact absurd rfl (h a)
      | array element => exact .type (.array element)
  | _ => exact .other nofun

/-- **Numbers and signatures.** In every table that a run of calls has led to, as long as these have
returned:

* a call returns exactly if none of the texts that it files finds its shard full;
* a text that is accepted as a method type is answered with a number, which reads back as the text
  from then on, and two such texts have one number exactly if they are equal, whenever they are
  asked for;
* accepted texts give signatures, and two signatures of methods are equal exactly if their names and
  their texts are, whenever they are asked for, and so are two signatures of fields;
* a type or a prototype that is turned down leaves the table as it is, and a signature that is
  turned down adds no types and no prototypes;
* what follows a request that is turned down gets the replies that it would get if the request had
  not been made: the same numbers of types and prototypes, and symbols that stand for the same
  texts. A request that names a class by a symbol is the same if the symbol stands for the same
  text;
* the numbers of types and prototypes have 32 bits, as long as there are no more of them than that.
  -/
theorem identifies_signatures {shardOf : String → Fin Symbol.shardCount} {past : List Request}
    {t : TypeTable} (ht : (freshWith shardOf).calls past = .ok t) :
    (∀ r : Request, (∃ p, call r t = .ok p) ↔ t.symbols.Admits r.texts) ∧
    (∀ (text : String) (d : MethodDescriptor) (answer : Except DescriptorError ProtoId)
      (u : TypeTable), MethodDescriptor.ofString text = .ok d →
      call (.protoDescriptor text) t = .ok (answer, u) →
      ∃ id, answer = .ok id ∧
        ∀ later v, u.calls later = .ok v → v.protoDescriptor? id = some text) ∧
    (∀ (text text' : String) (d d' : MethodDescriptor) (later : List Request) (id id' : ProtoId)
      (u v v' : TypeTable), MethodDescriptor.ofString text = .ok d →
      MethodDescriptor.ofString text' = .ok d' →
      call (.protoDescriptor text) t = .ok (.ok id, u) → u.calls later = .ok v →
      call (.protoDescriptor text') v = .ok (.ok id', v') → (id = id' ↔ text = text')) ∧
    (∀ (name text : String) (d : MethodDescriptor) (answer : Except DescriptorError MethodSig)
      (u : TypeTable), MethodDescriptor.ofString text = .ok d →
      call (.methodSig name text) t = .ok (answer, u) → ∃ sig, answer = .ok sig) ∧
    (∀ (name name' text text' : String) (d d' : MethodDescriptor) (later : List Request)
      (sig sig' : MethodSig) (u v v' : TypeTable), MethodDescriptor.ofString text = .ok d →
      MethodDescriptor.ofString text' = .ok d' →
      call (.methodSig name text) t = .ok (.ok sig, u) → u.calls later = .ok v →
      call (.methodSig name' text') v = .ok (.ok sig', v') →
      (sig = sig' ↔ name = name' ∧ text = text')) ∧
    (∀ (name text : String) (d : FieldDescriptor) (answer : Except DescriptorError FieldSig)
      (u : TypeTable), FieldDescriptor.ofString text = .ok d →
      call (.fieldSig name text) t = .ok (answer, u) → ∃ sig, answer = .ok sig) ∧
    (∀ (name name' text text' : String) (d d' : FieldDescriptor) (later : List Request)
      (sig sig' : FieldSig) (u v v' : TypeTable), FieldDescriptor.ofString text = .ok d →
      FieldDescriptor.ofString text' = .ok d' →
      call (.fieldSig name text) t = .ok (.ok sig, u) → u.calls later = .ok v →
      call (.fieldSig name' text') v = .ok (.ok sig', v') →
      (sig = sig' ↔ name = name' ∧ text = text')) ∧
    (∀ (text : String) (e : DescriptorError), FieldDescriptor.ofString text = .error e →
      call (.descriptor text) t = .ok (.error e, t)) ∧
    (∀ (text : String) (e : DescriptorError), MethodDescriptor.ofString text = .error e →
      call (.protoDescriptor text) t = .ok (.error e, t)) ∧
    (∀ (r : Request) (p : r.Result × TypeTable), t.Rejects r → call r t = .ok p →
      p.2.types = t.types ∧ p.2.protos = t.protos) ∧
    (∀ (r : Request) (p : r.Result × TypeTable) (later : List Request) (v : TypeTable),
      t.Rejects r → call r t = .ok p → p.2.calls later = .ok v →
      (∀ q ∈ past ++ later, ∀ a, q ≠ .type (.named a)) →
      ∃ v', t.calls later = .ok v' ∧
        List.Forall₂ (SameReply v.symbols v'.symbols) (p.2.replies later) (t.replies later)) ∧
    (∀ (r : Request) (p : r.Result × TypeTable) (later later' : List Request) (v : TypeTable),
      t.Rejects r → call r t = .ok p → p.2.calls later = .ok v →
      List.Forall₂ (SameRequest v.symbols (t.after later').symbols) (past ++ later)
        (past ++ later') →
      ∃ v', t.calls later' = .ok v' ∧
        List.Forall₂ (SameReply v.symbols v'.symbols) (p.2.replies later) (t.replies later')) ∧
    (t.typeCount ≤ UInt32.size → ∀ id : TypeId, (t.lookup? id).isSome → id.val < UInt32.size) ∧
    (t.protos.size ≤ UInt32.size →
      ∀ id : ProtoId, (t.lookupProto? id).isSome → id.val < UInt32.size) := by
  have hfounded := founded_of_calls ht
  have hfits := fits_of_calls ht
  obtain ⟨-, hafter⟩ := calls_eq_ok_iff.1 ht
  have hsame (r : Request) (p : r.Result × TypeTable) (later later' : List Request) (v : TypeTable)
      (hr : t.Rejects r) (hcall : call r t = .ok p) (hcalls : p.2.calls later = .ok v)
      (hlater : List.Forall₂ (SameRequest v.symbols (t.after later').symbols) (past ++ later)
        (past ++ later')) :
      ∃ v', t.calls later' = .ok v' ∧
        List.Forall₂ (SameReply v.symbols v'.symbols) (p.2.replies later) (t.replies later') := by
    have htexts := flatMap_texts_eq (List.forall₂_drop_append _ _ _ hlater)
    rw [List.drop_left] at htexts
    refine ⟨_, exists_calls_of_call hfits hcall hcalls htexts, ?_⟩
    obtain ⟨-, rfl⟩ := call_eq_ok_iff.1 hcall
    obtain ⟨-, rfl⟩ := calls_eq_ok_iff.1 hcalls
    exact hr.sameReplies hafter hlater
  refine ⟨fun r => ?_, fun text d answer u h hcall => ?_,
    fun text text' d d' later id id' u v v' h h' hcall hcalls hcall' => ?_,
    fun name text d answer u h hcall => ?_,
    fun name name' text text' d d' later sig sig' u v v' h h' hcall hcalls hcall' => ?_,
    fun name text d answer u h hcall => ?_,
    fun name name' text text' d d' later sig sig' u v v' h h' hcall hcalls hcall' => ?_,
    fun _ _ => call_descriptor_of_error, fun _ _ => call_protoDescriptor_of_error,
    fun r p hr hcall => ?_, fun r p later v hr hcall hcalls hnames => ?_, hsame,
    fun hcount id hid => (isSome_lookup?_iff.1 hid).trans_le hcount, fun hcount id hid => ?_⟩
  · simp only [call_eq_ok_iff, exists_and_left, exists_eq, and_true]
  · obtain ⟨rfl, rfl⟩ := eq_of_call_protoDescriptor h hcall
    have hu := hfounded.call hcall
    refine ⟨_, rfl, fun later v hv => ?_⟩
    rw [((denotesProto_internMethod hfounded d).growsTo (hu.1.calls hv).2).protoDescriptor?_eq,
      (MethodDescriptor.ofString_eq_ok_iff_render.1 h).1]
  · obtain ⟨hv, hgrows⟩ := (hfounded.call hcall).1.calls hcalls
    obtain ⟨hid, rfl⟩ := eq_of_call_protoDescriptor h hcall
    obtain ⟨hid', -⟩ := eq_of_call_protoDescriptor h' hcall'
    rw [Except.ok.inj hid, Except.ok.inj hid', hfounded.internMethod_eq_iff hv hgrows,
      MethodDescriptor.ofString_inj h h']
  · obtain ⟨rfl, -⟩ := eq_of_call hcall
    rw [serve, methodSig_of_ofString h]
    exact ⟨_, rfl⟩
  · obtain ⟨hv, hgrows⟩ := (hfounded.call hcall).1.calls hcalls
    obtain ⟨hsig, rfl⟩ := eq_of_call hcall
    obtain ⟨hsig', -⟩ := eq_of_call hcall'
    rw [← Except.ok.injEq (ε := DescriptorError), hsig, hsig', serve, serve,
      hfounded.methodSig_eq_iff hv h h' hgrows, MethodDescriptor.ofString_inj h h']
  · obtain ⟨rfl, -⟩ := eq_of_call hcall
    rw [serve, fieldSig_of_ofString h]
    exact ⟨_, rfl⟩
  · obtain ⟨hv, hgrows⟩ := (hfounded.call hcall).1.calls hcalls
    obtain ⟨hsig, rfl⟩ := eq_of_call hcall
    obtain ⟨hsig', -⟩ := eq_of_call hcall'
    rw [← Except.ok.injEq (ε := DescriptorError), hsig, hsig', serve, serve,
      hfounded.fieldSig_eq_iff hv h h' hgrows, FieldDescriptor.ofString_inj h h']
  · obtain ⟨-, rfl⟩ := call_eq_ok_iff.1 hcall
    exact hr.types_eq
  · exact hsame r p later later v hr hcall hcalls
      (List.forall₂_same.2 fun q hq => sameRequest_self (hnames q hq))
  · rw [lookupProto?, Option.isSome_iff_ne_none, Ne, Pool.get?_eq_none_iff, Nat.not_le] at hid
    exact hid.trans_le hcount

/-! ### A signature that is turned down at its return type -/

/-- A class is asked for by the symbol of its text, and a prototype over a type that does not exist.
-/
def bySymbolRun : List Request := [.text "Lq/B;", .type (.named ⟨3011⟩), .proto ⟨[⟨99⟩], ⟨13⟩⟩]

/-- The table after this run. -/
def bySymbol : TypeTable := (freshWith SymbolTable.crowded).after bySymbolRun

/-- An array of `void` is asked for as a return type. -/
def voidArraySig : Request := .methodSig "m" "(Lq/B;Lq/C;)[V"

/-- Another class is asked for by a symbol, after its text. -/
def bySymbolLater (a : Symbol) : List Request :=
  [.text "Lq/C;", .type (.named a), .methodSig "m" "(Lq/C;)[Lq/B;"]

/-- The name of a signature that is turned down shifts the symbol of the next text, and no number of
a type or a prototype. -/
theorem identifies_signatures_shifted :
    (freshWith SymbolTable.crowded).calls bySymbolRun = .ok bySymbol ∧
    (∃ id u, call (.protoDescriptor "(Lq/B;)V") bySymbol = .ok (.ok id, u) ∧
      ∀ later v, u.calls later = .ok v → v.protoDescriptor? id = some "(Lq/B;)V") ∧
    (∃ sig sig' u v, call (.methodSig "m" "(Lq/B;)V") bySymbol = .ok (.ok sig, u) ∧
      call (.methodSig "n" "(Lq/B;)V") u = .ok (.ok sig', v) ∧ sig ≠ sig') ∧
    (∃ sig u, call (.fieldSig "f" "I") bySymbol = .ok (.ok sig, u)) ∧
    bySymbol.Rejects voidArraySig ∧
    ∃ p v v', call voidArraySig bySymbol = .ok p ∧ p.2.protos = bySymbol.protos ∧
      p.2.calls (bySymbolLater ⟨3139⟩) = .ok v ∧ bySymbol.calls (bySymbolLater ⟨3075⟩) = .ok v' ∧
      List.Forall₂ (SameReply v.symbols v'.symbols) (p.2.replies (bySymbolLater ⟨3139⟩))
        (bySymbol.replies (bySymbolLater ⟨3075⟩)) := by
  have hcalls : (freshWith SymbolTable.crowded).calls bySymbolRun = .ok bySymbol :=
    calls_eq_ok_iff.2 ⟨by decide +kernel, rfl⟩
  obtain ⟨hreturns, hproto, -, hmethod, hmethods, hfield, -, -, -, hadds, -, hreplies, -⟩ :=
    identifies_signatures hcalls
  have hread : MethodDescriptor.ofString "(Lq/B;)V" = .ok ⟨[⟨0, .object "q/B"⟩], .void⟩ := by
    decide +kernel
  have hint : FieldDescriptor.ofString "I" = .ok ⟨0, .primitive .int⟩ := by decide +kernel
  have hrejects : bySymbol.Rejects voidArraySig :=
    ⟨⟨"(Lq/B;Lq/C;)[V", .voidNotAllowed⟩, by decide +kernel⟩
  refine ⟨hcalls, ?_, ?_, ?_, hrejects, ?_⟩
  · obtain ⟨⟨answer, u⟩, hcall⟩ := (hreturns (.protoDescriptor "(Lq/B;)V")).2 (by decide +kernel)
    obtain ⟨id, rfl, hback⟩ := hproto _ _ _ _ hread hcall
    exact ⟨id, u, hcall, hback⟩
  · obtain ⟨⟨answer, u⟩, hcall⟩ := (hreturns (.methodSig "m" "(Lq/B;)V")).2 (by decide +kernel)
    obtain ⟨sig, rfl⟩ := hmethod _ _ _ _ _ hread hcall
    obtain ⟨-, rfl⟩ := eq_of_call hcall
    have hcall' := call_methodSig hread "n"
      (t := (serve (.methodSig "m" "(Lq/B;)V") bySymbol).2) (by decide +kernel)
    have hdiffer := hmethods "m" "n" _ _ _ _ [] _ _ _ _ _ hread hread hcall calls_nil hcall'
    refine ⟨sig, _, _, _, hcall, hcall', ?_⟩
    rw [Ne, hdiffer]
    decide
  · obtain ⟨⟨answer, u⟩, hcall⟩ := (hreturns (.fieldSig "f" "I")).2 (by decide +kernel)
    obtain ⟨sig, rfl⟩ := hfield _ _ _ _ _ hint hcall
    exact ⟨sig, u, hcall⟩
  · have hcall : call voidArraySig bySymbol = .ok (serve voidArraySig bySymbol) :=
      call_eq_ok_iff.2 ⟨by decide +kernel, rfl⟩
    have hlater : (serve voidArraySig bySymbol).2.calls (bySymbolLater ⟨3139⟩) =
        .ok (bySymbol.after (voidArraySig :: bySymbolLater ⟨3139⟩)) :=
      calls_eq_ok_iff.2 ⟨by decide +kernel, rfl⟩
    have hold : SameSymbol (bySymbol.after (voidArraySig :: bySymbolLater ⟨3139⟩)).symbols
        (bySymbol.after (bySymbolLater ⟨3075⟩)).symbols ⟨3011⟩ ⟨3011⟩ :=
      .text (s := "Lq/B;") (by decide +kernel) (by decide +kernel)
    have hnew : SameSymbol (bySymbol.after (voidArraySig :: bySymbolLater ⟨3139⟩)).symbols
        (bySymbol.after (bySymbolLater ⟨3075⟩)).symbols ⟨3139⟩ ⟨3075⟩ :=
      .text (s := "Lq/C;") (by decide +kernel) (by decide +kernel)
    obtain ⟨v', hcalls', hsame⟩ := hreplies _ _ _ (bySymbolLater ⟨3075⟩) _ hrejects hcall hlater
      (.cons (.other nofun) (.cons (.type (.named hold)) (.cons (.other nofun)
        (.cons (.other nofun) (.cons (.type (.named hnew)) (.cons (.other nofun) .nil))))))
    exact ⟨_, _, v', hcall, (hadds _ _ hrejects hcall).2, hlater, hcalls', hsame⟩

/-! ### What a name shifts, and where numbers end -/

/-- Prototypes over one parameter, as many as are wanted. -/
def unaryProtos (n : Nat) : List Proto := (List.range n).map fun k => ⟨[⟨0⟩], ⟨k⟩⟩

/-- Prototypes that are asked for as such change nothing but the prototypes. -/
theorem calls_map_proto (t : TypeTable) (ps : List Proto) :
    t.calls (ps.map .proto) = .ok { t with protos := ps.foldl Pool.add t.protos } := by
  induction ps generalizing t with
  | nil => rfl
  | cons p ps ih => exact ih _

/-- Each of these prototypes is new to a table that has none with a parameter. -/
theorem values_foldl_add_unaryProtos {protos : Pool Proto} (h : ∀ p ∈ protos.values, p.params = [])
    (n : Nat) :
    ((unaryProtos n).foldl Pool.add protos).values = protos.values ++ unaryProtos n := by
  refine Pool.values_foldl_add (List.nodup_range.map fun k l hkl => ?_) fun p hp hold => ?_
  · simpa using hkl
  · obtain ⟨k, -, rfl⟩ := List.mem_map.1 hp
    cases h _ hold

/-- A call for a prototype that is new is answered with the next number. -/
theorem numberOf_foldl_add_unaryProtos {protos : Pool Proto}
    (h : ∀ p ∈ protos.values, p.params = []) {p : Proto} (hp : p.params = [])
    (hnew : p ∉ protos.values) (n : Nat) :
    ((unaryProtos n).foldl Pool.add protos).numberOf p = protos.size + n := by
  have hvalues := values_foldl_add_unaryProtos h n
  have hnone : p ∉ ((unaryProtos n).foldl Pool.add protos).values := by
    rw [hvalues, List.mem_append]
    rintro (hold | hunary)
    · exact hnew hold
    · obtain ⟨k, -, rfl⟩ := List.mem_map.1 hunary
      cases hp
  rw [Pool.numberOf, Pool.find?_eq_none_iff.2 hnone, Option.getD_none, Pool.size, hvalues,
    List.length_append, unaryProtos, List.length_map, List.length_range, ← Pool.size]

/-- **However many prototypes there are**, a new one gets the next number. -/
theorem call_after_unaryProtos (n : Nat) :
    ∃ u v v', call (.protoDescriptor "()V") (freshWith SymbolTable.crowded) = .ok (.ok ⟨0⟩, u) ∧
      u.calls ((unaryProtos n).map .proto) = .ok v ∧
      call (.protoDescriptor "()I") v = .ok (.ok ⟨1 + n⟩, v') := by
  have hvoid : MethodDescriptor.ofString "()V" = .ok ⟨[], .void⟩ := by decide +kernel
  have hint : MethodDescriptor.ofString "()I" = .ok ⟨[], ⟨0, .primitive .int⟩⟩ := by decide +kernel
  have hfirst : (internMethod ⟨[], .void⟩ (freshWith SymbolTable.crowded)).2.protos.values =
      [⟨[], ⟨0⟩⟩] := by decide +kernel
  have hnumber : ((unaryProtos n).foldl Pool.add
      (internMethod ⟨[], .void⟩ (freshWith SymbolTable.crowded)).2.protos).numberOf
        ⟨[], Primitive.int.typeId⟩ = 1 + n := by
    rw [numberOf_foldl_add_unaryProtos (by simp [hfirst]) rfl (by rw [hfirst]; decide), Pool.size,
      hfirst]
    rfl
  obtain ⟨v, hcalls, hprotos⟩ : ∃ v,
      (internMethod ⟨[], .void⟩ (freshWith SymbolTable.crowded)).2.calls
        ((unaryProtos n).map .proto) = .ok v ∧ v.protos = (unaryProtos n).foldl Pool.add
          (internMethod ⟨[], .void⟩ (freshWith SymbolTable.crowded)).2.protos :=
    ⟨_, calls_map_proto _ _, rfl⟩
  have hlast := call_protoDescriptor (t := v) hint trivial
  have hid : (internMethod ⟨[], ⟨0, .primitive .int⟩⟩ v).1 = ⟨1 + n⟩ := by
    rw [← hnumber, ← hprotos]
    rfl
  rw [hid] at hlast
  exact ⟨_, v, _, call_protoDescriptor hvoid trivial, hcalls, hlast⟩

/-- How many such prototypes there have to be for the number of another one not to fit into 32 bits.
-/
def unaryCount : Nat := UInt32.size - 1

/-- **What a signature that is turned down leaves behind**: its name, which shifts the symbols of
later texts, so that a class that is named by the number of a symbol is another one. **A descriptor
that is accepted has no number** if the shard of one of its classes is full. And **beyond 32 bits**
two prototypes that differ have numbers that agree in all bits that are kept. -/
theorem not_identifies_signatures :
    ((freshWith SymbolTable.crowded).Rejects (.methodSig "q" "(") ∧
      ∃ p, call (.methodSig "q" "(") (freshWith SymbolTable.crowded) = .ok p ∧
        p.2.replies [.text "r"] = [.symbol ⟨3075⟩] ∧
        (freshWith SymbolTable.crowded).replies [.text "r"] = [.symbol ⟨3011⟩] ∧
        p.2.replies [.type (.named ⟨3011⟩), .classNamed "p/A"] =
          [.type (.ok ⟨13⟩), .type (.ok ⟨14⟩)] ∧
        (freshWith SymbolTable.crowded).replies [.type (.named ⟨3011⟩), .classNamed "p/A"] =
          [.type (.ok ⟨13⟩), .type (.ok ⟨13⟩)]) ∧
    ((freshWith SymbolTable.crowded).calls (crowdingRun crowdingCount) =
        .ok (crowdedOut crowdingCount) ∧
      MethodDescriptor.ofString "(Lp/A;)V" = .ok ⟨[⟨0, .object "p/A"⟩], .void⟩ ∧
      call (.protoDescriptor "(Lp/A;)V") (crowdedOut crowdingCount) =
        .error ⟨crowdedShard, Symbol.placeCount⟩) ∧
    ∃ id id' u v v',
      call (.protoDescriptor "()V") (freshWith SymbolTable.crowded) = .ok (.ok id, u) ∧
      u.calls ((unaryProtos unaryCount).map .proto) = .ok v ∧
      call (.protoDescriptor "()I") v = .ok (.ok id', v') ∧
      UInt32.ofNat id.val = UInt32.ofNat id'.val := by
  have hread : MethodDescriptor.ofString "(Lp/A;)V" = .ok ⟨[⟨0, .object "p/A"⟩], .void⟩ := by
    decide +kernel
  have htexts : Request.texts (.protoDescriptor "(Lp/A;)V") = ["Lp/A;"] := by decide +kernel
  obtain ⟨u, v, v', hu, hv, hv'⟩ := call_after_unaryProtos unaryCount
  exact ⟨⟨⟨⟨"(", .missingParameterList⟩, by decide +kernel⟩, _,
    call_eq_ok_iff.2 ⟨by decide +kernel, rfl⟩, by decide +kernel, by decide +kernel,
    by decide +kernel, by decide +kernel⟩,
    ⟨calls_crowdingRun (Nat.le_of_eq builtInTexts_add_crowdingCount), hread,
      call_eq_error htexts internAll?_crowdedOut⟩,
    ⟨0⟩, ⟨1 + unaryCount⟩, u, v, v', hu, hv, hv', by decide⟩

end TypeTable

end Linkage
