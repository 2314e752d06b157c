import Linkage.Proofs.TypeTableGrowth
import Mathlib.Data.List.Forall2
import Mathlib.Logic.Relator

/-!
# Runs Side by Side

Two type tables that are asked for the same give the same numbers to types and prototypes, whatever
else their symbol tables have filed. The number of a symbol depends on what was filed before it, so
that a request that names a class by its symbol is the same request to both tables if the two
symbols stand for the same text, and symbols that are given as answers are the same if they do.

Both runs are compared against the symbol tables that they end with. What a symbol stands for there
is settled, also for a symbol that a caller made up: the text that gets it may be filed long after
it was first used.

## Main definitions

* `SameSymbol`, `SameData`, `SameRequest`, `SameReply`: the same, each in its own symbol table.
* `replies`: what a run is answered with.
* `Alike`: two tables with the same types and the same prototypes.
* `Parallel`: two computations that give the same answers to tables that are alike, and leave them
  alike.

## Main results

* `parallel_serve`: the same request has the same answer.
* `Alike.after`: the same requests have the same answers.
-/

namespace Linkage

/-! ### Pools side by side -/

namespace Pool

variable {α : Type} [DecidableEq α] {R : α → α → Prop} {as bs : List α} {p q : Pool α} {a b : α}

/-- A relation that says of each value which value it corresponds to, and the other way round, keeps
places. -/
theorem place_eq_of_forall₂ (hR : Relator.BiUnique R) (h : List.Forall₂ R as bs) (hab : R a b) :
    place a as = place b bs := by
  induction h with
  | nil => rfl
  | @cons x y as bs hxy _ ih =>
      have heq : x = a ↔ y = b := by
        constructor
        · rintro rfl
          exact hR.2 hxy hab
        · rintro rfl
          exact hR.1 hxy hab
      rw [place, place, ih]
      simp only [heq]

/-- Partners have the same number in pools whose values are partners one by one. -/
theorem numberOf_eq_of_forall₂ (hR : Relator.BiUnique R) (h : List.Forall₂ R p.values q.values)
    (hab : R a b) : p.numberOf a = q.numberOf b := by
  rw [numberOf, numberOf, find?, find?, place_eq_of_forall₂ hR h hab, size, size, h.length_eq]

/-- Pools stay so if partners are added to them. -/
theorem forall₂_values_add (hR : Relator.BiUnique R) (h : List.Forall₂ R p.values q.values)
    (hab : R a b) : List.Forall₂ R (p.add a).values (q.add b).values := by
  have hmem : a ∈ p.values ↔ b ∈ q.values := by
    rw [← not_iff_not, ← place_eq_none_iff, ← place_eq_none_iff, place_eq_of_forall₂ hR h hab]
  rw [values_add, values_add]
  by_cases ha : a ∈ p.values
  · rw [if_pos ha, if_pos (hmem.1 ha)]
    exact h
  · rw [if_neg ha, if_neg (mt hmem.2 ha)]
    exact List.rel_append h (.cons hab .nil)

end Pool

namespace TypeTable

/-! ### The same symbols, types and requests -/

/-- Two symbols, each in its table, stand for the same text, or are one symbol that stands for no
text in either. -/
inductive SameSymbol (T T' : SymbolTable) : Symbol → Symbol → Prop
  | text {a a' : Symbol} {s : String} (h : T.text? a = some s) (h' : T'.text? a' = some s) :
      SameSymbol T T' a a'
  | none {a : Symbol} (h : T.text? a = .none) (h' : T'.text? a = .none) : SameSymbol T T' a a

/-- What two type numbers stand for is the same up to symbols. -/
inductive SameData (T T' : SymbolTable) : TypeData → TypeData → Prop
  | primitive (p : Primitive) : SameData T T' (.primitive p) (.primitive p)
  | named {a a' : Symbol} (h : SameSymbol T T' a a') : SameData T T' (.named a) (.named a')
  | array (element : TypeId) : SameData T T' (.array element) (.array element)

/-- Two requests are the same up to symbols. -/
inductive SameRequest (T T' : SymbolTable) : Request → Request → Prop
  | type {data data' : TypeData} (h : SameData T T' data data') :
      SameRequest T T' (.type data) (.type data')
  | other {r : Request} (h : ∀ data, r ≠ .type data) : SameRequest T T' r r

/-- What a request is answered with, whatever it asks for. -/
inductive Reply
  | symbol (a : Symbol)
  | type (answer : Except DescriptorError TypeId)
  | proto (answer : Except DescriptorError ProtoId)
  | methodSig (answer : Except DescriptorError MethodSig)
  | fieldSig (answer : Except DescriptorError FieldSig)
deriving DecidableEq

/-- The answer to a request as a reply. -/
def Request.reply : (r : Request) → r.Result → Reply
  | .text _, a => .symbol a
  | .type _, id => .type (.ok id)
  | .classNamed _, id => .type (.ok id)
  | .arrayOf _, id => .type (.ok id)
  | .descriptor _, answer => .type answer
  | .proto _, id => .proto (.ok id)
  | .protoDescriptor _, answer => .proto answer
  | .methodSig _ _, answer => .methodSig answer
  | .fieldSig _ _, answer => .fieldSig answer

/-- The replies that a run gets. -/
def replies (t : TypeTable) : List Request → List Reply
  | [] => []
  | r :: rs => r.reply (serve r t).1 :: (serve r t).2.replies rs

/-- Two answers are the same refusal, or what they give corresponds. -/
inductive SameAnswer {α : Type} (R : α → α → Prop) :
    Except DescriptorError α → Except DescriptorError α → Prop
  | error (e : DescriptorError) : SameAnswer R (.error e) (.error e)
  | ok {a a' : α} (h : R a a') : SameAnswer R (.ok a) (.ok a')

/-- Two signatures of methods have the same name and one prototype. -/
structure SameMethodSig (T T' : SymbolTable) (sig sig' : MethodSig) : Prop where
  name : SameSymbol T T' sig.name sig'.name
  proto : sig.proto = sig'.proto

/-- Two signatures of fields have the same name and one type. -/
structure SameFieldSig (T T' : SymbolTable) (sig sig' : FieldSig) : Prop where
  name : SameSymbol T T' sig.name sig'.name
  type : sig.type = sig'.type

/-- Two replies are the same up to symbols: the numbers of types and prototypes are equal. -/
inductive SameReply (T T' : SymbolTable) : Reply → Reply → Prop
  | symbol {a a' : Symbol} (h : SameSymbol T T' a a') : SameReply T T' (.symbol a) (.symbol a')
  | type (answer : Except DescriptorError TypeId) : SameReply T T' (.type answer) (.type answer)
  | proto (answer : Except DescriptorError ProtoId) : SameReply T T' (.proto answer) (.proto answer)
  | methodSig {x x' : Except DescriptorError MethodSig} (h : SameAnswer (SameMethodSig T T') x x') :
      SameReply T T' (.methodSig x) (.methodSig x')
  | fieldSig {x x' : Except DescriptorError FieldSig} (h : SameAnswer (SameFieldSig T T') x x') :
      SameReply T T' (.fieldSig x) (.fieldSig x')

section

variable {T T' : SymbolTable}

/-- Symbols of the same text in two tables are so the other way round. -/
theorem SameSymbol.symm {a a' : Symbol} (h : SameSymbol T T' a a') : SameSymbol T' T a' a := by
  cases h with
  | text h h' => exact .text h' h
  | none h h' => exact .none h' h

/-- What a request files does not depend on symbols. -/
theorem SameRequest.texts_eq {r r' : Request} (h : SameRequest T T' r r') : r.texts = r'.texts := by
  cases h <;> rfl

/-- A symbol has one partner at most. -/
theorem sameSymbol_leftUnique (hT : T.Filed) : Relator.LeftUnique (SameSymbol T T') := by
  intro a c b hac hbc
  cases hac with
  | text h h' =>
      cases hbc with
      | text k k' =>
          rw [h', Option.some.injEq] at k'
          exact hT.text?_inj h (k' ▸ k)
      | none k k' => simp [h'] at k'
  | none h h' =>
      cases hbc with
      | text k k' => simp [h'] at k'
      | none k k' => rfl

/-- So has a type. -/
theorem sameData_biUnique (hT : T.Filed) (hT' : T'.Filed) :
    Relator.BiUnique (SameData T T') := by
  constructor
  · rintro _ _ _ (_ | hac | _) (_ | hbc | _)
    · rfl
    · rw [sameSymbol_leftUnique hT hac hbc]
    · rfl
  · rintro _ _ _ (_ | hab | _) (_ | hac | _)
    · rfl
    · rw [sameSymbol_leftUnique hT' hab.symm hac.symm]
    · rfl

end

/-- Two tables have the same types, up to symbols, and the same prototypes. -/
structure Alike (T T' : SymbolTable) (t t' : TypeTable) : Prop where
  filed : t.symbols.Filed
  filed' : t'.symbols.Filed
  types : List.Forall₂ (SameData T T') t.types.values t'.types.values
  protos : t.protos = t'.protos

/-- Two computations, asked of tables that are alike and whose texts are among those to compare
against, have answers that correspond and leave the tables alike. -/
def Parallel (T T' : SymbolTable) {α α' : Type} (R : α → α' → Prop) (x : Interning α)
    (x' : Interning α') : Prop :=
  ∀ t t' : TypeTable, Alike T T' t t' →
    (x t).2.symbols.GrowsTo T → (x' t').2.symbols.GrowsTo T' →
    R (x t).1 (x' t').1 ∧ Alike T T' (x t).2 (x' t').2

section Parallel

variable {T T' : SymbolTable} {α α' β β' : Type} {R : α → α' → Prop} {S : β → β' → Prop}

/-- Answers that are at hand are partners if they are told to be. -/
theorem parallel_pure {a : α} {a' : α'} (h : R a a') : Parallel T T' R (pure a) (pure a') :=
  fun _ _ halike _ _ => ⟨h, halike⟩

/-- **Computations in parallel, one after the other**, are in parallel. -/
theorem Parallel.bind {x : Interning α} {x' : Interning α'} {f : α → Interning β}
    {f' : α' → Interning β'} (hx : Parallel T T' R x x') (ex : Enlarges x) (ex' : Enlarges x')
    (ef : ∀ a, Enlarges (f a)) (ef' : ∀ a', Enlarges (f' a'))
    (hf : ∀ a a', R a a' → Parallel T T' S (f a) (f' a')) :
    Parallel T T' S (x >>= f) (x' >>= f') := by
  intro t t' halike hgrows hgrows'
  have hstep := (ef (x t).1 (x t).2 (ex t halike.filed).1).2.symbols
  have hstep' := (ef' (x' t').1 (x' t').2 (ex' t' halike.filed').1).2.symbols
  obtain ⟨hR, halike'⟩ := hx t t' halike (hstep.trans hgrows) (hstep'.trans hgrows')
  exact hf _ _ hR _ _ halike' hgrows hgrows'

/-- Computations in parallel stay so if less is said of their answers. -/
theorem Parallel.mono {R' : α → α' → Prop} {x : Interning α} {x' : Interning α'}
    (hx : Parallel T T' R x x') (h : ∀ a a', R a a' → R' a a') : Parallel T T' R' x x' := by
  intro t t' halike hgrows hgrows'
  obtain ⟨hR, halike'⟩ := hx t t' halike hgrows hgrows'
  exact ⟨h _ _ hR, halike'⟩

/-- The same computation goes on from the same answer. -/
theorem Parallel.bind_self {S : β → β → Prop} {x : Interning α} {f : α → Interning β}
    (hx : Parallel T T' Eq x x) (ex : Enlarges x) (ef : ∀ a, Enlarges (f a))
    (hf : ∀ a, Parallel T T' S (f a) (f a)) :
    Parallel T T' S (x >>= f) (x >>= f) := by
  refine hx.bind ex ex ef ef ?_
  rintro a _ rfl
  exact hf a

/-- So are computations for each of several things. -/
theorem parallel_mapM {f : α → Interning β} (ef : ∀ a, Enlarges (f a))
    (hf : ∀ a, Parallel T T' Eq (f a) (f a)) (as : List α) :
    Parallel T T' Eq (as.mapM f) (as.mapM f) := by
  induction as with
  | nil => exact parallel_pure rfl
  | cons a as ih =>
      have emap := enlarges_mapM ef as
      rw [List.mapM_cons]
      exact (hf a).bind_self (ef a) (fun _ => emap.bind fun _ => enlarges_pure _) fun _ =>
        ih.bind_self emap (fun _ => enlarges_pure _) fun _ => parallel_pure rfl

/-- A text gets symbols that stand for it. -/
theorem parallel_internText (s : String) :
    Parallel T T' (SameSymbol T T') (internText s) (internText s) := by
  intro t t' halike hgrows hgrows'
  exact ⟨.text (hgrows (halike.filed.text?_intern_self s))
      (hgrows' (halike.filed'.text?_intern_self s)),
    halike.filed.intern s, halike.filed'.intern s, halike.types, halike.protos⟩

/-- Both sides ask for the same prototype. -/
theorem parallel_internProto (p : Proto) :
    Parallel T T' Eq (internProto p) (internProto p) := by
  intro t t' halike _ _
  have hprotos := halike.protos
  exact ⟨by rw [internProto, internProto, hprotos], halike.filed, halike.filed', halike.types,
    congrArg (Pool.add · p) hprotos⟩

/-- What is put to a name corresponds if the names do. -/
theorem Parallel.named {ι σ : Type} {R : σ → σ → Prop} {x : Interning (Except DescriptorError ι)}
    (hx : Parallel T T' Eq x x) (ex : Enlarges x) (name : String) (mk : Symbol → ι → σ)
    (hmk : ∀ a a' i, SameSymbol T T' a a' → R (mk a i) (mk a' i)) :
    Parallel T T' (SameAnswer R)
      (do let a ← internText name; return (← x).map (mk a))
      (do let a ← internText name; return (← x).map (mk a)) := by
  have etail (a : Symbol) : Enlarges (do return (← x).map (mk a)) :=
    ex.bind fun _ => enlarges_pure _
  refine (parallel_internText name).bind (enlarges_internText name) (enlarges_internText name)
    etail etail fun a a' ha => ?_
  refine hx.bind ex ex (fun _ => enlarges_pure _) (fun _ => enlarges_pure _) ?_
  rintro y _ rfl
  refine parallel_pure ?_
  cases y with
  | error e => exact .error e
  | ok i => exact .ok (hmk a a' i ha)

end Parallel

section Serve

variable {T T' : SymbolTable} (hT : T.Filed) (hT' : T'.Filed)

include hT hT'

/-- The same type has the same number. -/
theorem parallel_intern {data data' : TypeData} (h : SameData T T' data data') :
    Parallel T T' Eq (intern data) (intern data') := by
  intro t t' halike _ _
  have hunique := sameData_biUnique hT hT'
  exact ⟨congrArg TypeId.mk (Pool.numberOf_eq_of_forall₂ hunique halike.types h), halike.filed,
    halike.filed', Pool.forall₂_values_add hunique halike.types h, halike.protos⟩

/-- Both sides ask for the same array type. -/
theorem parallel_arrayOf (element : TypeId) :
    Parallel T T' Eq (arrayOf element) (arrayOf element) :=
  parallel_intern hT hT' (.array element)

/-- Both sides ask for a class by the same name. -/
theorem parallel_classNamed (name : String) :
    Parallel T T' Eq (classNamed name) (classNamed name) :=
  (parallel_internText _).bind (enlarges_internText _) (enlarges_internText _)
    (fun _ => enlarges_intern _) (fun _ => enlarges_intern _)
    fun _ _ h => parallel_intern hT hT' (.named h)

/-- Both sides ask for an array type with the same dimensions. -/
theorem parallel_arraysOf (n : Nat) (id : TypeId) :
    Parallel T T' Eq (arraysOf n id) (arraysOf n id) := by
  induction n generalizing id with
  | zero => exact parallel_pure rfl
  | succ n ih =>
      exact (parallel_arrayOf hT hT' id).bind_self (enlarges_arrayOf id) (enlarges_arraysOf n) ih

/-- Both sides ask for the type of the same field. -/
theorem parallel_internField (d : FieldDescriptor) :
    Parallel T T' Eq (internField d) (internField d) := by
  obtain ⟨n, base⟩ := d
  cases base with
  | primitive p => exact parallel_arraysOf hT hT' n p.typeId
  | object name =>
      exact (parallel_classNamed hT hT' name).bind_self (enlarges_classNamed name)
        (enlarges_arraysOf n) (parallel_arraysOf hT hT' n)

/-- Both sides ask for the prototype of the same method. -/
theorem parallel_internMethod (d : MethodDescriptor) :
    Parallel T T' Eq (internMethod d) (internMethod d) := by
  have eparams := enlarges_mapM enlarges_internField d.params
  exact (parallel_internField hT hT' d.ret).bind_self (enlarges_internField d.ret)
    (fun ret => eparams.bind fun params => enlarges_internProto ⟨params, ret⟩) fun ret =>
      (parallel_mapM enlarges_internField (parallel_internField hT hT') d.params).bind_self eparams
        (fun params => enlarges_internProto ⟨params, ret⟩) fun params =>
          parallel_internProto ⟨params, ret⟩

/-- Both sides ask for a type by the same text. -/
theorem parallel_internDescriptor (s : String) :
    Parallel T T' Eq (internDescriptor s) (internDescriptor s) := by
  rw [internDescriptor]
  cases FieldDescriptor.ofString s with
  | error e => exact parallel_pure rfl
  | ok d =>
      exact (parallel_internField hT hT' d).bind_self (enlarges_internField d)
        (fun _ => enlarges_pure _) fun _ => parallel_pure rfl

/-- Both sides ask for a prototype by the same text. -/
theorem parallel_internProtoDescriptor (s : String) :
    Parallel T T' Eq (internProtoDescriptor s) (internProtoDescriptor s) := by
  rw [internProtoDescriptor]
  cases MethodDescriptor.ofString s with
  | error e => exact parallel_pure rfl
  | ok d =>
      exact (parallel_internMethod hT hT' d).bind_self (enlarges_internMethod d)
        (fun _ => enlarges_pure _) fun _ => parallel_pure rfl

/-- Signatures that are asked for with the same texts have the same prototype. -/
theorem parallel_methodSig (name s : String) :
    Parallel T T' (SameAnswer (SameMethodSig T T')) (methodSig name s) (methodSig name s) :=
  (parallel_internProtoDescriptor hT hT' s).named (enlarges_internProtoDescriptor s) name
    MethodSig.mk fun _ _ _ h => ⟨h, rfl⟩

/-- Signatures that are asked for with the same texts have the same type. -/
theorem parallel_fieldSig (name s : String) :
    Parallel T T' (SameAnswer (SameFieldSig T T')) (fieldSig name s) (fieldSig name s) :=
  (parallel_internDescriptor hT hT' s).named (enlarges_internDescriptor s) name
    FieldSig.mk fun _ _ _ h => ⟨h, rfl⟩

/-- **The same request has the same answer**, up to symbols. -/
theorem parallel_serve {r r' : Request} (h : SameRequest T T' r r') :
    Parallel T T' (fun y y' => SameReply T T' (r.reply y) (r'.reply y')) (serve r) (serve r') := by
  cases h with
  | type h => exact (parallel_intern hT hT' h).mono fun _ _ heq => heq ▸ .type _
  | other h =>
      cases r with
      | type data => exact absurd rfl (h data)
      | text s => exact (parallel_internText s).mono fun _ _ ha => .symbol ha
      | classNamed name =>
          exact (parallel_classNamed hT hT' name).mono fun _ _ heq => heq ▸ .type _
      | arrayOf element =>
          exact (parallel_arrayOf hT hT' element).mono fun _ _ heq => heq ▸ .type _
      | descriptor s =>
          exact (parallel_internDescriptor hT hT' s).mono fun _ _ heq => heq ▸ .type _
      | proto p => exact (parallel_internProto p).mono fun _ _ heq => heq ▸ .proto _
      | protoDescriptor s =>
          exact (parallel_internProtoDescriptor hT hT' s).mono fun _ _ heq => heq ▸ .proto _
      | methodSig name s => exact (parallel_methodSig hT hT' name s).mono fun _ _ => .methodSig
      | fieldSig name s => exact (parallel_fieldSig hT hT' name s).mono fun _ _ => .fieldSig

/-- **The same requests get the same replies**, up to symbols, and leave tables alike. Induction on
the requests: all that is known of the tables that each request finds is that they are alike. -/
theorem Alike.after {t t' : TypeTable} (h : Alike T T' t t') {rs rs' : List Request}
    (hrs : List.Forall₂ (SameRequest T T') rs rs') (hgrows : (t.after rs).symbols.GrowsTo T)
    (hgrows' : (t'.after rs').symbols.GrowsTo T') :
    List.Forall₂ (SameReply T T') (t.replies rs) (t'.replies rs') ∧
      Alike T T' (t.after rs) (t'.after rs') := by
  induction hrs generalizing t t' with
  | nil => exact ⟨.nil, h⟩
  | @cons r r' rs rs' hr _ ih =>
      have hrest := (growsTo_after (enlarges_serve r t h.filed).1 rs).2.symbols
      have hrest' := (growsTo_after (enlarges_serve r' t' h.filed').1 rs').2.symbols
      obtain ⟨hreply, hstep⟩ :=
        parallel_serve hT hT' hr t t' h (hrest.trans hgrows) (hrest'.trans hgrows')
      obtain ⟨hreplies, hafter⟩ := ih hstep hgrows hgrows'
      exact ⟨.cons hreply hreplies, hafter⟩

end Serve

/-! ### New tables -/

/-- The tables that know only the primitive types are alike. -/
theorem alike_primitives {symbols : SymbolTable} (h : symbols.Filed) :
    Alike T T' (primitives symbols) (primitives symbols) where
  filed := h
  filed' := h
  types := by
    rw [primitives, values_primitiveTypes, List.forall₂_map_left_iff, List.forall₂_map_right_iff]
    exact List.forall₂_same.2 fun p _ => .primitive p
  protos := rfl

/-- What is added to the primitive types without naming a symbol is like itself. -/
theorem alike_after_primitives (hT : T.Filed) (hT' : T'.Filed) {symbols : SymbolTable}
    (h : symbols.Filed) {rs : List Request} (hrs : ∀ r ∈ rs, ∀ data, r ≠ .type data)
    (hgrows : ((primitives symbols).after rs).symbols.GrowsTo T)
    (hgrows' : ((primitives symbols).after rs).symbols.GrowsTo T') (wellKnown : WellKnown) :
    Alike T T' { (primitives symbols).after rs with wellKnown }
      { (primitives symbols).after rs with wellKnown } := by
  have hsame : List.Forall₂ (SameRequest T T') rs rs :=
    List.forall₂_same.2 fun r hr => .other (hrs r hr)
  obtain ⟨-, halike⟩ := (alike_primitives h).after hT hT' hsame hgrows hgrows'
  exact ⟨halike.filed, halike.filed', halike.types, halike.protos⟩

/-- A new table is like itself, whatever is filed later on. -/
theorem alike_freshWith (hT : T.Filed) (hT' : T'.Filed)
    {shardOf : String → Fin Symbol.shardCount}
    (hgrows : (freshWith shardOf).symbols.GrowsTo T)
    (hgrows' : (freshWith shardOf).symbols.GrowsTo T') :
    Alike T T' (freshWith shardOf) (freshWith shardOf) := by
  have hcommon := ((SymbolTable.filed_fresh shardOf).internAll SymbolTable.commonTexts).1
  obtain ⟨rest, heq, hrest⟩ :=
    exists_internWellKnown_eq (primitives (SymbolTable.fresh shardOf).internCommon)
  have hrequests : ∀ r ∈ .classNamed "java/lang/Object" :: rest, ∀ data, r ≠ .type data := by
    rw [List.forall_mem_cons]
    exact ⟨fun _ => Request.noConfusion, hrest⟩
  rw [freshWith_eq, heq] at hgrows hgrows' ⊢
  -- which names the first requests ask for plays no part in what follows
  generalize Request.classNamed "java/lang/Object" :: rest = rs at hrequests hgrows hgrows' ⊢
  exact alike_after_primitives hT hT' hcommon hrequests hgrows hgrows' _

end TypeTable

end Linkage
