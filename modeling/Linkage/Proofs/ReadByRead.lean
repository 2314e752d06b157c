import Linkage.Event
import Linkage.Proofs.CacheCounters
import Linkage.Proofs.Steps

/-!
# Queries, Read by Read

A query is answered from a view in which every table stands as the query will find it, and its reads
are made on the cache afterwards. This module shows that nothing is lost by that order. A query can
be taken for what it is, an inquiry that asks for one table after another and goes on by what it is
given; and when it is carried out on the cache itself, which a look-up may fill, evict from and fill
again while the query is under way, it comes to the same answer, gives the same warnings and leaves
the same cache.

An inquiry is a tree: a type whose table is asked for, and a way to go on for every table that may
come. Two things can be done with it. It can be *followed* through fixed tables, which gives a walk;
and it can be *carried out* on a cache in the course of a query, where the query keeps its own count
of the misses that it causes.

## Main definitions

* `Inquiry`, `Inquiry.walk`, `Inquiry.carryOut`: inquiries and the two things to do with them.
* `ReadByRead`: a walk that is one inquiry, whatever the tables are.
* `LiveQuery`: a query under way, with the cache as it has become.

## Main results

* `Query.readByRead_run`: every query is one inquiry.
* `Inquiry.carryOut_eq`: carried out on a cache, an inquiry finds the tables of the view.
* `Tallies.carryOut`: what a query counts tallies with what the cache counts.
* `ask_eq_conclude`: to ask a snapshot is to carry the query out on its cache.
-/

namespace Linkage

/-- Something done to the answer leaves no trail. -/
theorem Walk.map_eq {α β : Type} (g : α → β) (w : Walk α) :
    g <$> w = ⟨g w.value, w.reads, w.warnings⟩ := by
  change (⟨g w.value, w.reads ++ [], w.warnings ++ []⟩ : Walk β) = _
  rw [List.append_nil, List.append_nil]

/-! ### Inquiries -/

/-- A computation that asks for tables, one after another, and gives warnings. -/
inductive Inquiry (α : Type)
  | done (a : α)
  | read (t : TypeId) (next : MemberTable → Inquiry α)
  | warn (w : Warning) (next : Inquiry α)

namespace Inquiry

variable {α β : Type}

/-- The walk that an inquiry takes through fixed tables. -/
def walk (tables : TypeId → MemberTable) : Inquiry α → Walk α
  | .done a => pure a
  | .read t next => do
    Walk.read t
    (next (tables t)).walk tables
  | .warn w next => do
    Walk.warn w
    next.walk tables

/-- Two inquiries, one after the other. -/
def andThen : Inquiry α → (α → Inquiry β) → Inquiry β
  | .done a, f => f a
  | .read t next, f => .read t fun table => (next table).andThen f
  | .warn w next, f => .warn w (next.andThen f)

/-- Two inquiries, one after the other, are walked one after the other. -/
theorem walk_andThen (tables : TypeId → MemberTable) (p : Inquiry α) (f : α → Inquiry β) :
    (p.andThen f).walk tables = p.walk tables >>= fun a => (f a).walk tables := by
  induction p with
  | done a => rw [andThen, walk, pure_bind]
  | read t next ih => rw [andThen, walk, ih, walk, bind_assoc]
  | warn w next ih => rw [andThen, walk, ih, walk, bind_assoc]

end Inquiry

/-- **A walk finds out about tables by reading them**, one after another: for all tables at once, it
is the walk of one inquiry. -/
def ReadByRead {α : Type} (f : (TypeId → MemberTable) → Walk α) : Prop :=
  ∃ p : Inquiry α, ∀ tables, p.walk tables = f tables

namespace ReadByRead

variable {α β : Type} {f : (TypeId → MemberTable) → Walk α}

/-- A walk that is the same for all tables finds out about them in the same way. -/
theorem of_eq {g : (TypeId → MemberTable) → Walk α} (hg : ReadByRead g)
    (h : ∀ tables, f tables = g tables) : ReadByRead f := by
  obtain ⟨p, hp⟩ := hg
  exact ⟨p, fun tables => (hp tables).trans (h tables).symm⟩

/-- An answer that is at hand needs no tables. -/
theorem pure (a : α) : ReadByRead fun _ => (Pure.pure a : Walk α) := ⟨.done a, fun _ => rfl⟩

/-- A warning needs no tables. -/
theorem warn (w : Warning) : ReadByRead fun _ => Walk.warn w :=
  ⟨.warn w (.done ()), fun _ => rfl⟩

/-- One table is read by reading it. -/
theorem read (t : TypeId) :
    ReadByRead fun tables => (do Walk.read t; return tables t : Walk MemberTable) :=
  ⟨.read t .done, fun _ => rfl⟩

/-- **One walk after the other** finds out about tables by reading them, if each does. -/
theorem bind {g : α → (TypeId → MemberTable) → Walk β} (hf : ReadByRead f)
    (hg : ∀ a, ReadByRead (g a)) :
    ReadByRead fun tables => f tables >>= fun a => g a tables := by
  obtain ⟨p, hp⟩ := hf
  obtain ⟨q, hq⟩ := Classical.axiomOfChoice hg
  refine ⟨p.andThen q, fun tables => ?_⟩
  simp only [Inquiry.walk_andThen, hp, hq]

/-- A walk to whose answer something is done finds out about tables by reading them, if the walk
does. -/
theorem map (hf : ReadByRead f) (g : α → β) : ReadByRead fun tables => g <$> f tables :=
  (hf.bind fun a => ReadByRead.pure (g a)).of_eq fun tables => (bind_pure_comp g (f tables)).symm

/-- A choice that does not depend on the tables. It may be decided in another way for each. -/
theorem ite {p : Prop} {inst : (TypeId → MemberTable) → Decidable p}
    {g : (TypeId → MemberTable) → Walk α} (hf : ReadByRead f) (hg : ReadByRead g) :
    ReadByRead fun tables => @ite _ p (inst tables) (f tables) (g tables) := by
  by_cases hp : p
  · simp only [if_pos hp]
    exact hf
  · simp only [if_neg hp]
    exact hg

end ReadByRead

/-! ### Every query is an inquiry -/

namespace View

/-- A view with other tables. -/
def withTables (v : View) (tables : TypeId → MemberTable) : View := { v with table := tables }

variable (v : View)

/-- Other tables leave the definitions as they are. -/
@[simp] theorem definition_withTables (tables : TypeId → MemberTable) :
    (v.withTables tables).definition = v.definition := rfl

/-- Other tables leave the array types as they are. -/
@[simp] theorem isArray_withTables (tables : TypeId → MemberTable) :
    (v.withTables tables).isArray = v.isArray := rfl

/-- Other tables leave the well-known types and names as they are. -/
@[simp] theorem wellKnown_withTables (tables : TypeId → MemberTable) :
    (v.withTables tables).wellKnown = v.wellKnown := rfl

/-- Other tables leave it as it is which calls are direct. -/
@[simp] theorem isDirect_withTables (tables : TypeId → MemberTable) :
    (v.withTables tables).isDirect = v.isDirect := rfl

/-- A method is looked up by reading one table. -/
theorem readByRead_readMethod (t : TypeId) (sig : MethodSig) :
    ReadByRead fun tables => (v.withTables tables).readMethod t sig :=
  (ReadByRead.read t).map (·.method? sig)

/-- A field is looked up by reading one table. -/
theorem readByRead_readField (t : TypeId) (sig : FieldSig) :
    ReadByRead fun tables => (v.withTables tables).readField t sig :=
  (ReadByRead.read t).map (·.field? sig)

/-- A class that is climbed to and not asked for a polymorphic method reads its table, and the climb
goes on by what it finds. -/
theorem climb_reads {c : ClassDef} {sig : MethodSig} (hp : v.polymorphic? c sig.name = none)
    (holder : TypeId) (links : Nat) :
    v.climb sig holder c links = (do
      match ← v.readMethod c.type sig with
      | some m =>
        if m.access.isPrivate ∧ c.type ≠ holder then return .ok (some (.illegalAccess m))
        else return .ok (some (.single holder c.type m))
      | none =>
        match c.superType.bind v.definition with
        | none => return .ok none
        | some d =>
          if links = maxLinks then return .error .linkOverflow
          else if v.bound ≤ links then do
            Walk.warn ⟨.classChain, holder, v.maxDepth⟩
            return .ok none
          else v.climb sig holder d (links + 1)) := by
  rw [climb, hp]
  rfl

/-- The climb reads the table of one class after another. -/
theorem readByRead_climb (sig : MethodSig) (holder : TypeId) (c : ClassDef) (links : Nat) :
    ReadByRead fun tables => (v.withTables tables).climb sig holder c links := by
  induction c, links using climb.induct v sig with
  | case1 c links m hp =>
      exact (ReadByRead.pure _).of_eq fun tables =>
        climb_polymorphic (v := v.withTables tables) hp holder links
  | case2 c links hp ih =>
      refine ReadByRead.of_eq ?_ fun tables =>
        (v.withTables tables).climb_reads hp holder links
      refine (v.readByRead_readMethod c.type sig).bind fun own => ?_
      rcases own with _ | m
      · simp only [definition_withTables]
        cases c.superType.bind v.definition with
        | none => exact ReadByRead.pure _
        | some d =>
            refine ReadByRead.ite (ReadByRead.pure _) ?_
            by_cases hl : v.bound ≤ links
            · refine ReadByRead.of_eq ?_ fun tables => if_pos hl
              exact (ReadByRead.warn ⟨.classChain, holder, v.maxDepth⟩).bind fun _ =>
                ReadByRead.pure _
            · exact (ih d hl).of_eq fun tables => if_neg hl
      · exact (ReadByRead.pure _).ite (ReadByRead.pure _)

/-- The search for a field reads the table of a type that it enters, and goes on by what it
finds. -/
theorem searchField_reads {t : TypeId} {searched : List TypeId} {depth : Nat}
    (hd : depth ≤ v.bound) (ht : t ∉ searched) {c : ClassDef} (hc : v.definition t = some c)
    (sig : FieldSig) (rest : List (TypeId × Nat)) :
    v.searchField sig searched ((t, depth) :: rest) = (do
      match ← v.readField t sig with
      | some f => return some f
      | none =>
        v.searchField sig (t :: searched) (c.supertypes.map (·, depth + 1) ++ rest)) := by
  simp only [readField, bind_assoc, pure_bind]
  cases hf : (v.table t).field? sig with
  | none => exact searchField_expands hd ht hc hf rest
  | some f => exact searchField_declares hd ht hc hf rest

/-- The search for a field reads a table in every type that it enters. -/
theorem readByRead_searchField (sig : FieldSig) (searched : List TypeId)
    (pending : List (TypeId × Nat)) :
    ReadByRead fun tables => (v.withTables tables).searchField sig searched pending := by
  induction searched, pending using searchField.induct v with
  | case1 searched => exact (ReadByRead.pure none).of_eq fun tables => searchField_nil ..
  | case2 searched t depth rest hd ih =>
      exact ((ReadByRead.warn ⟨.fieldSearch, t, v.maxDepth⟩).bind fun _ => ih).of_eq fun tables =>
        searchField_cut (v := v.withTables tables) hd t sig searched rest
  | case3 searched t depth rest hd ht ih =>
      exact ih.of_eq fun tables =>
        searchField_searched (v := v.withTables tables) (Nat.not_lt.1 hd) ht sig rest
  | case4 searched t depth rest hd ht hc ih =>
      exact ih.of_eq fun tables =>
        searchField_undefined (v := v.withTables tables) (Nat.not_lt.1 hd) ht hc sig rest
  | case5 searched t depth rest hd ht c hc ih =>
      refine ReadByRead.of_eq ?_ fun tables =>
        (v.withTables tables).searchField_reads (Nat.not_lt.1 hd) ht hc sig rest
      refine (v.readByRead_readField t sig).bind fun own => ?_
      cases own with
      | none => exact ih
      | some f => exact ReadByRead.pure _

/-! ### The sweep -/

/-- What a sweep sees, with the reads and warnings that go with it. -/
def trail (v : View) (sights : List Sight) : Walk (List Sight) :=
  { value := sights
    reads := sights.filterMap Sight.read?
    warnings := (sights.filterMap Sight.cut?).map (⟨.interfaceSweep, ·, v.maxDepth⟩) }

/-- A sight with a read leaves the read in the trail. -/
theorem trail_of_read {s : Sight} {t : TypeId} (hread : s.read? = some t) (hcut : s.cut? = none)
    (sights : List Sight) :
    v.trail (s :: sights) = (do Walk.read t; (s :: ·) <$> v.trail sights) := by
  rw [Walk.map_eq, trail, List.filterMap_cons_some hread, List.filterMap_cons_none hcut]
  rfl

/-- A type that is cut off leaves a warning. -/
theorem trail_cut (t : TypeId) (sights : List Sight) :
    v.trail (.cut t :: sights) = (do
      Walk.warn ⟨.interfaceSweep, t, v.maxDepth⟩
      (Sight.cut t :: ·) <$> v.trail sights) := by
  rw [Walk.map_eq]
  rfl

/-- A sweep that comes to a defined interface reads its table, and goes on by what it finds. -/
theorem trail_sweep_interface {t : TypeId} {c : ClassDef} (hc : v.definition t = some c)
    (sig : MethodSig) (seen : List TypeId) (rest : List Pending) :
    v.trail (v.sweep sig seen (.interface t :: rest)) = (do
      match (← v.readMethod t sig).filter Method.isInheritable with
      | some m => (Sight.declares t c m :: ·) <$> v.trail (v.sweep sig seen rest)
      | none =>
        if t ∈ seen then (Sight.passes t :: ·) <$> v.trail (v.sweep sig seen rest)
        else (Sight.expands t :: ·) <$> v.trail (v.sweep sig (t :: seen) (c.ahead 0 ++ rest))) := by
  simp only [readMethod, bind_assoc, pure_bind]
  cases hm : ((v.table t).method? sig).filter Method.isInheritable with
  | some m => rw [sweep_interface_declares hc hm, trail_of_read v rfl rfl]
  | none =>
      by_cases ht : t ∈ seen
      · rw [sweep_interface_passes hc hm ht, trail_of_read v rfl rfl]
        simp only [if_pos ht]
      · rw [sweep_interface_expands hc hm ht, trail_of_read v rfl rfl]
        simp only [if_neg ht]

/-- The sweep reads one table after another. The induction is the recursion of the sweep, for all
tables at once: an interface that is met first may be expanded or not, whatever its table may be. -/
theorem readByRead_sweep (sig : MethodSig) (seen : List TypeId) : (pending : List Pending) →
    ReadByRead fun tables => v.trail ((v.withTables tables).sweep sig seen pending)
  | [] => (ReadByRead.pure []).of_eq fun tables => by
    rw [sweep_nil]
    rfl
  | .interface t :: rest => by
    have hrest := readByRead_sweep sig seen rest
    cases hc : v.definition t with
    | none =>
        exact hrest.of_eq fun tables => by
          rw [sweep_interface_undefined (v := v.withTables tables) hc]
    | some c =>
        refine ReadByRead.of_eq ?_ fun tables =>
          (v.withTables tables).trail_sweep_interface hc sig seen rest
        refine (v.readByRead_readMethod t sig).bind fun own => ?_
        cases own.filter Method.isInheritable with
        | some m => exact hrest.map _
        | none =>
            by_cases ht : t ∈ seen
            · simp only [if_pos ht]
              exact hrest.map _
            · simp only [if_neg ht]
              have := outside_cons_lt hc ht
              exact (readByRead_sweep sig (t :: seen) (c.ahead 0 ++ rest)).map _
  | .superclass t links :: rest => by
    by_cases hl : v.bound ≤ links
    · exact ((ReadByRead.warn _).bind fun _ => (readByRead_sweep sig seen rest).map _).of_eq
        fun tables => by rw [sweep_superclass_cut (v := v.withTables tables) hl, trail_cut]
    · have hl' := Nat.not_le.1 hl
      cases hc : v.definition t with
      | none =>
          exact (readByRead_sweep sig seen rest).of_eq fun tables => by
            rw [sweep_superclass_undefined (v := v.withTables tables) hl' hc]
      | some c =>
          exact (readByRead_sweep sig seen (c.ahead (links + 1) ++ rest)).of_eq fun tables => by
            rw [sweep_superclass_enters (v := v.withTables tables) hl' hc]
termination_by pending => (v.outside seen, v.linksLeft pending, pending.length)
decreasing_by
  · rw [linksLeft_interface]
    exact .right _ (.right _ (Nat.lt_succ_self _))
  · exact .left _ _ this
  · rw [linksLeft_superclass, Nat.sub_eq_zero_of_le ‹v.bound ≤ links›, Nat.zero_add]
    exact .right _ (.right _ (Nat.lt_succ_self _))
  · refine .right _ (.left _ _ ?_)
    rw [linksLeft_superclass]
    omega
  · refine .right _ (.left _ _ ?_)
    have hahead := v.linksLeft_ahead_le c (links + 1)
    rw [linksLeft_superclass, linksLeft_append]
    omega

/-! ### Recording what a sweep saw takes no tables -/

/-- Other tables leave what is shaded as it is. -/
theorem shade_withTables (tables : TypeId → MemberTable) (slots : OrderedMap TypeId Slot)
    (ts : List TypeId) : (v.withTables tables).shade slots ts = v.shade slots ts := by
  induction slots, ts using shade.induct v with
  | case1 slots => rw [shade_nil, shade_nil]
  | case2 slots t rest hc ih =>
      rw [shade_undefined (v := v.withTables tables) hc, shade_undefined hc, ih]
  | case3 slots t rest c hc hs ih =>
      rw [shade_shadowed hs, shade_shadowed hs, ih]
  | case4 slots t rest c hc hs _ ih =>
      rw [shade_fresh (v := v.withTables tables) hc hs, shade_fresh hc hs, ih]

/-- Other tables leave what is recorded as it is. -/
theorem record_withTables (tables : TypeId → MemberTable) (sights : List Sight)
    (cs : Candidates) : cs.record (v.withTables tables) sights = cs.record v sights := by
  simp only [Candidates.record, Candidates.add, shade_withTables]

/-- Candidates are collected by reading tables. -/
theorem readByRead_collect (sig : MethodSig) (superType : Option TypeId)
    (interfaces : List TypeId) (cs : Candidates) :
    ReadByRead fun tables => cs.collect (v.withTables tables) sig superType interfaces :=
  ((v.readByRead_sweep sig cs.expanded _).map fun sights => cs.record v sights).of_eq
    fun tables => by
      rw [Walk.map_eq, Candidates.collect]
      simp only [record_withTables]
      rfl

/-- The choice among superinterfaces is made by reading tables. -/
theorem readByRead_resolveInherited (c : ClassDef) (sig : MethodSig) :
    ReadByRead fun tables => (v.withTables tables).resolveInherited c sig :=
  (v.readByRead_collect sig c.superType c.interfaces .empty).map fun cs => cs.resolve c.type

/-! ### Method references -/

/-- A reference to a defined class is resolved by reading tables. -/
theorem readByRead_resolveOnClassDef (c : ClassDef) (sig : MethodSig) :
    ReadByRead fun tables => (v.withTables tables).resolveOnClassDef c sig :=
  (v.readByRead_climb sig c.type c 0).bind fun found => by
    rcases found with fault | (_ | r)
    · exact ReadByRead.pure _
    · exact (v.readByRead_resolveInherited c sig).map _
    · exact ReadByRead.pure _

/-- A reference to a type that is not an array is resolved by reading tables. -/
theorem readByRead_resolveOnPlainClass (holder : TypeId) (sig : MethodSig) :
    ReadByRead fun tables => (v.withTables tables).resolveOnPlainClass holder sig := by
  simp only [resolveOnPlainClass, definition_withTables]
  cases v.definition holder with
  | none => exact ReadByRead.pure _
  | some c => exact (ReadByRead.pure _).ite (v.readByRead_resolveOnClassDef c sig)

/-- A reference to an array type is resolved by reading tables. -/
theorem readByRead_resolveOnArray (sig : MethodSig) :
    ReadByRead fun tables => (v.withTables tables).resolveOnArray sig := by
  simp only [resolveOnArray, wellKnown_withTables]
  refine ReadByRead.ite ?_ ?_
  · exact ReadByRead.pure _
  · exact v.readByRead_resolveOnPlainClass v.wellKnown.object sig

/-- A class reference is resolved by reading tables. -/
theorem readByRead_resolveOnClass (holder : TypeId) (sig : MethodSig) :
    ReadByRead fun tables => (v.withTables tables).resolveOnClass holder sig := by
  simp only [resolveOnClass, isArray_withTables]
  refine ReadByRead.ite ?_ ?_
  · exact v.readByRead_resolveOnArray sig
  · exact v.readByRead_resolveOnPlainClass holder sig

/-- A reference to a defined interface is resolved by reading tables. -/
theorem readByRead_resolveOnInterfaceDef (c : ClassDef) (sig : MethodSig) :
    ReadByRead fun tables => (v.withTables tables).resolveOnInterfaceDef c sig := by
  simp only [resolveOnInterfaceDef, definition_withTables, wellKnown_withTables]
  refine (v.readByRead_readMethod c.type sig).bind fun own => ?_
  cases own with
  | some m => exact ReadByRead.pure _
  | none =>
      cases v.definition v.wellKnown.object with
      | none => exact ReadByRead.pure _
      | some _ =>
          refine (v.readByRead_readMethod v.wellKnown.object sig).bind fun root => ?_
          cases root.filter fun m => m.access.isPublic && !m.access.isAbstract with
          | some m => exact ReadByRead.pure _
          | none => exact v.readByRead_resolveInherited c sig

/-- An interface reference is resolved by reading tables. -/
theorem readByRead_resolveOnInterface (holder : TypeId) (sig : MethodSig) :
    ReadByRead fun tables => (v.withTables tables).resolveOnInterface holder sig := by
  simp only [resolveOnInterface, definition_withTables, isArray_withTables]
  refine ReadByRead.ite ?_ ?_
  · exact ReadByRead.pure _
  · cases v.definition holder with
    | none => exact ReadByRead.pure _
    | some c =>
        exact ((v.readByRead_resolveOnInterfaceDef c sig).map _).ite (ReadByRead.pure _)

/-- A reference with a hint is resolved by reading tables. -/
theorem readByRead_resolve (holder : TypeId) (sig : MethodSig) (isInterface : Bool) :
    ReadByRead fun tables => (v.withTables tables).resolve holder sig isInterface :=
  (v.readByRead_resolveOnInterface holder sig).ite (v.readByRead_resolveOnClass holder sig)

/-- A reference that follows the definition is resolved by reading tables. -/
theorem readByRead_resolveStructural (holder : TypeId) (sig : MethodSig) :
    ReadByRead fun tables => (v.withTables tables).resolveStructural holder sig := by
  simp only [resolveStructural, definition_withTables, isArray_withTables]
  refine ReadByRead.ite ?_ ?_
  · exact v.readByRead_resolveOnArray sig
  · cases v.definition holder with
    | none => exact ReadByRead.pure _
    | some c =>
        exact ((v.readByRead_resolveOnInterfaceDef c sig).map _).ite
          (v.readByRead_resolveOnClassDef c sig)

/-! ### Look-ups beside resolution -/

/-- The target that a type inherits is found by reading tables. -/
theorem readByRead_inheritedTarget (t : TypeId) (sig : MethodSig) :
    ReadByRead fun tables => (v.withTables tables).inheritedTarget t sig := by
  simp only [inheritedTarget, definition_withTables]
  cases v.definition t with
  | none => exact ReadByRead.pure _
  | some c => exact (v.readByRead_collect sig c.superType c.interfaces .empty).map _

/-- The target of a lambda is found by reading tables. -/
theorem readByRead_lambdaTarget (interfaces : List TypeId) (sig : MethodSig) :
    ReadByRead fun tables => (v.withTables tables).lambdaTarget interfaces sig :=
  (v.readByRead_collect sig (some v.wellKnown.object) interfaces .empty).map _

/-- A method on the type itself is found by reading tables. -/
theorem readByRead_directOnItself (ref : MethodRef) (context : TypeId) :
    ReadByRead fun tables => (v.withTables tables).directOnItself ref context := by
  simp only [directOnItself, definition_withTables, isDirect_withTables]
  refine ReadByRead.ite ?_ ?_
  · cases v.definition context with
    | none => exact ReadByRead.pure _
    | some c =>
        exact ((v.readByRead_readMethod context ref.sig).map _).ite (ReadByRead.pure _)
  · exact ReadByRead.pure _

end View

/-- **Every query reads table by table.** -/
theorem Query.readByRead_run (q : Query) (v : View) :
    ReadByRead fun tables => q.run (v.withTables tables) := by
  cases q with
  | resolveOnClass holder sig => exact (v.readByRead_resolveOnClass holder sig).map _
  | resolveOnInterface holder sig => exact (v.readByRead_resolveOnInterface holder sig).map _
  | resolve holder sig isInterface => exact (v.readByRead_resolve holder sig isInterface).map _
  | resolveStructural holder sig => exact (v.readByRead_resolveStructural holder sig).map _
  | resolveField holder sig => exact (v.readByRead_searchField sig [] [(holder, 0)]).map _
  | inheritedTarget t sig => exact (v.readByRead_inheritedTarget t sig).map _
  | lambdaTarget interfaces sig => exact (v.readByRead_lambdaTarget interfaces sig).map _
  | staticTarget ref context => exact ((v.readByRead_directOnItself ref context).map _).map _
  | directTarget ref context => exact ((v.readByRead_directOnItself ref context).map _).map _
  | definition t => exact ReadByRead.pure (Except.ok (Answer.definition (v.definition t)))
  | method ref => exact (v.readByRead_readMethod ref.holder ref.sig).map _
  | field ref => exact (v.readByRead_readField ref.holder ref.sig).map _
  | members t =>
      exact (ReadByRead.read t).map fun table => (Except.ok (Answer.members table))

/-! ### Carrying an inquiry out -/

/-- A query under way: the cache as it has become, what the query has counted, and the warnings that
it has given. -/
structure LiveQuery where
  cache : MemberCache
  misses : Nat
  accesses : Nat
  warnings : List Warning

namespace LiveQuery

variable {α : Type} {definition : TypeId → Option ClassDef} {stale : MemberTable → Bool}
  {given : MemberCache} {l : LiveQuery}

/-- A query that begins. -/
def start (cache : MemberCache) : LiveQuery := ⟨cache, 0, 0, []⟩

/-- Reads the table of a type. The query counts the reads for which a table must be built; its
counter stays where it is when it is full. -/
def read (l : LiveQuery) (definition : TypeId → Option ClassDef) (t : TypeId) :
    MemberTable × LiveQuery :=
  let (table, cache) := l.cache.read definition t
  let misses := if l.cache.contains t then l.misses else min (l.misses + 1) Event.maxMisses
  (table, { l with cache := cache, misses := misses, accesses := l.accesses + 1 })

/-- Looks a table up. One that is stale is evicted, and read again. -/
def lookUp (l : LiveQuery) (definition : TypeId → Option ClassDef) (stale : MemberTable → Bool)
    (t : TypeId) : MemberTable × LiveQuery :=
  let (table, l) := l.read definition t
  if stale table then { l with cache := l.cache.invalidate t }.read definition t else (table, l)

/-- Gives a warning. -/
def warn (l : LiveQuery) (w : Warning) : LiveQuery := { l with warnings := l.warnings ++ [w] }

end LiveQuery

/-- Carries an inquiry out. Every table is looked up when it is asked for, in the cache as it has
become by then. -/
def Inquiry.carryOut {α : Type} (definition : TypeId → Option ClassDef)
    (stale : MemberTable → Bool) : Inquiry α → LiveQuery → α × LiveQuery
  | .done a, l => (a, l)
  | .read t next, l =>
    let (table, l) := l.lookUp definition stale t
    (next table).carryOut definition stale l
  | .warn w next, l => next.carryOut definition stale (l.warn w)

namespace LiveQuery

variable {α : Type} {definition : TypeId → Option ClassDef} {stale : MemberTable → Bool}
  {given : MemberCache} {l : LiveQuery}

/-- A look-up does to the cache what a read of the trail does. -/
theorem lookUp_eq (l : LiveQuery) (definition : TypeId → Option ClassDef)
    (stale : MemberTable → Bool) (t : TypeId) :
    (l.lookUp definition stale t).1 = (l.cache.readFresh definition stale t).1 ∧
      (l.lookUp definition stale t).2.cache = (l.cache.readFresh definition stale t).2 ∧
      (l.lookUp definition stale t).2.warnings = l.warnings := by
  simp only [lookUp, read, MemberCache.readFresh]
  by_cases h : stale (l.cache.read definition t).1 = true <;> simp [h]

/-- **What a query counts tallies** with what the cache has counted since the query began. -/
structure Tallies (given : MemberCache) (l : LiveQuery) : Prop where
  misses_le : given.misses ≤ l.cache.misses
  misses_eq : l.misses = min (l.cache.misses - given.misses) Event.maxMisses
  served_eq : l.cache.served = given.served + l.accesses

/-- At the start nothing was counted. -/
theorem tallies_start (given : MemberCache) : (start given).Tallies given where
  misses_le := Nat.le_refl _
  misses_eq := by simp [start]
  served_eq := rfl

/-- What is counted for a read tallies. -/
theorem Tallies.read (h : l.Tallies given) (definition : TypeId → Option ClassDef) (t : TypeId) :
    (l.read definition t).2.Tallies given := by
  have hle := h.misses_le
  have hmisses := h.misses_eq
  have hserved := h.served_eq
  have hread := l.cache.misses_read definition t
  refine ⟨?_, ?_, ?_⟩
  · exact Nat.le_trans hle (l.cache.misses_le_read definition t)
  · cases hkept : l.cache.contains t with
    | true =>
        rw [hkept, if_pos rfl, Nat.add_zero] at hread
        simp only [LiveQuery.read, hkept, if_true, hread]
        exact hmisses
    | false =>
        rw [hkept, if_neg Bool.false_ne_true] at hread
        simp only [LiveQuery.read, hkept, Bool.false_eq_true, if_false, hread, hmisses]
        omega
  · simp only [LiveQuery.read, MemberCache.served_read, hserved, Nat.add_assoc]

/-- An eviction is nothing that a query counts. -/
theorem Tallies.evict (h : l.Tallies given) (t : TypeId) :
    Tallies given { l with cache := l.cache.invalidate t } where
  misses_le := by simpa using h.misses_le
  misses_eq := by simpa using h.misses_eq
  served_eq := by simpa using h.served_eq

/-- What is counted for a look-up tallies. -/
theorem Tallies.lookUp (h : l.Tallies given) (definition : TypeId → Option ClassDef)
    (stale : MemberTable → Bool) (t : TypeId) : (l.lookUp definition stale t).2.Tallies given := by
  simp only [LiveQuery.lookUp]
  split
  · exact ((h.read definition t).evict t).read definition t
  · exact h.read definition t

/-- **What a query counts tallies** when it has been carried out. -/
theorem Tallies.carryOut (h : l.Tallies given) (definition : TypeId → Option ClassDef)
    (stale : MemberTable → Bool) (p : Inquiry α) :
    (p.carryOut definition stale l).2.Tallies given := by
  induction p generalizing l with
  | done a => exact h
  | read t next ih => exact ih _ (h.lookUp definition stale t)
  | warn w next ih => exact ih ⟨h.misses_le, h.misses_eq, h.served_eq⟩

end LiveQuery

/-- **An inquiry that is carried out** on the cache of a snapshot goes the way that it would take
through the tables of the view, and leaves the cache as the reads of that walk do. -/
theorem Inquiry.carryOut_eq {α : Type} (p : Inquiry α) {s : Snapshot} (store : ClassStore)
    (marks : Marks) (sig? : Option MethodSig) {l : LiveQuery} (hl : l.cache = s.cache) :
    let walk := p.walk (s.table store marks sig?)
    let (a, l') := p.carryOut (s.definition store) (Snapshot.stale marks sig?) l
    a = walk.value ∧ l'.cache = (s.afterReads store marks sig? walk.reads).cache ∧
      l'.warnings = l.warnings ++ walk.warnings := by
  induction p generalizing s l with
  | done a => exact ⟨rfl, hl, (List.append_nil _).symm⟩
  | read t next ih =>
      obtain ⟨htable, hcache, hwarnings⟩ :=
        l.lookUp_eq (s.definition store) (Snapshot.stale marks sig?) t
      rw [hl] at htable hcache
      rw [Snapshot.table_read] at htable
      have hrest := @ih (s.table store marks sig? t) (s.afterReads store marks sig? [t])
        (l.lookUp (s.definition store) (Snapshot.stale marks sig?) t).2 hcache
      rw [Snapshot.table_afterReads, hwarnings] at hrest
      simp only [carryOut, htable]
      exact hrest
  | warn w next ih =>
      obtain ⟨ha, hcache, hwarnings⟩ := ih (l := l.warn w) hl
      refine ⟨ha, hcache, hwarnings.trans ?_⟩
      exact List.append_assoc l.warnings [w] _

/-- The misses that it counts are those that the cache has counted on the way. -/
theorem Inquiry.misses_carryOut {α : Type} (p : Inquiry α) (s : Snapshot) (store : ClassStore)
    (marks : Marks) (sig? : Option MethodSig) :
    (p.carryOut (s.definition store) (Snapshot.stale marks sig?) (.start s.cache)).2.misses =
      min ((s.afterReads store marks sig? (p.walk (s.table store marks sig?)).reads).cache.misses -
        s.cache.misses) Event.maxMisses := by
  have htallies := (LiveQuery.tallies_start s.cache).carryOut (s.definition store)
    (Snapshot.stale marks sig?) p
  rw [htallies.misses_eq, (p.carryOut_eq store marks sig? (l := .start s.cache) rfl).2.1]

/-- The reads that it counts are the reads of that walk, with those that were made twice. -/
theorem Inquiry.accesses_carryOut {α : Type} (p : Inquiry α) (s : Snapshot) (store : ClassStore)
    (marks : Marks) (sig? : Option MethodSig) :
    (p.carryOut (s.definition store) (Snapshot.stale marks sig?) (.start s.cache)).2.accesses =
      s.cache.accesses (s.definition store) (Snapshot.stale marks sig?)
        (p.walk (s.table store marks sig?)).reads := by
  have hserved := ((LiveQuery.tallies_start s.cache).carryOut (s.definition store)
    (Snapshot.stale marks sig?) p).served_eq
  rw [(p.carryOut_eq store marks sig? (l := .start s.cache) rfl).2.1] at hserved
  exact Nat.add_left_cancel (hserved.symm.trans (MemberCache.served_follow ..))

namespace Workspace

/-- What comes of a query that was carried out on a snapshot. -/
def conclude (w : Workspace) (i : Nat) (s : Snapshot) (q : Query)
    (value : Except WalkFault Answer) (l : LiveQuery) : Outcome Answer :=
  let result := Failure.ofWalk value
  let w' := w.setSnapshot i { s with cache := l.cache }
  let warnings := w.traceWarnings l.warnings
  match q.resolvedOn?.filter fun _ => w.tracing && s.options.queryTracing with
  | none => ⟨result, w', warnings⟩
  | some holder =>
    let id := w.queriesTraced + 1
    let finish :=
      match value with
      | .ok (.resolution r) => [Event.queryEnd id q r l.misses]
      | _ => []
    ⟨result, { w' with queriesTraced := id },
      .queryStart id q holder s.generation :: (warnings ++ finish)⟩

/-- **To ask a snapshot is to carry the query out on its cache**, with a fresh count of misses. -/
theorem ask_eq_conclude {w : Workspace} {i : Nat} {s : Snapshot} {store : ClassStore}
    (hlive : w.live i = .ok (s, store)) {q : Query} {p : Inquiry (Except WalkFault Answer)}
    (hp : ∀ tables, p.walk tables =
      q.run ((s.view w.types store w.marks q.sig?).withTables tables)) :
    w.ask i q =
      let (value, l) := p.carryOut (s.definition store) (Snapshot.stale w.marks q.sig?)
        (.start s.cache)
      w.conclude i s q value l := by
  obtain ⟨hvalue, hcache, hwarnings⟩ := p.carryOut_eq store w.marks q.sig? (l := .start s.cache) rfl
  have hmisses := p.misses_carryOut s store w.marks q.sig?
  have hwalk : p.walk (s.table store w.marks q.sig?) =
      q.run (s.view w.types store w.marks q.sig?) := hp _
  rw [hwalk] at hvalue hcache hwarnings hmisses
  simp only [conclude, hvalue, hmisses, hcache, hwarnings, ask, hlive]
  rfl

end Workspace

end Linkage
