import Linkage.Proofs.FieldPruning
import Linkage.Query
import Mathlib.Data.List.Basic

/-!
# Resolution is Local

A query looks at the types it names, at the root class, and at what lies above them, and at nothing
else. So it makes no difference what a hierarchy says about other types: two views that agree on
those answer alike, by the same reads and with the same warnings. This is what makes it enough to
evict the tables of the types that have changed.

The walks are compared on a part of the hierarchy that no link leads out of, one lemma for each
function; that what a query names spans such a part comes last.

## Main definitions

* `View.Agree`: two views agree on a part of a hierarchy.
* `Query.named`: the types that a query names.

## Main results

* `Agree.sweep_congr`, `Agree.climb_congr`, `Agree.searchField_congr`: the same walks on the part.
* `Agree.run_congr`: the same answers for what the part contains.
* `Query.run_eq_of_agree`: a query depends on what is above the types it names.
-/

namespace Linkage

open Relation

namespace Pending

/-- The type that is pending. -/
def type : Pending → TypeId
  | .interface t => t
  | .superclass t _ => t

end Pending

namespace Query

/-- The types that a query names. -/
def named : Query → List TypeId
  | .resolveOnClass holder _ => [holder]
  | .resolveOnInterface holder _ => [holder]
  | .resolve holder _ _ => [holder]
  | .resolveStructural holder _ => [holder]
  | .resolveField holder _ => [holder]
  | .inheritedTarget t _ => [t]
  | .lambdaTarget interfaces _ => interfaces
  | .staticTarget _ context => [context]
  | .directTarget _ context => [context]
  | .definition t => [t]
  | .method ref => [ref.holder]
  | .field ref => [ref.holder]
  | .members t => [t]

end Query

namespace View

/-- What comes up above a class are its supertypes. -/
theorem below_of_mem_ahead {v : View} {t : TypeId} {c : ClassDef} (hc : v.definition t = some c)
    {links : Nat} {p : Pending} (hp : p ∈ c.ahead links) : v.Below t p.type := by
  have hahead : ∀ p ∈ c.ahead links, v.Below t p.type :=
    Pending.forall_mem_iff.2 ⟨fun _ hi => below_of_interfaces hc hi,
      fun _ hs => below_of_superType hc hs⟩
  exact hahead p hp

/-- **Two views agree on a part** of the first one's hierarchy, which has with each type the
supertypes of its definition. They tell it in the same types, and have the same depth bound. -/
structure Agree (v w : View) (P : TypeId → Prop) : Prop where
  types : w.types = v.types
  maxDepth : w.maxDepth = v.maxDepth
  closed : ∀ {t u : TypeId}, P t → v.Below t u → P u
  definition : ∀ {t : TypeId}, P t → w.definition t = v.definition t
  table : ∀ {t : TypeId}, P t → w.table t = v.table t

namespace Agree

variable {v w : View} {P : TypeId → Prop} (h : Agree v w P)
include h

/-- Views that agree have the same bound. -/
theorem bound : w.bound = v.bound := by
  rw [View.bound, h.maxDepth, View.bound]

/-- Views that agree have the same well-known types and names. -/
theorem wellKnown : w.wellKnown = v.wellKnown := by
  rw [View.wellKnown, h.types, View.wellKnown]

/-- Views that agree have the same array types. -/
theorem isArray (t : TypeId) : w.isArray t = v.isArray t := by
  rw [View.isArray, h.types, View.isArray]

/-- The interfaces of a type lie in the part on which the views agree. -/
theorem mem_interfaces {t i : TypeId} {c : ClassDef} (ht : P t) (hc : v.definition t = some c)
    (hi : i ∈ c.interfaces) : P i :=
  h.closed ht (below_of_interfaces hc hi)

/-- The superclass of a type lies in the part on which the views agree. -/
theorem mem_superType {t s : TypeId} {c : ClassDef} (ht : P t) (hc : v.definition t = some c)
    (hs : c.superType = some s) : P s :=
  h.closed ht (below_of_superType hc hs)

/-- Views that agree on a type find the same methods there. -/
theorem readMethod {t : TypeId} (ht : P t) (sig : MethodSig) :
    w.readMethod t sig = v.readMethod t sig := by
  rw [View.readMethod, h.table ht, View.readMethod]

/-- Views that agree on a type find the same fields there. -/
theorem readField {t : TypeId} (ht : P t) (sig : FieldSig) :
    w.readField t sig = v.readField t sig := by
  rw [View.readField, h.table ht, View.readField]

/-- Views that agree on a type find the same methods there that can be inherited. -/
theorem heritable {t : TypeId} (ht : P t) (sig : MethodSig) :
    w.heritable t sig = v.heritable t sig := by
  rw [View.heritable, h.table ht, View.heritable]

/-- Views that agree find the same signature-polymorphic methods. -/
theorem polymorphic? (c : ClassDef) (name : Symbol) :
    w.polymorphic? c name = v.polymorphic? c name := by
  rw [View.polymorphic?, View.polymorphic?, h.wellKnown, h.types]

/-! ### The field search -/

/-- **The field search** on the part, visit by visit. -/
theorem searchField_congr (sig : FieldSig) {searched : List TypeId} {pending : List (TypeId × Nat)}
    (hpending : ∀ p ∈ pending, P p.1) :
    w.searchField sig searched pending = v.searchField sig searched pending := by
  induction searched, pending using visits.induct v sig with
  | case1 searched => rw [searchField_nil, searchField_nil]
  | case2 searched t depth rest hd ih =>
      have hd' : w.bound < depth := h.bound.symm ▸ hd
      rw [searchField_cut hd', searchField_cut hd, h.maxDepth,
        ih fun p hp => hpending p (List.mem_cons_of_mem _ hp)]
  | case3 searched t depth rest hd ht ih =>
      have hd' : depth ≤ w.bound := h.bound.symm ▸ Nat.not_lt.1 hd
      rw [searchField_searched hd' ht, searchField_searched (Nat.not_lt.1 hd) ht,
        ih fun p hp => hpending p (List.mem_cons_of_mem _ hp)]
  | case4 searched t depth rest hd ht hc ih =>
      have hd' : depth ≤ w.bound := h.bound.symm ▸ Nat.not_lt.1 hd
      have hc' := (h.definition (hpending _ List.mem_cons_self)).trans hc
      rw [searchField_undefined hd' ht hc', searchField_undefined (Nat.not_lt.1 hd) ht hc,
        ih fun p hp => hpending p (List.mem_cons_of_mem _ hp)]
  | case5 searched t depth rest hd ht c hc f hf =>
      have hd' : depth ≤ w.bound := h.bound.symm ▸ Nat.not_lt.1 hd
      have hpt : P t := hpending _ List.mem_cons_self
      rw [searchField_declares hd' ht ((h.definition hpt).trans hc) (by rw [h.table hpt, hf]),
        searchField_declares (Nat.not_lt.1 hd) ht hc hf]
  | case6 searched t depth rest hd ht c hc hf _ ih =>
      have hd' : depth ≤ w.bound := h.bound.symm ▸ Nat.not_lt.1 hd
      have hpt : P t := hpending _ List.mem_cons_self
      rw [searchField_expands hd' ht ((h.definition hpt).trans hc) (by rw [h.table hpt, hf]),
        searchField_expands (Nat.not_lt.1 hd) ht hc hf, ih]
      intro p hp
      rcases List.mem_append.1 hp with hp | hp
      · obtain ⟨u, hu, rfl⟩ := List.mem_map.1 hp
        exact h.closed hpt ⟨c, hc, hu⟩
      · exact hpending p (List.mem_cons_of_mem _ hp)

/-! ### The superinterfaces -/

/-- What comes up above a type of the part is in the part. -/
theorem mem_ahead {t : TypeId} {c : ClassDef} (ht : P t) (hc : v.definition t = some c)
    {links : Nat} : ∀ p ∈ c.ahead links, P p.type :=
  fun _ hp => h.closed ht (below_of_mem_ahead hc hp)

/-- **The sweep** on the part: it sees the same, and what it finds declared is declared by types of
the part. -/
theorem sweep_congr (sig : MethodSig) {seen : List TypeId} {pending : List Pending}
    (hpending : ∀ p ∈ pending, P p.type) :
    w.sweep sig seen pending = v.sweep sig seen pending ∧
      ∀ d ∈ (v.sweep sig seen pending).filterMap Sight.declared?,
        ∃ t, P t ∧ v.definition t = some d.1 := by
  induction seen, pending using sweep.induct v sig with
  | case1 seen =>
      rw [sweep_nil, sweep_nil]
      exact ⟨rfl, fun d hd => absurd hd List.not_mem_nil⟩
  | case2 seen t rest hc ih =>
      obtain ⟨heq, hdeclared⟩ := ih fun p hp => hpending p (List.mem_cons_of_mem _ hp)
      have ht : P t := hpending _ List.mem_cons_self
      rw [sweep_interface_undefined ((h.definition ht).trans hc), sweep_interface_undefined hc]
      exact ⟨heq, hdeclared⟩
  | case3 seen t rest c hc m hm ih =>
      obtain ⟨heq, hdeclared⟩ := ih fun p hp => hpending p (List.mem_cons_of_mem _ hp)
      have ht : P t := hpending _ List.mem_cons_self
      rw [sweep_interface_declares ((h.definition ht).trans hc) ((h.heritable ht sig).trans hm),
        sweep_interface_declares hc hm, heq]
      refine ⟨rfl, fun d hd => ?_⟩
      rcases List.mem_cons.1 hd with rfl | hd
      · exact ⟨t, ht, hc⟩
      · exact hdeclared d hd
  | case4 seen t rest c hc hm hseen ih =>
      obtain ⟨heq, hdeclared⟩ := ih fun p hp => hpending p (List.mem_cons_of_mem _ hp)
      have ht : P t := hpending _ List.mem_cons_self
      rw [sweep_interface_passes ((h.definition ht).trans hc) ((h.heritable ht sig).trans hm) hseen,
        sweep_interface_passes hc hm hseen, heq]
      exact ⟨rfl, hdeclared⟩
  | case5 seen t rest c hc hm hseen _ ih =>
      have ht : P t := hpending _ List.mem_cons_self
      obtain ⟨heq, hdeclared⟩ := ih fun p hp => (List.mem_append.1 hp).elim (h.mem_ahead ht hc p)
        fun hp => hpending p (List.mem_cons_of_mem _ hp)
      have hc' := (h.definition ht).trans hc
      rw [sweep_interface_expands hc' ((h.heritable ht sig).trans hm) hseen,
        sweep_interface_expands hc hm hseen, heq]
      exact ⟨rfl, hdeclared⟩
  | case6 seen t links rest hl ih =>
      obtain ⟨heq, hdeclared⟩ := ih fun p hp => hpending p (List.mem_cons_of_mem _ hp)
      rw [sweep_superclass_cut (h.bound.symm ▸ hl), sweep_superclass_cut hl, heq]
      exact ⟨rfl, hdeclared⟩
  | case7 seen t links rest hl hc ih =>
      obtain ⟨heq, hdeclared⟩ := ih fun p hp => hpending p (List.mem_cons_of_mem _ hp)
      have hl' : links < w.bound := h.bound.symm ▸ Nat.not_le.1 hl
      have ht : P t := hpending _ List.mem_cons_self
      rw [sweep_superclass_undefined hl' ((h.definition ht).trans hc),
        sweep_superclass_undefined (Nat.not_le.1 hl) hc]
      exact ⟨heq, hdeclared⟩
  | case8 seen t links rest hl c hc ih =>
      have ht : P t := hpending _ List.mem_cons_self
      obtain ⟨heq, hdeclared⟩ := ih fun p hp => (List.mem_append.1 hp).elim (h.mem_ahead ht hc p)
        fun hp => hpending p (List.mem_cons_of_mem _ hp)
      have hl' : links < w.bound := h.bound.symm ▸ Nat.not_le.1 hl
      rw [sweep_superclass_enters hl' ((h.definition ht).trans hc),
        sweep_superclass_enters (Nat.not_le.1 hl) hc]
      exact ⟨heq, hdeclared⟩

/-- **Shadowing** on the part. -/
theorem shade_congr {slots : OrderedMap TypeId Slot} {ts : List TypeId} (hts : ∀ t ∈ ts, P t) :
    w.shade slots ts = v.shade slots ts := by
  induction slots, ts using shade.induct v with
  | case1 slots => rw [shade_nil, shade_nil]
  | case2 slots t rest hc ih =>
      have hc' := (h.definition (hts t List.mem_cons_self)).trans hc
      rw [shade_undefined hc', shade_undefined hc, ih fun u hu => hts u (List.mem_cons_of_mem _ hu)]
  | case3 slots t rest c hc hs ih =>
      rw [shade_shadowed hs, shade_shadowed hs, ih fun u hu => hts u (List.mem_cons_of_mem _ hu)]
  | case4 slots t rest c hc hs _ ih =>
      have hpt : P t := hts t List.mem_cons_self
      rw [shade_fresh ((h.definition hpt).trans hc) hs, shade_fresh hc hs, ih]
      intro u hu
      rcases List.mem_append.1 hu with hu | hu
      · exact h.mem_interfaces hpt hc hu
      · exact hts u (List.mem_cons_of_mem _ hu)

/-- **Recording** what was found on the part. -/
theorem record_congr {sights : List Sight}
    (hsights : ∀ d ∈ sights.filterMap Sight.declared?, ∃ t, P t ∧ v.definition t = some d.1)
    (cs : Candidates) : cs.record w sights = cs.record v sights := by
  have hadd : ∀ cs : Candidates, ∀ d ∈ sights.filterMap Sight.declared?,
      cs.add w d.1 d.2 = cs.add v d.1 d.2 := by
    intro cs d hd
    obtain ⟨t, ht, hc⟩ := hsights d hd
    rw [Candidates.add, Candidates.add, h.shade_congr fun i hi => h.mem_interfaces ht hc hi]
  rw [Candidates.record, Candidates.record, List.foldl_ext _ _ cs hadd]

/-- **Collecting** what the part offers. -/
theorem collect_congr (sig : MethodSig) {superType : Option TypeId} {interfaces : List TypeId}
    (hsuper : ∀ s, superType = some s → P s) (hinterfaces : ∀ i ∈ interfaces, P i)
    (cs : Candidates) :
    cs.collect w sig superType interfaces = cs.collect v sig superType interfaces := by
  have hpending : ∀ p ∈ interfaces.map Pending.interface ++
      (superType.map (Pending.superclass · 0)).toList, P p.type :=
    Pending.forall_mem_iff.2 ⟨hinterfaces, hsuper⟩
  obtain ⟨hsweep, hdeclared⟩ := @sweep_congr v w P h sig cs.expanded _ hpending
  simp only [Candidates.collect, hsweep, h.record_congr hdeclared, h.maxDepth]

/-- Views that agree find the same candidates above a class. -/
theorem collectFromClass_congr {t : TypeId} {c : ClassDef} (ht : P t) (hc : v.definition t = some c)
    (sig : MethodSig) (cs : Candidates) :
    cs.collectFromClass w sig c = cs.collectFromClass v sig c :=
  h.collect_congr sig (fun _ hs => h.mem_superType ht hc hs)
    (fun _ hi => h.mem_interfaces ht hc hi) cs

/-- Views that agree make the same choice among superinterfaces. -/
theorem resolveInherited_congr {t : TypeId} {c : ClassDef} (ht : P t) (hc : v.definition t = some c)
    (sig : MethodSig) : w.resolveInherited c sig = v.resolveInherited c sig := by
  rw [resolveInherited, resolveInherited, h.collectFromClass_congr ht hc]

/-! ### Method references -/

/-- **The climb** on the part. -/
theorem climb_congr (htyped : v.Typed) (sig : MethodSig) (holder : TypeId) {c : ClassDef}
    (ht : P c.type) (hc : v.definition c.type = some c) (links : Nat) :
    w.climb sig holder c links = v.climb sig holder c links := by
  have htable : (w.table c.type).method? sig = (v.table c.type).method? sig := by rw [h.table ht]
  cases hp : v.polymorphic? c sig.name with
  | some m => rw [climb_polymorphic ((h.polymorphic? c _).trans hp), climb_polymorphic hp]
  | none =>
      have hp' := (h.polymorphic? c _).trans hp
      cases hm : (v.table c.type).method? sig with
      | some m => rw [climb_declares hp' (htable.trans hm), climb_declares hp hm]
      | none =>
          have hm' := htable.trans hm
          have hsuper : c.superType.bind w.definition = c.superType.bind v.definition :=
            Option.bind_congr fun s hs => h.definition (h.mem_superType ht hc hs)
          cases hs : c.superType.bind v.definition with
          | none => rw [climb_top hp' hm' (hsuper.trans hs), climb_top hp hm hs]
          | some d =>
              have hs' := hsuper.trans hs
              obtain ⟨s, hs₀, hd⟩ := Option.bind_eq_some_iff.1 hs
              obtain rfl : d.type = s := htyped hd
              by_cases hmax : links = maxLinks
              · rw [hmax, climb_overflow hp' hm' hs', climb_overflow hp hm hs]
              · by_cases hl : v.bound ≤ links
                · rw [climb_cut hp' hm' hs' (h.bound.symm ▸ hl) hmax, climb_cut hp hm hs hl hmax,
                    h.maxDepth]
                · have hl' : links < w.bound := h.bound.symm ▸ Nat.not_le.1 hl
                  rw [climb_super hp' hm' hs' hl', climb_super hp hm hs (Nat.not_le.1 hl),
                    climb_congr htyped sig holder (h.mem_superType ht hc hs₀) hd]
termination_by v.bound - links

/-- Views that agree resolve a reference to a defined class alike. -/
theorem resolveOnClassDef_congr (htyped : v.Typed) {c : ClassDef} (ht : P c.type)
    (hc : v.definition c.type = some c) (sig : MethodSig) :
    w.resolveOnClassDef c sig = v.resolveOnClassDef c sig := by
  rw [resolveOnClassDef, resolveOnClassDef, h.climb_congr htyped sig c.type ht hc,
    h.resolveInherited_congr ht hc]

/-- Views that agree resolve a reference to a type that is not an array alike. -/
theorem resolveOnPlainClass_congr (htyped : v.Typed) {holder : TypeId} (ht : P holder)
    (sig : MethodSig) : w.resolveOnPlainClass holder sig = v.resolveOnPlainClass holder sig := by
  rw [resolveOnPlainClass, resolveOnPlainClass, h.definition ht]
  cases hc : v.definition holder with
  | none => rfl
  | some c =>
      obtain rfl : c.type = holder := htyped hc
      simp only [h.resolveOnClassDef_congr htyped ht hc]

section Root

variable (htyped : v.Typed) (hobject : P v.wellKnown.object)
include htyped hobject

/-- Array types have the methods of the root class. -/
theorem resolveOnArray_congr (sig : MethodSig) : w.resolveOnArray sig = v.resolveOnArray sig := by
  rw [resolveOnArray, resolveOnArray, h.wellKnown, h.resolveOnPlainClass_congr htyped hobject]

omit htyped in
/-- Views that agree resolve a reference to a defined interface alike. -/
theorem resolveOnInterfaceDef_congr {c : ClassDef} (ht : P c.type)
    (hc : v.definition c.type = some c) (sig : MethodSig) :
    w.resolveOnInterfaceDef c sig = v.resolveOnInterfaceDef c sig := by
  simp only [resolveOnInterfaceDef, h.readMethod ht, h.wellKnown, h.definition hobject,
    h.readMethod hobject, h.resolveInherited_congr ht hc]

/-- Views that agree resolve a class reference alike. -/
theorem resolveOnClass_congr {holder : TypeId} (ht : P holder) (sig : MethodSig) :
    w.resolveOnClass holder sig = v.resolveOnClass holder sig := by
  rw [resolveOnClass, resolveOnClass, h.isArray, h.resolveOnArray_congr htyped hobject,
    h.resolveOnPlainClass_congr htyped ht]

/-- Views that agree resolve an interface reference alike. -/
theorem resolveOnInterface_congr {holder : TypeId} (ht : P holder) (sig : MethodSig) :
    w.resolveOnInterface holder sig = v.resolveOnInterface holder sig := by
  rw [resolveOnInterface, resolveOnInterface, h.isArray, h.definition ht]
  cases hc : v.definition holder with
  | none => rfl
  | some c =>
      obtain rfl : c.type = holder := htyped hc
      simp only [h.resolveOnInterfaceDef_congr hobject ht hc]

/-- Views that agree resolve a reference with a hint alike. -/
theorem resolve_congr {holder : TypeId} (ht : P holder) (sig : MethodSig) (isInterface : Bool) :
    w.resolve holder sig isInterface = v.resolve holder sig isInterface := by
  rw [resolve, resolve, h.resolveOnClass_congr htyped hobject ht,
    h.resolveOnInterface_congr htyped hobject ht]

/-- Views that agree resolve a reference that follows the definition alike. -/
theorem resolveStructural_congr {holder : TypeId} (ht : P holder) (sig : MethodSig) :
    w.resolveStructural holder sig = v.resolveStructural holder sig := by
  rw [resolveStructural, resolveStructural, h.isArray, h.definition ht,
    h.resolveOnArray_congr htyped hobject]
  cases hc : v.definition holder with
  | none => rfl
  | some c =>
      obtain rfl : c.type = holder := htyped hc
      simp only [h.resolveOnInterfaceDef_congr hobject ht hc,
        h.resolveOnClassDef_congr htyped ht hc]

end Root

/-! ### Look-ups beside resolution -/

/-- Views that agree find the same target that a type inherits. -/
theorem inheritedTarget_congr {t : TypeId} (ht : P t) (sig : MethodSig) :
    w.inheritedTarget t sig = v.inheritedTarget t sig := by
  rw [inheritedTarget, inheritedTarget, h.definition ht]
  cases hc : v.definition t with
  | none => rfl
  | some c => simp only [h.collectFromClass_congr ht hc]

/-- Views that agree find the same target of a lambda. -/
theorem lambdaTarget_congr {interfaces : List TypeId} (hobject : P v.wellKnown.object)
    (hinterfaces : ∀ i ∈ interfaces, P i) (sig : MethodSig) :
    w.lambdaTarget interfaces sig = v.lambdaTarget interfaces sig := by
  rw [lambdaTarget, lambdaTarget, h.wellKnown,
    h.collect_congr sig (fun s hs => Option.some.inj hs ▸ hobject) hinterfaces]

/-- Views that agree find the same method on the type itself. -/
theorem directOnItself_congr {context : TypeId} (ht : P context) (ref : MethodRef) :
    w.directOnItself ref context = v.directOnItself ref context := by
  have hdirect : w.isDirect = v.isDirect := by
    funext m
    rw [View.isDirect, View.isDirect, h.wellKnown]
  rw [directOnItself, directOnItself, h.definition ht, h.readMethod ht, hdirect]

/-- **The same answers** for queries that name types of the part. -/
theorem run_congr (htyped : v.Typed) (hobject : P v.wellKnown.object) {q : Query}
    (hq : ∀ t ∈ q.named, P t) : q.run w = q.run v := by
  cases q <;> simp only [Query.named, List.mem_singleton, forall_eq] at hq
  case resolveOnClass holder sig =>
    rw [Query.run, Query.run, h.resolveOnClass_congr htyped hobject hq]
  case resolveOnInterface holder sig =>
    rw [Query.run, Query.run, h.resolveOnInterface_congr htyped hobject hq]
  case resolve holder sig isInterface =>
    rw [Query.run, Query.run, h.resolve_congr htyped hobject hq]
  case resolveStructural holder sig =>
    rw [Query.run, Query.run, h.resolveStructural_congr htyped hobject hq]
  case resolveField holder sig =>
    rw [Query.run, Query.run, resolveField, resolveField,
      h.searchField_congr sig (by simpa using hq)]
  case inheritedTarget t sig => rw [Query.run, Query.run, h.inheritedTarget_congr hq]
  case lambdaTarget interfaces sig => rw [Query.run, Query.run, h.lambdaTarget_congr hobject hq]
  case staticTarget ref context =>
    rw [Query.run, Query.run, staticTarget, staticTarget, h.directOnItself_congr hq]
  case directTarget ref context =>
    rw [Query.run, Query.run, directTarget, directTarget, h.directOnItself_congr hq]
  case definition t => rw [Query.run, Query.run, h.definition hq]
  case method ref => rw [Query.run, Query.run, h.readMethod hq]
  case field ref => rw [Query.run, Query.run, h.readField hq]
  case members t => rw [Query.run, Query.run, h.table hq]

end Agree

/-- A type is one of the given types or lies above one of them: definitions name it as a super type
or an interface, step by step. -/
def Above (v : View) (roots : List TypeId) (t : TypeId) : Prop :=
  ∃ r ∈ roots, ReflTransGen v.Below r t

/-- The types from which one starts count as above themselves. -/
theorem above_of_mem {v : View} {roots : List TypeId} {t : TypeId} (h : t ∈ roots) :
    v.Above roots t :=
  ⟨t, h, .refl⟩

/-- No link leads out of what is above some types. -/
theorem Above.step {v : View} {roots : List TypeId} {t u : TypeId} (h : v.Above roots t)
    (hstep : v.Below t u) : v.Above roots u := by
  obtain ⟨r, hr, hpath⟩ := h
  exact ⟨r, hr, hpath.tail hstep⟩

/-- A type that is not one of some types, and that no definition above them names, is not above
them. -/
theorem not_above {v : View} {roots : List TypeId} {t : TypeId} (hroot : t ∉ roots)
    (hnamed : ∀ u d, v.Above roots u → v.definition u = some d → t ∉ d.supertypes) :
    ¬ v.Above roots t := by
  rintro ⟨r, hr, hpath⟩
  rcases hpath.cases_tail with rfl | ⟨u, hru, d, hd, hmem⟩
  · exact hroot hr
  · exact hnamed u d ⟨r, hr, hru⟩ hd hmem

end View

namespace Query

/-- **A query depends on what is above the types it names**, and on what is above the root class.
If two views agree there, they give the same answer, by the same reads and with the same warnings,
whatever they say of other types. -/
theorem run_eq_of_agree {v w : View} (htypes : w.types = v.types)
    (hdepth : w.maxDepth = v.maxDepth) (htyped : v.Typed) (q : Query)
    (hsame : ∀ t, v.Above (v.wellKnown.object :: q.named) t →
      w.definition t = v.definition t ∧ w.table t = v.table t) : q.run w = q.run v := by
  have hagree : v.Agree w (v.Above (v.wellKnown.object :: q.named)) :=
    { types := htypes
      maxDepth := hdepth
      closed := View.Above.step
      definition := fun ht => (hsame _ ht).1
      table := fun ht => (hsame _ ht).2 }
  exact hagree.run_congr htyped (View.above_of_mem List.mem_cons_self)
    fun t ht => View.above_of_mem (List.mem_cons_of_mem _ ht)

/-! ### A class that is not looked at -/

/-- An interface that lists itself and another one, which is not known. -/
def loop : ClassDef := { ClassDef.ofInterface ⟨50⟩ with interfaces := [⟨50⟩, ⟨51⟩] }

/-- The store of this interface alone. -/
def loopStore : ClassStore := ClassStore.empty.put loop

/-- The same store with a class below the interface. -/
def loopStoreBelow : ClassStore :=
  loopStore.put { ClassDef.ofClass ⟨52⟩ (some ⟨51⟩) with interfaces := [⟨50⟩] }

/-- A reference to the interface means the same in both stores. -/
theorem run_loop :
    (View.ofStore .fresh loopStore 20).Typed ∧
    (∀ t, (View.ofStore .fresh loopStore 20).Above [.object, ⟨50⟩] t →
      loopStoreBelow.get? t = loopStore.get? t) ∧
    ∀ sig, (resolveStructural ⟨50⟩ sig).run (View.ofStore .fresh loopStoreBelow 20) =
      (resolveStructural ⟨50⟩ sig).run (View.ofStore .fresh loopStore 20) := by
  have htyped : (View.ofStore .fresh loopStore 20).Typed := (View.coherent_ofStore _ _ _).typed
  have hnamed : ∀ e ∈ loopStore.classes.entries, (⟨52⟩ : TypeId) ∉ e.2.supertypes := by decide
  have hsame : ∀ t, (View.ofStore .fresh loopStore 20).Above [.object, ⟨50⟩] t →
      loopStoreBelow.get? t = loopStore.get? t := by
    rintro t ⟨r, hr, hpath⟩
    rw [loopStoreBelow, ClassStore.get?_put, if_neg]
    rintro rfl
    -- the class is not one of the roots, and no definition names it
    rcases hpath.cases_tail with rfl | ⟨u, -, c, hc, hmem⟩
    · exact absurd hr (by decide)
    · exact hnamed (u, c) (OrderedMap.mem_entries_iff.2 hc) hmem
  have hobject : (View.ofStore .fresh loopStore 20).wellKnown.object = .object := by
    decide +kernel
  refine ⟨htyped, hsame, fun sig => ?_⟩
  refine @run_eq_of_agree (.ofStore .fresh loopStore 20) (.ofStore .fresh loopStoreBelow 20) rfl rfl
    htyped _ fun t ht => ?_
  rw [hobject] at ht
  have hget := hsame t ht
  exact ⟨hget, congrArg MemberTable.ofDefinition? hget⟩

end Query

end Linkage
