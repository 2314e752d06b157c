import Linkage.Proofs.Provenance

/-!
# What Interfaces Inherit

A reference to an interface may mean a method that the interface does not declare. Such a method is
inherited: from the root class, or from a superinterface. What superinterfaces hand on are instance
methods. From the root class interfaces are meant to inherit the public instance methods, and the
search asks whether a method is public and has a body. That is not the same: a public static method
has a body, too.

Here it is said exactly when a reference to an interface means an inherited method that cannot be
the target of virtual dispatch: if the root class declares it, public, with a body, and static or
private as well, and the interface does not declare one of this signature itself. With a root class
that has no such method, all that interfaces inherit are instance methods.

## Main definitions

* `Query.OnInterface`: the ways to resolve a reference to an interface.
* `View.rootMethod?`: what interfaces are given from the root class.

## Main results

* `resolveOnInterfaceDef_eq_single_iff`: where an inherited method comes from.
* `isVirtualTarget_of_target?`: superinterfaces hand on instance methods.
* `inherits_not_virtual_iff`: when something else is inherited.
-/

namespace Linkage

namespace Query

/-- The ways to resolve a reference to an interface: as one that is said to be to an interface, or
one whose kind the interface itself decides. -/
inductive OnInterface (holder : TypeId) (sig : MethodSig) : Query → Prop
  | said : OnInterface holder sig (.resolveOnInterface holder sig)
  | hinted : OnInterface holder sig (.resolve holder sig true)
  | structural : OnInterface holder sig (.resolveStructural holder sig)

/-- A reference on an interface is one to the interface. -/
theorem OnInterface.resolvedOn? {holder : TypeId} {sig : MethodSig} {q : Query}
    (h : q.OnInterface holder sig) : q.resolvedOn? = some holder := by
  cases h <;> rfl

/-- It looks for its signature. -/
theorem OnInterface.sig? {holder : TypeId} {sig : MethodSig} {q : Query}
    (h : q.OnInterface holder sig) : q.sig? = some sig := by
  cases h <;> rfl

end Query

namespace View

variable {v : View} {c : ClassDef} {sig : MethodSig} {t : TypeId} {m : Method}

/-- What interfaces are given from the root class: a method that is public and has a body. -/
def rootMethod? (v : View) (sig : MethodSig) : Option Method :=
  ((v.table v.wellKnown.object).method? sig).filter
    fun m => m.access.isPublic && !m.access.isAbstract

/-- The method of the root class that an interface may have is a public one with a body. -/
theorem rootMethod?_eq_some_iff (hcoherent : v.Coherent) :
    v.rootMethod? sig = some m ↔
      v.Declares v.wellKnown.object sig m ∧ m.access.isPublic = true ∧
        m.access.isAbstract = false := by
  rw [rootMethod?, Option.filter_eq_some_iff, declares_iff hcoherent]
  simp

/-! ### The two sources -/

/-- **What superinterfaces hand on are instance methods.** -/
theorem isVirtualTarget_of_target? (htyped : v.Typed)
    (h : (Candidates.empty.collectFromClass v sig c).value.target? = some (t, m))
    (initial : TypeId) : (Resolution.single initial t m).isVirtualTarget = true := by
  have hoffered := Candidates.mem_offers_of_target? h
  have hfound := (Candidates.shadowing_collectFromClass htyped sig c).offers_sublist.subset hoffered
  obtain ⟨d, hd, heq⟩ := List.mem_map.1 hfound
  obtain ⟨rfl, rfl⟩ := Prod.mk.inj heq
  obtain ⟨-, -, hm⟩ := (Candidates.mem_found htyped).1 hd
  have hinheritable := (Option.filter_eq_some_iff.1 hm).2
  rw [Method.isInheritable, Bool.and_comm] at hinheritable
  exact hinheritable

/-- **Where an inherited method comes from.** The interface does not declare one, and the root class
is known: it has the method to give, or else the superinterfaces have. -/
theorem resolveOnInterfaceDef_eq_single_iff (hcoherent : v.Coherent)
    (hc : v.definition c.type = some c) (hne : t ≠ c.type) :
    (v.resolveOnInterfaceDef c sig).value = .single c.type t m ↔
      c.method? sig = none ∧
        (t = v.wellKnown.object ∧ v.rootMethod? sig = some m ∨
          (v.definition v.wellKnown.object).isSome ∧ v.rootMethod? sig = none ∧
            (Candidates.empty.collectFromClass v sig c).value.target? = some (t, m)) := by
  have htable : (v.table c.type).method? sig = c.method? sig := by
    rw [hcoherent.method?_table, hc, Option.bind_some]
  rw [resolveOnInterfaceDef, Walk.value_bind, value_readMethod, htable]
  cases hm : c.method? sig with
  | some n =>
      simp only [Walk.value_pure, Resolution.single.injEq, reduceCtorEq, false_and, iff_false]
      exact fun h => hne h.2.1.symm
  | none =>
      cases hobject : v.definition v.wellKnown.object with
      | none =>
          have hnone : v.rootMethod? sig = none := by
            rw [rootMethod?, hcoherent.method?_table, hobject]
            rfl
          simp [hobject, hnone]
      | some o =>
          simp only [hobject, Walk.value_bind, value_readMethod]
          rw [← rootMethod?]
          cases hroot : v.rootMethod? sig with
          | some n => simp [eq_comm]
          | none =>
              simp only [resolveInherited, Walk.value_bind, Walk.value_pure,
                Candidates.resolve_eq_single_iff]
              simp

/-! ### Every way to resolve -/

/-- A reference to an interface is resolved on its definition. -/
theorem run_of_onInterface {holder : TypeId} {q : Query} (hq : q.OnInterface holder sig)
    (harray : v.isArray holder = false) (hc : v.definition holder = some c)
    (hinterface : c.isInterface = true) :
    (q.run v).value = .ok (.resolution (v.resolveOnInterfaceDef c sig).value) := by
  cases hq <;>
    simp [Query.run, resolve, resolveOnInterface, resolveStructural, harray, hc, hinterface,
      Answer.ofResolution]

/-- An array type that is defined as an interface inherits nothing: the search begins at the root
class, and so only the root class could be found to be where it began. -/
theorem isArray_of_run (htyped : v.Typed) {holder : TypeId} {q : Query}
    (hq : q.OnInterface holder sig) (hc : v.definition holder = some c)
    (hinterface : c.isInterface = true)
    (h : (q.run v).value = .ok (.resolution (.single holder t m))) : v.isArray holder = false := by
  by_contra harray
  rw [Bool.not_eq_false] at harray
  have hjustified := justified_of_run htyped hq.resolvedOn? hq.sig? h
  obtain ⟨hholder, -⟩ := hjustified
  rw [start, if_pos harray] at hholder
  subst hholder
  cases hq with
  | said => simp [Query.run, resolveOnInterface, harray, Answer.ofResolution] at h
  | hinted => simp [Query.run, resolve, resolveOnInterface, harray, Answer.ofResolution] at h
  | structural =>
      rw [Query.run, resolveStructural, if_pos harray, resolveOnArray, resolveOnPlainClass, hc] at h
      split at h <;> simp [hinterface, Answer.ofResolution] at h

/-- **When interfaces inherit what is not an instance method.** A reference to an interface,
resolved in any of the three ways, means a method of another type that cannot be the target of
virtual dispatch exactly if this other type is the root class, which declares the method, public and
with a body, but static or private; and the interface declares no method of the signature itself.

So what an interface inherits from a superinterface is never static or private, and neither is what
it inherits from the root class, as long as the root class declares no such method. -/
theorem inherits_not_virtual_iff (hcoherent : v.Coherent) {holder : TypeId}
    (hc : v.definition holder = some c) (hinterface : c.isInterface = true) {q : Query}
    (hq : q.OnInterface holder sig) (hne : t ≠ holder) :
    (q.run v).value = .ok (.resolution (.single holder t m)) ∧
        (Resolution.single holder t m).isVirtualTarget = false ↔
      t = v.wellKnown.object ∧ v.isArray holder = false ∧ c.method? sig = none ∧
        v.Declares t sig m ∧ m.access.isPublic = true ∧ m.access.isAbstract = false ∧
        (m.access.isStatic = true ∨ m.access.isPrivate = true) := by
  obtain rfl : c.type = holder := hcoherent.typed hc
  have hvirtual : (Resolution.single c.type t m).isVirtualTarget = false ↔
      m.access.isStatic = true ∨ m.access.isPrivate = true := by
    change (!m.access.isStatic && !m.access.isPrivate) = false ↔ _
    rw [Bool.and_eq_false_iff, Bool.not_eq_false', Bool.not_eq_false']
  constructor
  · rintro ⟨hrun, hflags⟩
    have harray := isArray_of_run hcoherent.typed hq hc hinterface hrun
    rw [run_of_onInterface hq harray hc hinterface] at hrun
    have hsingle := Answer.resolution.inj (Except.ok.inj hrun)
    obtain ⟨hnone, ⟨rfl, hroot⟩ | ⟨-, -, htarget⟩⟩ :=
      (resolveOnInterfaceDef_eq_single_iff hcoherent hc hne).1 hsingle
    · obtain ⟨hdeclares, hpublic, hbody⟩ := (rootMethod?_eq_some_iff hcoherent).1 hroot
      exact ⟨rfl, harray, hnone, hdeclares, hpublic, hbody, hvirtual.1 hflags⟩
    · rw [isVirtualTarget_of_target? hcoherent.typed htarget] at hflags
      cases hflags
  · rintro ⟨rfl, harray, hnone, hdeclares, hpublic, hbody, hflags⟩
    have hroot := (rootMethod?_eq_some_iff hcoherent).2 ⟨hdeclares, hpublic, hbody⟩
    have hsingle := (resolveOnInterfaceDef_eq_single_iff hcoherent hc hne).2
      ⟨hnone, .inl ⟨rfl, hroot⟩⟩
    rw [run_of_onInterface hq harray hc hinterface, hsingle]
    exact ⟨rfl, hvirtual.2 hflags⟩

/-! ### A root class with a static method -/

/-- A signature that the root class below has a static method for. -/
def staticSig : MethodSig := ⟨⟨1⟩, ⟨0⟩⟩

/-- A public static method of the root class. -/
def staticMethod : Method := ⟨⟨0⟩, .object, staticSig, Access.publicFlag.union .staticFlag, none⟩

/-- A root class that declares it. -/
def staticRoot : ClassDef := { ClassDef.ofClass .object none with methods := [staticMethod] }

/-- A view of this class and of an interface without methods. -/
def belowStaticRoot : View :=
  .ofStore .fresh ((ClassStore.empty.put staticRoot).put (.ofInterface ⟨70⟩)) 20

/-- The definitions of this store are found under their own types. -/
theorem coherent_belowStaticRoot : belowStaticRoot.Coherent := coherent_ofStore _ _ _

/-- The root class has its usual number. -/
theorem object_belowStaticRoot : belowStaticRoot.wellKnown.object = .object := by decide +kernel

/-- The interface is no array type. -/
theorem isArray_belowStaticRoot : belowStaticRoot.isArray ⟨70⟩ = false := by decide +kernel

/-- The root class gives its static method to interfaces. -/
theorem rootMethod?_belowStaticRoot :
    belowStaticRoot.rootMethod? staticSig = some staticMethod := by
  rw [rootMethod?, object_belowStaticRoot]
  decide

/-- **An interface inherits a static method**, and so a reference to the interface means a method
that no instance has. -/
theorem resolveOnInterface_belowStaticRoot :
    belowStaticRoot.Coherent ∧ belowStaticRoot.definition ⟨70⟩ = some (.ofInterface ⟨70⟩) ∧
    (ClassDef.ofInterface ⟨70⟩).isInterface = true ∧
    (belowStaticRoot.resolveOnInterface ⟨70⟩ staticSig).value =
      .ok (.single ⟨70⟩ .object staticMethod) ∧
    TypeId.object ≠ ⟨70⟩ ∧ staticMethod.access.isStatic = true ∧
    (Resolution.single ⟨70⟩ .object staticMethod).isVirtualTarget = false := by
  have hsingle : (belowStaticRoot.resolveOnInterfaceDef (.ofInterface ⟨70⟩) staticSig).value =
      .single ⟨70⟩ .object staticMethod :=
    (resolveOnInterfaceDef_eq_single_iff (c := .ofInterface ⟨70⟩) coherent_belowStaticRoot rfl
      (by decide)).2 ⟨rfl, .inl ⟨object_belowStaticRoot.symm, rootMethod?_belowStaticRoot⟩⟩
  refine ⟨coherent_belowStaticRoot, rfl, by decide, ?_, by decide, by decide, by decide⟩
  rw [resolveOnInterface, if_neg (by simp [isArray_belowStaticRoot])]
  exact congrArg Except.ok hsingle

/-- It does so when the interface itself decides the kind of the reference, too. -/
theorem inherits_static_belowStaticRoot :
    belowStaticRoot.Coherent ∧ belowStaticRoot.definition ⟨70⟩ = some (.ofInterface ⟨70⟩) ∧
    (ClassDef.ofInterface ⟨70⟩).isInterface = true ∧ TypeId.object ≠ ⟨70⟩ ∧
    ((Query.resolveStructural ⟨70⟩ staticSig).run belowStaticRoot).value =
      .ok (.resolution (.single ⟨70⟩ .object staticMethod)) := by
  have hne : TypeId.object ≠ ⟨70⟩ := by decide
  have hq : Query.OnInterface ⟨70⟩ staticSig (.resolveStructural ⟨70⟩ staticSig) := .structural
  have hinherits := inherits_not_virtual_iff (c := .ofInterface ⟨70⟩) (m := staticMethod)
    coherent_belowStaticRoot rfl (by decide) hq hne
  refine ⟨coherent_belowStaticRoot, rfl, by decide, hne, (hinherits.2 ?_).1⟩
  exact ⟨object_belowStaticRoot.symm, isArray_belowStaticRoot, rfl, ⟨staticRoot, rfl, rfl⟩,
    by decide, by decide, .inl (by decide)⟩

end View

end Linkage
