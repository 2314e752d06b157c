import Linkage.Proofs.Rebinding

/-!
# Methods that are Called Directly

Static methods, private methods and initialisers are not dispatched: a call names the class that
declares them. Two look-ups find such a method on the class that a reference names, one of them the
static methods and the other one the rest. They read the class's own table and nothing else.
Resolution takes another way. It looks for a signature-polymorphic method first, by its name alone,
and goes on to superclasses and superinterfaces if the class has nothing. This module shows that the
two ways do not disagree: the look-ups find what the class resolves the reference to itself.

A signature-polymorphic method that was found by its name alone has another signature than the
reference, and the look-ups do not find it.

## Main definitions

* `View.CalledDirectly`: what the two look-ups are to find.

## Main results

* `method?_table_iff`: what a type declares is what it resolves to itself by the same signature.
* `value_staticTarget_eq_some_iff`, `value_directTarget_eq_some_iff`: what the look-ups find.
* `onItself_agrees`: they agree with resolution, and exclude each other.
-/

namespace Linkage

namespace View

variable {v : View} {ref : MethodRef} {context t : TypeId} {sig : MethodSig} {m : Method}

/-- **A method is called directly** where the reference stands: the reference names the class in
whose context it stands, which is a class of the program and resolves it to a method of its own,
by the very signature; and this method is static, private or an initialiser. -/
structure CalledDirectly (v : View) (ref : MethodRef) (context : TypeId) (m : Method) : Prop where
  holder : ref.holder = context
  program : ∃ c, v.definition context = some c ∧ c.origin.isProgram = true
  resolves : (v.resolveStructural context ref.sig).value = .ok (.single context context m)
  sig : m.sig = ref.sig
  direct : m.access.isStatic = true ∨ m.access.isPrivate = true ∨
    m.sig.name = v.wellKnown.initName ∨ m.sig.name = v.wellKnown.clinitName

/-- A call is direct if the method is static, private or an initialiser. -/
theorem isDirect_iff : v.isDirect m = true ↔ m.access.isStatic = true ∨ m.access.isPrivate = true ∨
    m.sig.name = v.wellKnown.initName ∨ m.sig.name = v.wellKnown.clinitName := by
  simp only [isDirect, Bool.or_eq_true, beq_iff_eq, or_assoc]

/-- **What a type declares is what it resolves to itself** by the same signature, be it a class or
an interface, and also where methods are found by name. -/
theorem method?_table_iff (hcoherent : v.Coherent)
    (harrays : ∀ t, v.isArray t = true → v.definition t = none) :
    (v.table t).method? sig = some m ↔
      (v.resolveStructural t sig).value = .ok (.single t t m) ∧ m.sig = sig := by
  rw [← declares_iff hcoherent]
  constructor
  · intro hdeclares
    have hsig := hdeclares.sig_eq
    refine ⟨?_, hsig⟩
    exact (value_resolveStructural_eq_single_iff hcoherent harrays (.inl hdeclares)).2
      fun _ _ _ => hsig
  · rintro ⟨hresolves, rfl⟩
    have hrun : ((Query.resolveStructural t m.sig).run v).value =
        .ok (.resolution (.single t t m)) := Query.value_ofResolution_eq_iff.2 hresolves
    exact (supplies_of_run hcoherent rfl rfl hrun).declares

/-- What is found on a class that is named is declared there and called directly. -/
theorem value_directOnItself_eq_some_iff :
    (v.directOnItself ref context).value = some m ↔
      ref.holder = context ∧ (∃ c, v.definition context = some c ∧ c.origin.isProgram = true) ∧
        (v.table context).method? ref.sig = some m ∧ v.isDirect m = true := by
  rw [directOnItself]
  by_cases hholder : ref.holder = context
  · cases hc : v.definition context with
    | none => simp [hholder]
    | some c =>
        by_cases hprogram : c.origin.isProgram = true
        · simp [hholder, hprogram, Option.filter_eq_some_iff]
        · simp [hholder, hprogram]
  · simp [hholder]

/-- So resolution finds it as well, and the other way round. -/
theorem value_directOnItself_iff (hcoherent : v.Coherent)
    (harrays : ∀ t, v.isArray t = true → v.definition t = none) :
    (v.directOnItself ref context).value = some m ↔ v.CalledDirectly ref context m := by
  rw [value_directOnItself_eq_some_iff, method?_table_iff hcoherent harrays, isDirect_iff]
  constructor
  · rintro ⟨hholder, hprogram, ⟨hresolves, hsig⟩, hdirect⟩
    exact ⟨hholder, hprogram, hresolves, hsig, hdirect⟩
  · intro h
    exact ⟨h.holder, h.program, ⟨h.resolves, h.sig⟩, h.direct⟩

section Targets

variable (hcoherent : v.Coherent) (harrays : ∀ t, v.isArray t = true → v.definition t = none)
include hcoherent harrays

/-- The look-up for static methods finds those that are static. -/
theorem value_staticTarget_eq_some_iff :
    (v.staticTarget ref context).value = some m ↔
      v.CalledDirectly ref context m ∧ m.access.isStatic = true := by
  rw [staticTarget, Walk.value_bind, Walk.value_pure, Option.filter_eq_some_iff,
    value_directOnItself_iff hcoherent harrays]

/-- The other look-up finds those that are not. -/
theorem value_directTarget_eq_some_iff :
    (v.directTarget ref context).value = some m ↔
      v.CalledDirectly ref context m ∧ m.access.isStatic = false := by
  rw [directTarget, Walk.value_bind, Walk.value_pure, Option.filter_eq_some_iff,
    value_directOnItself_iff hcoherent harrays, Bool.not_eq_true']

end Targets

/-- **The look-ups agree with resolution.** At most one of the two finds something. Whatever one of
them finds is called directly: the reference names the class where it stands, which is one of the
program, and resolves to just this method there. Whatever is called directly is found by the look-up
that its static flag tells, and the other one finds nothing. -/
theorem onItself_agrees (hcoherent : v.Coherent)
    (harrays : ∀ t, v.isArray t = true → v.definition t = none) (ref : MethodRef)
    (context : TypeId) :
    ((v.staticTarget ref context).value = none ∨ (v.directTarget ref context).value = none) ∧
    (∀ m, (v.staticTarget ref context).value = some m ∨
        (v.directTarget ref context).value = some m → v.CalledDirectly ref context m) ∧
    ∀ m, v.CalledDirectly ref context m →
      (v.staticTarget ref context).value = (if m.access.isStatic then some m else none) ∧
      (v.directTarget ref context).value = if m.access.isStatic then none else some m := by
  have hstatic (m : Method) : (v.staticTarget ref context).value = some m ↔
      v.CalledDirectly ref context m ∧ m.access.isStatic = true :=
    value_staticTarget_eq_some_iff hcoherent harrays
  have hdirect (m : Method) : (v.directTarget ref context).value = some m ↔
      v.CalledDirectly ref context m ∧ m.access.isStatic = false :=
    value_directTarget_eq_some_iff hcoherent harrays
  have hone : (v.staticTarget ref context).value = none ∨
      (v.directTarget ref context).value = none := by
    by_contra hboth
    obtain ⟨m, hm⟩ := Option.ne_none_iff_exists'.1 fun h => hboth (.inl h)
    obtain ⟨n, hn⟩ := Option.ne_none_iff_exists'.1 fun h => hboth (.inr h)
    obtain ⟨hm, hs⟩ := (hstatic m).1 hm
    obtain ⟨hn, hs'⟩ := (hdirect n).1 hn
    -- a reference resolves to one method
    obtain rfl : m = n := by simpa using hm.resolves.symm.trans hn.resolves
    simp [hs] at hs'
  refine ⟨hone, ?_, ?_⟩
  · rintro m (hm | hm)
    · exact ((hstatic m).1 hm).1
    · exact ((hdirect m).1 hm).1
  · intro m hm
    cases hs : m.access.isStatic with
    | true =>
        have hfound := (hstatic m).2 ⟨hm, hs⟩
        exact ⟨hfound, hone.resolve_left (by simp [hfound])⟩
    | false =>
        have hfound := (hdirect m).2 ⟨hm, hs⟩
        exact ⟨hone.resolve_right (by simp [hfound]), hfound⟩

/-! ### A signature-polymorphic method that is static -/

/-- A static method that takes its arguments as one array of objects. -/
def staticInvoker : Method := { invoker with access := .union .staticFlag invoker.access }

/-- The first of the method-handle classes, with this method. -/
def handleClass : ClassDef := { ClassDef.ofClass ⟨11⟩ none with methods := [staticInvoker] }

/-- A view of this class. -/
def handleView : View := .ofStore handles.types (ClassStore.empty.put handleClass) 20

/-- No array type is defined in this view. -/
theorem definition_handleView_of_isArray {t : TypeId} (ht : handleView.isArray t = true) :
    handleView.definition t = none := by
  refine (ClassStore.get?_put _ _ t).trans (if_neg ?_)
  rintro rfl
  have harray := isArray_handles (t := handleClass.type) (d := handleInterface) rfl
  exact Bool.false_ne_true (harray.symm.trans ht)

/-- Resolution finds the method by its name and the look-up by its signature, and it is the same
method. With another prototype, resolution still finds it and the look-ups do not. -/
theorem onItself_handleView :
    handleView.Coherent ∧ (∀ t, handleView.isArray t = true → handleView.definition t = none) ∧
    handleView.SignaturePolymorphic handleClass staticInvoker.sig.name staticInvoker ∧
    (handleView.resolveStructural ⟨11⟩ staticInvoker.sig).value =
      .ok (.single ⟨11⟩ ⟨11⟩ staticInvoker) ∧
    (handleView.staticTarget ⟨⟨11⟩, staticInvoker.sig⟩ ⟨11⟩).value = some staticInvoker ∧
    (handleView.directTarget ⟨⟨11⟩, staticInvoker.sig⟩ ⟨11⟩).value = none := by
  have hcoherent : handleView.Coherent := coherent_ofStore _ _ _
  have harrays : ∀ t, handleView.isArray t = true → handleView.definition t = none :=
    fun _ => definition_handleView_of_isArray
  obtain ⟨-, hfound, hdirect⟩ := onItself_agrees hcoherent harrays ⟨⟨11⟩, staticInvoker.sig⟩ ⟨11⟩
  have hcalled := hfound staticInvoker (.inl rfl)
  exact ⟨hcoherent, harrays, polymorphic?_eq_some_iff.1 (by decide +kernel), hcalled.resolves,
    hdirect _ hcalled⟩

end View

end Linkage
