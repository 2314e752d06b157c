import Linkage.Proofs.Provenance

/-!
# Rebinding Resolved References

A reference that was resolved may be written again, against the type that declares what was found;
it then means the same, found at once. For every way to resolve a method, this module says when the
result is found again where it came from. For fields the same is said of the one search.

There is one exception. A class finds a signature-polymorphic method by its name alone, and looks
for it along the whole chain of its superclasses. If a superclass is a method-handle class that is
flagged as an interface, such a method is found there, but found again only by its own signature:
interfaces know of no look-up by name (JVMS §5.4.3.4).

## Main results

* `supplies_of_run`: what a method reference means is supplied by the type that it resolved to.
* `value_resolveStructural_eq_single_iff`: when a method that a type supplies is found there again.
* `rebind_iff`: methods and fields that were found are found again.
* `resolveStructural_handles`: a method that is not.
-/

namespace Linkage

namespace View

variable {v : View} {sig : MethodSig} {a t : TypeId} {m : Method}

/-- A method that is declared for a signature has this signature. -/
theorem Declares.sig_eq (h : v.Declares t sig m) : m.sig = sig := by
  obtain ⟨d, -, hm⟩ := h
  exact ClassDef.sig_of_method? hm

/-! ### Where a result comes from -/

/-- What is chosen among the superinterfaces is declared by one of them. -/
theorem declares_of_resolveInherited (hcoherent : v.Coherent) {c : ClassDef}
    (h : (v.resolveInherited c sig).value = .single a t m) : v.Declares t sig m := by
  obtain ⟨-, htarget⟩ := Candidates.resolve_eq_single_iff.1 h
  have hmem := Candidates.mem_offers_of_target? htarget
  exact (declares_iff hcoherent).2 (Candidates.of_mem_offers hcoherent.typed hmem).2

/-- An interface resolves a reference to what a type declares: the interface itself, the root class,
or a superinterface. -/
theorem declares_of_resolveOnInterfaceDef (hcoherent : v.Coherent) {c : ClassDef}
    (h : (v.resolveOnInterfaceDef c sig).value = .single a t m) : v.Declares t sig m := by
  rw [resolveOnInterfaceDef, Walk.value_bind, value_readMethod] at h
  cases hm : (v.table c.type).method? sig with
  | some n =>
      rw [hm] at h
      obtain ⟨-, rfl, rfl⟩ : c.type = a ∧ c.type = t ∧ n = m := by simpa using h
      exact (declares_iff hcoherent).2 hm
  | none =>
      simp only [hm] at h
      cases hobject : v.definition v.wellKnown.object with
      | none =>
          rw [hobject] at h
          simp at h
      | some o =>
          simp only [hobject, Walk.value_bind, value_readMethod] at h
          split at h
          · next n hn =>
              obtain ⟨-, rfl, rfl⟩ : c.type = a ∧ v.wellKnown.object = t ∧ n = m := by simpa using h
              exact (declares_iff hcoherent).2 (Option.filter_eq_some_iff.1 hn).1
          · exact declares_of_resolveInherited hcoherent h

/-- **What a method reference means is supplied by the type it resolved to**, whatever kind of type
the reference is to, and whichever way it is resolved. -/
theorem supplies_of_run (hcoherent : v.Coherent) {q : Query} {holder : TypeId}
    (hholder : q.resolvedOn? = some holder) (hsig : q.sig? = some sig)
    (h : (q.run v).value = .ok (.resolution (.single a t m))) : v.Supplies t sig m :=
  (yields_iff hcoherent).1 (justified_of_run hcoherent.typed hholder hsig h).2.2.1

/-! ### Resolving again -/

/-- A signature-polymorphic method is the only one of its name. -/
theorem SignaturePolymorphic.eq_of_method? {c : ClassDef} {n : Method}
    (h : v.SignaturePolymorphic c sig.name n) (hm : c.method? sig = some m) : m = n := by
  have hmem : m ∈ c.methodsNamed sig.name := by
    rw [ClassDef.methodsNamed, List.mem_filter, ClassDef.sig_of_method? hm]
    exact ⟨ClassDef.mem_of_method? hm, beq_self_eq_true _⟩
  rw [h.2.1] at hmem
  exact List.mem_singleton.1 hmem

/-- It is found by its own signature as well. -/
theorem SignaturePolymorphic.method?_sig {c : ClassDef}
    (h : v.SignaturePolymorphic c m.sig.name m) : c.method? m.sig = some m := by
  have hmem : m ∈ c.methods := by
    have hnamed : m ∈ c.methodsNamed m.sig.name := by rw [h.2.1]; exact List.mem_singleton_self _
    exact List.mem_of_mem_filter hnamed
  have hsome : (c.method? m.sig).isSome := by
    rw [ClassDef.method?, List.find?_isSome]
    exact ⟨m, hmem, beq_self_eq_true _⟩
  obtain ⟨n, hn⟩ := Option.isSome_iff_exists.1 hsome
  rw [hn, h.eq_of_method? hn]

/-- A type declares what it supplies under the method's own signature. -/
theorem Supplies.declares (h : v.Supplies t m.sig m) : v.Declares t m.sig m := by
  rcases h with hdeclares | ⟨d, hd, hm⟩
  · exact hdeclares
  · exact ⟨d, hd, hm.method?_sig⟩

/-- A class finds what it supplies itself, and climbs no further. -/
theorem value_climb_of_supplies (hcoherent : v.Coherent) {c : ClassDef}
    (hc : v.definition c.type = some c) (h : v.Supplies c.type sig m) :
    (v.climb sig c.type c 0).value = .ok (some (.single c.type c.type m)) := by
  cases hp : v.polymorphic? c sig.name with
  | some n =>
      -- whatever is supplied has the name, and the name is taken by one method only
      have hn := polymorphic?_eq_some_iff.1 hp
      have heq : m = n := by
        rcases h with ⟨d, hd, hm⟩ | ⟨d, hd, hm⟩ <;> obtain rfl := Option.some.inj (hc.symm.trans hd)
        · exact hn.eq_of_method? hm
        · exact Option.some.inj ((polymorphic?_eq_some_iff.2 hm).symm.trans hp)
      rw [climb_polymorphic hp, Walk.value_pure, heq]
  | none =>
      rcases h with hdeclares | ⟨d, hd, hm⟩
      · rw [climb_declares hp ((declares_iff hcoherent).1 hdeclares), Walk.value_bind,
          Walk.value_pure, if_neg fun hprivate => hprivate.2 rfl]
      · obtain rfl := Option.some.inj (hc.symm.trans hd)
        rw [polymorphic?_eq_some_iff.2 hm] at hp
        cases hp

/-- An interface finds what it supplies itself only by its own signature. -/
theorem value_resolveOnInterfaceDef_eq_iff (hcoherent : v.Coherent) {c : ClassDef}
    (h : v.Supplies c.type sig m) :
    (v.resolveOnInterfaceDef c sig).value = .single c.type c.type m ↔ m.sig = sig := by
  constructor
  · intro hsingle
    exact (declares_of_resolveOnInterfaceDef hcoherent hsingle).sig_eq
  · rintro rfl
    rw [resolveOnInterfaceDef, Walk.value_bind, value_readMethod,
      (declares_iff hcoherent).1 h.declares]
    rfl

/-- **When a method is found again** where it is supplied: always on a class, and on an interface by
its own signature. -/
theorem value_resolveStructural_eq_single_iff (hcoherent : v.Coherent)
    (harrays : ∀ t, v.isArray t = true → v.definition t = none) (h : v.Supplies t sig m) :
    (v.resolveStructural t sig).value = .ok (.single t t m) ↔
      ∀ d, v.definition t = some d → d.isInterface = true → m.sig = sig := by
  obtain ⟨c, hc⟩ : ∃ c, v.definition t = some c := by
    rcases h with ⟨c, hc, -⟩ | ⟨c, hc, -⟩ <;> exact ⟨c, hc⟩
  obtain rfl : c.type = t := hcoherent.typed hc
  have harray : v.isArray c.type ≠ true := by
    intro harray
    rw [harrays _ harray] at hc
    cases hc
  rw [resolveStructural, if_neg harray, hc]
  by_cases hinterface : c.isInterface = true
  · simp only [hinterface, if_true, Walk.value_map, Except.ok.injEq,
      value_resolveOnInterfaceDef_eq_iff hcoherent h]
    constructor
    · exact fun hsig _ _ _ => hsig
    · exact fun hsig => hsig c rfl hinterface
  · simp only [hinterface, if_false, Bool.false_eq_true]
    rw [resolveOnClassDef, Walk.value_bind, value_climb_of_supplies hcoherent hc h]
    refine iff_of_true rfl fun d hd hd' => ?_
    obtain rfl := Option.some.inj hd
    exact absurd hd' hinterface

/-! ### Fields -/

/-- What the field search finds is declared by a type that it enters. -/
theorem exists_field?_of_searchField {sig : FieldSig} {f : Field} {searched : List TypeId}
    {pending : List (TypeId × Nat)} (h : (v.searchField sig searched pending).value = some f) :
    ∃ t c, v.definition t = some c ∧ (v.table t).field? sig = some f := by
  induction searched, pending using visits.induct v sig with
  | case1 searched =>
      rw [searchField_nil] at h
      cases h
  | case2 searched t depth rest hd ih => exact ih (by rwa [searchField_cut hd] at h)
  | case3 searched t depth rest hd ht ih =>
      exact ih (by rwa [searchField_searched (Nat.not_lt.1 hd) ht] at h)
  | case4 searched t depth rest hd ht hc ih =>
      exact ih (by rwa [searchField_undefined (Nat.not_lt.1 hd) ht hc] at h)
  | case5 searched t depth rest hd ht c hc g hg =>
      rw [searchField_declares (Nat.not_lt.1 hd) ht hc hg, Walk.value_bind, Walk.value_pure] at h
      exact ⟨t, c, hc, hg.trans h⟩
  | case6 searched t depth rest hd ht c hc hf _ ih =>
      exact ih (by rwa [searchField_expands (Nat.not_lt.1 hd) ht hc hf] at h)

/-- A type finds a field that it declares, and searches no further. -/
theorem value_resolveField_of_declares {sig : FieldSig} {f : Field} {c : ClassDef}
    (hc : v.definition t = some c) (hf : (v.table t).field? sig = some f) :
    (v.resolveField t sig).value = some f := by
  rw [resolveField, searchField_declares (Nat.zero_le _) List.not_mem_nil hc hf, Walk.value_bind,
    Walk.value_pure]

/-- **Resolved references can be rebound.** A method that a reference means is found on the type
where it was found, by the same signature, unless this type is an interface and the method was found
by name alone. A field is found on its own holder, if fields have the types that declare them as
holders. -/
theorem rebind_iff (hcoherent : v.Coherent)
    (harrays : ∀ t, v.isArray t = true → v.definition t = none) :
    (∀ (q : Query) (holder : TypeId) (sig : MethodSig) (a t : TypeId) (m : Method),
      q.resolvedOn? = some holder → q.sig? = some sig →
      (q.run v).value = .ok (.resolution (.single a t m)) →
      ((v.resolveStructural t sig).value = .ok (.single t t m) ↔
        ∀ d, v.definition t = some d → d.isInterface = true → m.sig = sig)) ∧
    ((∀ t c f, v.definition t = some c → f ∈ c.fields → f.holder = t) →
      ∀ (holder : TypeId) (sig : FieldSig) (f : Field),
        (v.resolveField holder sig).value = some f →
        (v.resolveField f.holder sig).value = some f) := by
  constructor
  · intro q holder sig a t m hholder hsig h
    exact value_resolveStructural_eq_single_iff hcoherent harrays
      (supplies_of_run hcoherent hholder hsig h)
  · intro hholders holder sig f h
    obtain ⟨t, c, hc, hf⟩ := exists_field?_of_searchField h
    have hmem : f ∈ c.fields := by
      rw [hcoherent.field?_table, hc, Option.bind_some] at hf
      exact List.mem_of_find?_eq_some hf
    rw [hholders t c f hc hmem]
    exact value_resolveField_of_declares hc hf

/-! ### A method-handle class that is an interface -/

/-- A native method that takes its arguments as one array of objects. -/
def invoker : Method :=
  ⟨⟨0⟩, ⟨11⟩, ⟨⟨1⟩, ⟨0⟩⟩, .union .varargsFlag .nativeFlag, none⟩

/-- A constant. -/
def token : Field := ⟨⟨11⟩, ⟨⟨2⟩, ⟨0⟩⟩, .staticFlag, none⟩

/-- The first of the method-handle classes, flagged as an interface. -/
def handleInterface : ClassDef :=
  { ClassDef.ofInterface ⟨11⟩ with methods := [invoker], fields := [token] }

/-- A class that extends it all the same. -/
def belowHandle : ClassDef := .ofClass ⟨70⟩ (some ⟨11⟩)

/-- A view of the two. -/
def handles : View :=
  .ofStore (TypeTable.internProto ⟨[⟨10⟩], .object⟩ .fresh).2
    ((ClassStore.empty.put handleInterface).put belowHandle) 20

/-- The definitions of this store are found under their own types. -/
theorem coherent_handles : handles.Coherent := coherent_ofStore _ _ _

/-- There are no definitions but these two. -/
theorem definition_handles {t : TypeId} {d : ClassDef} (h : handles.definition t = some d) :
    t = ⟨11⟩ ∧ d = handleInterface ∨ t = ⟨70⟩ ∧ d = belowHandle :=
  ClassStore.eq_of_get?_put_put h

/-- Neither type is an array type. -/
theorem isArray_handles {t : TypeId} {d : ClassDef} (h : handles.definition t = some d) :
    handles.isArray t = false := by
  have hboth : ∀ t ∈ ([⟨11⟩, ⟨70⟩] : List TypeId), handles.isArray t = false := by decide +kernel
  rcases definition_handles h with ⟨rfl, -⟩ | ⟨rfl, -⟩
  · exact hboth _ List.mem_cons_self
  · exact hboth _ (List.mem_cons_of_mem _ List.mem_cons_self)

/-- No array type is defined in this view. -/
theorem definition_handles_of_isArray {t : TypeId} (ht : handles.isArray t = true) :
    handles.definition t = none := by
  refine Option.eq_none_iff_forall_ne_some.2 fun d hd => ?_
  rw [isArray_handles hd] at ht
  exact Bool.false_ne_true ht

/-- The interface has the method under its name, whatever a reference says that it takes. -/
theorem signaturePolymorphic_handles : handles.SignaturePolymorphic handleInterface ⟨1⟩ invoker :=
  polymorphic?_eq_some_iff.1 (by decide +kernel)

/-- So the class below finds it with every prototype. -/
theorem value_resolveOnClass_handles (proto : ProtoId) :
    (handles.resolveOnClass ⟨70⟩ ⟨⟨1⟩, proto⟩).value = .ok (.single ⟨70⟩ ⟨11⟩ invoker) := by
  have hdefinition : handles.definition ⟨70⟩ = some belowHandle := rfl
  have hchain : belowHandle :: handles.superclasses handles.bound belowHandle.superType =
      [belowHandle] ++ handleInterface :: [] := by decide
  have hnone : handles.polymorphic? belowHandle ⟨1⟩ = none := by decide +kernel
  have hpre : ∀ e ∈ [belowHandle], handles.HasNothing ⟨⟨1⟩, proto⟩ e := by
    intro e he
    obtain rfl := List.mem_singleton.1 he
    exact ⟨polymorphic?_eq_none_iff.1 hnone, rfl⟩
  rw [value_resolveOnClass coherent_handles (by decide) (isArray_handles hdefinition) hdefinition
    rfl, hchain, findSome?_answer? hpre (answer?_of_polymorphic signaturePolymorphic_handles),
    Option.getD_some]
  rfl

/-- It finds the constant as well. -/
theorem value_resolveField_handles : (handles.resolveField ⟨70⟩ token.sig).value = some token := by
  rw [resolveField, searchField_expands (by decide) (by decide) rfl rfl, Walk.value_bind]
  change (handles.searchField token.sig [⟨70⟩] [(⟨11⟩, 1)]).value = _
  rw [searchField_declares (by decide) (by decide) rfl rfl, Walk.value_bind, Walk.value_pure]

/-- **It is not found again** on the interface with a prototype that is not its own. -/
theorem resolveStructural_handles :
    handles.Coherent ∧ (∀ t, handles.isArray t = true → handles.definition t = none) ∧
      (handles.resolveOnClass ⟨70⟩ ⟨⟨1⟩, ⟨1⟩⟩).value = .ok (.single ⟨70⟩ ⟨11⟩ invoker) ∧
      (handles.resolveStructural ⟨11⟩ ⟨⟨1⟩, ⟨1⟩⟩).value ≠ .ok (.single ⟨11⟩ ⟨11⟩ invoker) := by
  refine ⟨coherent_handles, fun _ => definition_handles_of_isArray,
    value_resolveOnClass_handles ⟨1⟩, fun h => ?_⟩
  have hsupplies : handles.Supplies ⟨11⟩ ⟨⟨1⟩, ⟨1⟩⟩ invoker :=
    .inr ⟨_, rfl, signaturePolymorphic_handles⟩
  have hsig : invoker.sig = ⟨⟨1⟩, ⟨1⟩⟩ :=
    (value_resolveStructural_eq_single_iff coherent_handles
      (fun _ => definition_handles_of_isArray) hsupplies).1 h _ rfl rfl
  exact absurd hsig (by decide)

/-- With its own prototype the method is found again, and so is the constant. -/
theorem rebind_handles :
    handles.Coherent ∧ (∀ t, handles.isArray t = true → handles.definition t = none) ∧
      (handles.resolveStructural ⟨11⟩ invoker.sig).value = .ok (.single ⟨11⟩ ⟨11⟩ invoker) ∧
      (handles.resolveField token.holder token.sig).value = some token := by
  have harrays : ∀ t, handles.isArray t = true → handles.definition t = none :=
    fun _ => definition_handles_of_isArray
  have hholders : ∀ t c f, handles.definition t = some c → f ∈ c.fields → f.holder = t := by
    intro t c f hc hf
    rcases definition_handles hc with ⟨rfl, rfl⟩ | ⟨rfl, rfl⟩
    · obtain rfl := List.mem_singleton.1 hf
      rfl
    · exact absurd hf List.not_mem_nil
  have hfound : ((Query.resolveOnClass ⟨70⟩ invoker.sig).run handles).value =
      .ok (.resolution (.single ⟨70⟩ ⟨11⟩ invoker)) :=
    congrArg Answer.ofResolution (value_resolveOnClass_handles invoker.sig.proto)
  obtain ⟨hmethods, hfields⟩ := rebind_iff coherent_handles harrays
  exact ⟨coherent_handles, harrays, (hmethods _ _ _ _ _ _ rfl rfl hfound).2 fun _ _ _ => rfl,
    hfields hholders _ _ _ value_resolveField_handles⟩

end View

end Linkage
