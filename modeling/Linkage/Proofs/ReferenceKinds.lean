import Linkage.Proofs.Provenance

/-!
# Ways to Resolve a Reference

A reference to a type can be resolved as one to a class, as one to an interface, or as whichever of
the two the definition of the type says. Here the ways are compared. Where the definition is
followed, the result is that of the way which fits it, walk and all; the other way is refused.

A refusal and a conflict of several methods are the same outcome, and are told apart by the list of
the methods that compete: it is empty for the one and not for the other. That this can be relied on
is the second part. Whichever way a reference is resolved, the methods of a list that is not empty
are several, and were found on as many superinterfaces; and where the definition is followed, a
reference to a type that is not an array is never refused.

Nothing is assumed of the view, not even that definitions are found under their own types. So what
is on record need not say where a method was found; the definition that was found there does.

## Main definitions

* `View.Competing`: methods were found on as many superinterfaces.

## Main results

* `competing_resolveInherited`: a choice among superinterfaces is in conflict about several.
* `ways_to_resolve_agree`: how the ways to resolve a reference are related.
-/

namespace Linkage

open Relation

namespace View

variable {v : View} {sig : MethodSig} {start holder : TypeId} {c : ClassDef} {ms : List Method}

/-! ### Methods that compete -/

/-- **Methods compete**: they are several, and were found on as many superinterfaces of a type. -/
def Competing (v : View) (start : TypeId) (sig : MethodSig) (ms : List Method) : Prop :=
  ∃ found : List (TypeId × Method), ms = found.map Prod.snd ∧ 2 ≤ found.length ∧
    (found.map Prod.fst).Nodup ∧ ∀ o ∈ found, v.Inherits start o.1 ∧
      (v.definition o.1).isSome ∧ (v.table o.1).method? sig = some o.2

/-- There are methods among those that compete. -/
theorem Competing.ne_nil (h : v.Competing start sig ms) : ms ≠ [] := by
  obtain ⟨found, rfl, hseveral, -⟩ := h
  rw [← List.length_pos_iff_ne_nil, List.length_map]
  omega

/-- **A choice among superinterfaces is in conflict about several.** A type is on record once, and
the interface where its method was found has a definition of that type; so methods of different
types on record were found on different interfaces. -/
theorem competing_resolveInherited (hc : v.definition holder = some c)
    (h : (v.resolveInherited c sig).value = .incompatibleClass ms) : v.Competing holder sig ms := by
  obtain ⟨hseveral, rfl⟩ := Candidates.resolve_eq_incompatibleClass_iff.1 h
  have hfound : ∀ o ∈ (Candidates.empty.collectFromClass v sig c).value.concreteOffers,
      ∃ t d, v.Inherits holder t ∧ v.definition t = some d ∧ d.type = o.1 ∧
        (v.table t).method? sig = some o.2 :=
    fun o ho => exists_inherits_of_mem_offers hc (List.mem_of_mem_filter ho)
  have hrecorded : ((Candidates.empty.collectFromClass v sig c).value.concreteOffers.map
      Prod.fst).Nodup :=
    (List.filter_sublist.map Prod.fst).nodup (Candidates.nodup_holders _)
  choose! source definition hinherits hdef htype hm using hfound
  refine ⟨_, (List.map_map (f := fun o => (source o, o.2)) (g := Prod.snd)).symm, ?_, ?_, ?_⟩
  · rwa [List.length_map]
  · rw [List.map_map]
    refine hrecorded.of_map.map_on fun o ho p hp hsource => ?_
    refine List.inj_on_of_nodup_map hrecorded ho hp ?_
    have hsame : definition o = definition p := by
      have hop := hdef o ho
      rw [show source o = source p from hsource, hdef p hp] at hop
      exact (Option.some.inj hop).symm
    rw [← htype o ho, ← htype p hp, hsame]
  · intro q hq
    obtain ⟨o, ho, rfl⟩ := List.mem_map.1 hq
    exact ⟨hinherits o ho, by rw [hdef o ho]; rfl, hm o ho⟩

/-- A climb is never in conflict. -/
theorem value_climb_ne_incompatibleClass (v : View) (sig : MethodSig) (holder : TypeId)
    (c : ClassDef) (ms : List Method) :
    (v.climb sig holder c 0).value ≠ .ok (some (.incompatibleClass ms)) := by
  intro h
  rw [value_climb_eq v sig holder c (Nat.zero_le _)] at h
  split at h
  · next r hr =>
    obtain ⟨d, -, hd⟩ := List.exists_of_findSome?_eq_some hr
    obtain rfl : r = .incompatibleClass ms := Option.some.inj (Except.ok.inj h)
    rw [findAt?] at hd
    split at hd
    · cases hd
    · obtain ⟨m, -, hm⟩ := Option.map_eq_some_iff.1 hd
      split at hm <;> cases hm
  · split at h <;> cases h

/-- The methods named in a conflict about a defined class compete. -/
theorem competing_resolveOnClassDef (hc : v.definition holder = some c)
    (h : (v.resolveOnClassDef c sig).value = .ok (.incompatibleClass ms)) :
    v.Competing holder sig ms := by
  have hclimb := v.value_climb_ne_incompatibleClass sig c.type c ms
  rw [resolveOnClassDef, Walk.value_bind] at h
  split at h
  · cases h
  · next r hr =>
    obtain rfl : r = .incompatibleClass ms := Except.ok.inj h
    exact absurd hr hclimb
  · exact competing_resolveInherited hc (Except.ok.inj h)

/-- The methods named in a conflict about a defined interface compete. -/
theorem competing_resolveOnInterfaceDef (hc : v.definition holder = some c)
    (h : (v.resolveOnInterfaceDef c sig).value = .incompatibleClass ms) :
    v.Competing holder sig ms := by
  rw [resolveOnInterfaceDef, Walk.value_bind] at h
  split at h
  · cases h
  · dsimp only at h
    split at h
    · cases h
    · rw [Walk.value_bind] at h
      split at h
      · cases h
      · exact competing_resolveInherited hc h

/-- A class reference is refused, or in conflict about several. -/
theorem competing_resolveOnPlainClass
    (h : (v.resolveOnPlainClass holder sig).value = .ok (.incompatibleClass ms)) :
    ms = [] ∨ v.Competing holder sig ms := by
  rw [resolveOnPlainClass] at h
  split at h
  · cases h
  · next c hc =>
    split at h
    · cases h
      exact .inl rfl
    · exact .inr (competing_resolveOnClassDef hc h)

/-- A reference to an array type is refused, or in conflict about several methods. -/
theorem competing_resolveOnArray
    (h : (v.resolveOnArray sig).value = .ok (.incompatibleClass ms)) :
    ms = [] ∨ v.Competing v.wellKnown.object sig ms := by
  rw [resolveOnArray] at h
  split at h
  · cases h
  · exact competing_resolveOnPlainClass h

/-- A class reference on any type is refused, or in conflict about several methods. -/
theorem competing_resolveOnClass
    (h : (v.resolveOnClass holder sig).value = .ok (.incompatibleClass ms)) :
    ms = [] ∨ v.Competing (v.start holder) sig ms := by
  rw [resolveOnClass] at h
  rw [start]
  split at h <;> rename_i harray <;> simp only [harray]
  · exact competing_resolveOnArray h
  · exact competing_resolveOnPlainClass h

/-- An interface reference is refused, or in conflict about several methods. -/
theorem competing_resolveOnInterface
    (h : (v.resolveOnInterface holder sig).value = .ok (.incompatibleClass ms)) :
    ms = [] ∨ v.Competing (v.start holder) sig ms := by
  rw [resolveOnInterface] at h
  rw [start]
  split at h <;> rename_i harray <;> simp only [harray]
  · cases h
    exact .inl rfl
  · split at h
    · cases h
    · next c hc =>
      split at h
      · exact .inr (competing_resolveOnInterfaceDef hc (Except.ok.inj h))
      · cases h
        exact .inl rfl

/-- Where the definition is followed, a type that is not an array is not refused. -/
theorem competing_of_not_isArray (harray : v.isArray holder = false)
    (h : (v.resolveStructural holder sig).value = .ok (.incompatibleClass ms)) :
    v.Competing holder sig ms := by
  rw [resolveStructural, if_neg (by simp [harray])] at h
  split at h
  · cases h
  · next c hc =>
    split at h
    · exact competing_resolveOnInterfaceDef hc (Except.ok.inj h)
    · exact competing_resolveOnClassDef hc h

/-- A reference that follows the definition is refused, or in conflict about several methods. -/
theorem competing_resolveStructural
    (h : (v.resolveStructural holder sig).value = .ok (.incompatibleClass ms)) :
    ms = [] ∨ v.Competing (v.start holder) sig ms := by
  cases harray : v.isArray holder with
  | true =>
      rw [resolveStructural, if_pos harray] at h
      rw [start, if_pos harray]
      exact competing_resolveOnArray h
  | false =>
      rw [start, if_neg (by simp [harray])]
      exact .inr (competing_of_not_isArray harray h)

/-- **Every outcome that names a conflict** is a refusal, or is about several methods. -/
theorem competing_of_run {q : Query} (hholder : q.resolvedOn? = some holder)
    (hsig : q.sig? = some sig)
    (h : (q.run v).value = .ok (.resolution (.incompatibleClass ms))) :
    ms = [] ∨ v.Competing (v.start holder) sig ms := by
  refine Query.resolution_cases (P := fun r => ∀ ms, r = .incompatibleClass ms →
    ms = [] ∨ v.Competing (v.start holder) sig ms) ?_ ?_ ?_ hholder hsig h ms rfl
  · rintro r hvalue ms rfl
    exact competing_resolveOnClass hvalue
  · rintro r hvalue ms rfl
    exact competing_resolveOnInterface hvalue
  · rintro r hvalue ms rfl
    exact competing_resolveStructural hvalue

/-- **How the ways to resolve a reference are related**, on any view, for any type and signature.

For a type that is not an array: without a definition, all ways end with it not being found. With
one, the way that fits it is the way that follows it, and the other one is refused; following it is
never refused. An array type is not an interface, and a reference to it is followed as one to a
class. A hint takes the way that it names.

A conflict that comes with methods, whichever way it arises, comes with several, which were found on
as many superinterfaces of the type where the search began. -/
theorem ways_to_resolve_agree (v : View) (holder : TypeId) (sig : MethodSig) :
    (v.isArray holder = false →
      (v.definition holder = none →
        v.resolveOnClass holder sig = pure (.ok .classNotFound) ∧
        v.resolveOnInterface holder sig = pure (.ok .classNotFound) ∧
        v.resolveStructural holder sig = pure (.ok .classNotFound)) ∧
      (∀ c, v.definition holder = some c → c.isInterface = false →
        v.resolveOnClass holder sig = v.resolveStructural holder sig ∧
        v.resolveOnInterface holder sig = pure (.ok (.incompatibleClass []))) ∧
      (∀ c, v.definition holder = some c → c.isInterface = true →
        v.resolveOnInterface holder sig = v.resolveStructural holder sig ∧
        v.resolveOnClass holder sig = pure (.ok (.incompatibleClass []))) ∧
      (v.resolveStructural holder sig).value ≠ .ok (.incompatibleClass [])) ∧
    (v.isArray holder = true →
      v.resolveStructural holder sig = v.resolveOnClass holder sig ∧
      v.resolveOnInterface holder sig = pure (.ok (.incompatibleClass []))) ∧
    v.resolve holder sig true = v.resolveOnInterface holder sig ∧
    v.resolve holder sig false = v.resolveOnClass holder sig ∧
    ∀ (q : Query) (ms : List Method), q.resolvedOn? = some holder → q.sig? = some sig →
      (q.run v).value = .ok (.resolution (.incompatibleClass ms)) → ms ≠ [] →
      ∃ found : List (TypeId × Method), ms = found.map Prod.snd ∧ 2 ≤ found.length ∧
        (found.map Prod.fst).Nodup ∧ ∀ o ∈ found, v.Inherits (v.start holder) o.1 ∧
          (v.definition o.1).isSome ∧ (v.table o.1).method? sig = some o.2 := by
  refine ⟨fun harray => ⟨fun hnone => ?_, fun c hc hclass => ?_, fun c hc hinterface => ?_, ?_⟩,
    fun harray => ?_, rfl, rfl, fun q ms hholder hsig h hne => ?_⟩
  · refine ⟨?_, ?_, ?_⟩
    · rw [resolveOnClass, if_neg (by simp [harray]), resolveOnPlainClass, hnone]
    · rw [resolveOnInterface, if_neg (by simp [harray]), hnone]
    · rw [resolveStructural, if_neg (by simp [harray]), hnone]
  · constructor
    · rw [resolveOnClass, if_neg (by simp [harray]), resolveOnPlainClass, resolveStructural,
        if_neg (by simp [harray]), hc]
      simp only [hclass, Bool.false_eq_true, if_false]
    · rw [resolveOnInterface, if_neg (by simp [harray]), hc]
      simp only [hclass, Bool.false_eq_true, if_false]
  · constructor
    · rw [resolveOnInterface, if_neg (by simp [harray]), resolveStructural,
        if_neg (by simp [harray]), hc]
      simp only [hinterface, if_true]
    · rw [resolveOnClass, if_neg (by simp [harray]), resolveOnPlainClass, hc]
      simp only [hinterface, if_true]
  · exact fun h => (competing_of_not_isArray harray h).ne_nil rfl
  · constructor
    · rw [resolveStructural, if_pos harray, resolveOnClass, if_pos harray]
    · rw [resolveOnInterface, if_pos harray]
  · exact (competing_of_run hholder hsig h).resolve_left hne

/-! ### Two defaults in conflict -/

section Torn

open Candidates

/-- Two interfaces with a default each, and a class that lists both. -/
def torn : View :=
  .ofStore .fresh (((ClassStore.empty.put (withDefault ⟨20⟩ [])).put (withDefault ⟨21⟩ [])).put
    implementer) 20

/-- Neither default is above the other. -/
theorem value_resolveInherited_torn : (torn.resolveInherited implementer defaultSig).value =
    .incompatibleClass [defaultOf ⟨20⟩, defaultOf ⟨21⟩] := by
  have hroot (seen : List TypeId) (rest : List Pending) :
      torn.sweep defaultSig seen (.superclass .object 0 :: rest) =
        torn.sweep defaultSig seen rest :=
    sweep_superclass_undefined (by decide) (by decide) _ _ _
  have hsweep : torn.sweep defaultSig [] [.interface ⟨20⟩, .interface ⟨21⟩,
      .superclass .object 0] =
        [.declares ⟨20⟩ (withDefault ⟨20⟩ []) (defaultOf ⟨20⟩),
          .declares ⟨21⟩ (withDefault ⟨21⟩ []) (defaultOf ⟨21⟩)] := by
    rw [sweep_interface_declares (c := withDefault ⟨20⟩ []) (m := defaultOf ⟨20⟩) rfl (by decide),
      sweep_interface_declares (c := withDefault ⟨21⟩ []) (m := defaultOf ⟨21⟩) rfl (by decide),
      hroot, sweep_nil]
  rw [resolveInherited, Walk.value_bind, Walk.value_pure]
  change (empty.record torn (torn.sweep defaultSig []
    [.interface ⟨20⟩, .interface ⟨21⟩, .superclass .object 0])).resolve ⟨22⟩ = _
  rw [hsweep, record]
  change Candidates.resolve ⟨22⟩ { (empty.add torn (withDefault ⟨20⟩ []) (defaultOf ⟨20⟩)).add torn
    (withDefault ⟨21⟩ []) (defaultOf ⟨21⟩) with expanded := _ } = _
  rw [add_withDefault, add_withDefault_of_new (by decide)]
  rfl

/-- A reference to the class is in conflict about both defaults, and not refused. -/
theorem ways_to_resolve_torn :
    torn.resolveOnClass ⟨22⟩ defaultSig = torn.resolveStructural ⟨22⟩ defaultSig ∧
    ((Query.resolveOnClass ⟨22⟩ defaultSig).run torn).value =
      .ok (.resolution (.incompatibleClass [defaultOf ⟨20⟩, defaultOf ⟨21⟩])) ∧
    ∃ found : List (TypeId × Method),
      [defaultOf ⟨20⟩, defaultOf ⟨21⟩] = found.map Prod.snd ∧ 2 ≤ found.length ∧
      (found.map Prod.fst).Nodup ∧ ∀ o ∈ found, torn.Inherits ⟨22⟩ o.1 ∧
        (torn.definition o.1).isSome ∧ (torn.table o.1).method? defaultSig = some o.2 := by
  have hcoherent : torn.Coherent := coherent_ofStore _ _ _
  have harray : torn.isArray ⟨22⟩ = false := by decide +kernel
  have hc : torn.definition ⟨22⟩ = some implementer := rfl
  have hnothing : ∀ d ∈ implementer :: torn.superclasses torn.bound implementer.superType,
      torn.HasNothing defaultSig d := by
    intro d hd
    obtain rfl : d = implementer := List.mem_singleton.1 hd
    exact hasNothing_of_methods_eq_nil rfl
  have hvalue : (torn.resolveOnClass ⟨22⟩ defaultSig).value =
      .ok (.incompatibleClass [defaultOf ⟨20⟩, defaultOf ⟨21⟩]) := by
    rw [← value_resolveInherited_torn]
    exact value_resolveOnClass_of_hasNothing hcoherent harray hc rfl hnothing
  have hrun : ((Query.resolveOnClass ⟨22⟩ defaultSig).run torn).value =
      .ok (.resolution (.incompatibleClass [defaultOf ⟨20⟩, defaultOf ⟨21⟩])) :=
    congrArg Answer.ofResolution hvalue
  obtain ⟨hfollowed, -, -, -, hconflict⟩ := ways_to_resolve_agree torn ⟨22⟩ defaultSig
  have hfound := hconflict (.resolveOnClass ⟨22⟩ defaultSig) _ rfl rfl hrun (by simp)
  rw [start, if_neg (by simp [harray])] at hfound
  exact ⟨((hfollowed harray).2.1 _ hc rfl).1, hrun, hfound⟩

end Torn

end View

end Linkage
