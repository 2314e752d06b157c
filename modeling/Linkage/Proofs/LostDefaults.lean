import Linkage.Proofs.MaximallySpecific

/-!
# Lost Defaults

In a hierarchy without cycles some interface that declares a method is always left as a candidate.
Hierarchies are not checked, though. An interface on a cycle of interfaces is one of its own
superinterfaces, and is shadowed by its own declaration; if nothing else declares the method, it
is not found at all.

Here is said what is left on any hierarchy, and so exactly when a declared method is lost.

## Main definitions

* `View.Finds`: the search comes upon a declaration.
* `View.Survives`: no declaration that the search comes upon shadows this one.

## Main results

* `mem_offers_iff_survives`: the candidates left are the declarations that survive.
* `exists_survives`: without cycles, one of them does.
* `keeps_default_iff`: when a method that is declared is found.
* `holders_selfListing`: a method that is declared and not found.
-/

namespace Linkage

open Relation

namespace View

variable {v : View} {c : ClassDef} {sig : MethodSig}

/-- **The search comes upon a declaration**: links lead there from what the class inherits, by way
of types that do not declare the method themselves. -/
def Finds (v : View) (c : ClassDef) (sig : MethodSig) (i : TypeId) (m : Method) : Prop :=
  (v.sweepLinks sig).Reaches (v.inheritedInterfaces c) i ∧ v.heritable i sig = some m

/-- **A declaration survives**: no type extends it, itself included, whose declaration the search
comes upon. -/
def Survives (v : View) (c : ClassDef) (sig : MethodSig) (i : TypeId) (m : Method) : Prop :=
  v.Finds c sig i m ∧ ∀ j n, v.Finds c sig j n → ¬ TransGen v.Lists j i

/-- A type on which the search finds something is in the domain. -/
theorem Finds.mem_domain {i : TypeId} {m : Method} (h : v.Finds c sig i m) : i ∈ v.domain := by
  obtain ⟨us, hus⟩ := Option.isSome_iff_exists.1 h.1.1
  exact (v.sweepLinks sig).mem_domain hus

/-- **Without cycles** among them, one of the declarations found survives. -/
theorem exists_survives (hself : ∀ j n, v.Finds c sig j n → ¬ TransGen v.Lists j j) {i : TypeId}
    {m : Method} (h : v.Finds c sig i m) : ∃ j n, v.Survives c sig j n := by
  obtain ⟨j, ⟨n, hj⟩, hlowest⟩ := exists_lowest (p := fun i => ∃ m, v.Finds c sig i m)
    (fun i ⟨_, hi⟩ => hi.mem_domain) (fun i ⟨m, hi⟩ => hself i m hi) ⟨m, h⟩
  exact ⟨j, n, hj, fun k o hk => hlowest k ⟨o, hk⟩⟩

end View

namespace Candidates

variable {v : View} {c : ClassDef} {sig : MethodSig}

/-- What is found is what the search comes upon. -/
theorem mem_found_iff_finds (htyped : v.Typed) {d : ClassDef × Method} :
    d ∈ found v sig (v.inheritedInterfaces c) ↔
      v.definition d.1.type = some d.1 ∧ v.Finds c sig d.1.type d.2 := by
  rw [mem_found htyped, Links.mem_tour_iff (Links.closed_nil _), View.Finds]
  simp only [List.not_mem_nil, not_false_eq_true, and_true]
  rw [and_left_comm]

/-- **The candidates left are the declarations that survive.** -/
theorem mem_offers_iff_survives (htyped : v.Typed) {i : TypeId} {m : Method} :
    (i, m) ∈ (empty.collectFromClass v sig c).value.offers ↔ v.Survives c sig i m := by
  have hfound {j : TypeId} {n : Method} (hj : v.Finds c sig j n) :
      ∃ d ∈ found v sig (v.inheritedInterfaces c), d.1.type = j ∧ d.2 = n := by
    obtain ⟨us, hus⟩ := Option.isSome_iff_exists.1 hj.1.1
    obtain ⟨e, he, -⟩ := Option.map_eq_some_iff.1 hus
    obtain rfl := htyped he
    exact ⟨(e, n), (mem_found_iff_finds htyped).2 ⟨he, hj⟩, rfl, rfl⟩
  rw [(shadowing_collectFromClass htyped sig c).mem_offers_iff
    (fun d hd => ((mem_found htyped).1 hd).2.1) ?_]
  · constructor
    · rintro ⟨⟨d, hd, rfl, rfl⟩, hnone⟩
      refine ⟨((mem_found_iff_finds htyped).1 hd).2, fun j n hj => ?_⟩
      obtain ⟨e, he, rfl, -⟩ := hfound hj
      exact hnone e he
    · rintro ⟨hfinds, hnone⟩
      exact ⟨hfound hfinds, fun d hd => hnone _ _ ((mem_found_iff_finds htyped).1 hd).2⟩
  · intro d hd e he heq
    have hdm := ((mem_found htyped).1 hd).2.2
    rw [heq, ((mem_found htyped).1 he).2.2] at hdm
    exact (Option.some.inj hdm).symm

/-- What is offered, or something below it, is found. -/
theorem exists_finds (hcoherent : v.Coherent) {i : TypeId} {m : Method}
    (h : v.Offers c sig i m) : ∃ j n, v.Finds c sig j n := by
  obtain ⟨d, hd, -⟩ := exists_mem_found hcoherent h
  exact ⟨_, _, ((mem_found_iff_finds hcoherent.typed).1 hd).2⟩

/-- With a candidate left, the choice is one of them, or a conflict among several. -/
theorem resolve_of_ne_nil {cs : Candidates} (h : cs.offers ≠ []) (initial : TypeId) :
    (∃ i m, cs.resolve initial = .single initial i m) ∨
      ∃ ms, cs.resolve initial = .incompatibleClass ms := by
  rcases cs.resolve_cases initial with ⟨hnil, -⟩ | ⟨o, -, hsingle⟩ | ⟨-, hseveral⟩
  · exact absurd hnil h
  · exact .inl ⟨o.1, o.2, hsingle⟩
  · exact .inr ⟨_, hseveral⟩

/-- **When a default is kept.** If a superinterface declares the method for its heirs, a candidate
is left and the choice is one method, or a conflict, exactly if one of the declarations that the
search comes upon survives. One of them does if none is declared by a type that extends itself. -/
theorem keeps_default_iff (hcoherent : v.Coherent) (hoffers : ∃ i m, v.Offers c sig i m) :
    let cs := (empty.collectFromClass v sig c).value
    ((cs.holders ≠ [] ∧ ∀ initial, (∃ i m, cs.resolve initial = .single initial i m) ∨
      ∃ ms, cs.resolve initial = .incompatibleClass ms) ↔ ∃ i m, v.Survives c sig i m) ∧
    ((∀ i m, v.Finds c sig i m → ¬ TransGen v.Lists i i) → ∃ i m, v.Survives c sig i m) := by
  intro cs
  have hsurvives : cs.offers ≠ [] ↔ ∃ i m, v.Survives c sig i m := by
    constructor
    · intro hne
      obtain ⟨⟨i, m⟩, hmem⟩ := List.exists_mem_of_ne_nil _ hne
      exact ⟨i, m, (mem_offers_iff_survives hcoherent.typed).1 hmem⟩
    · rintro ⟨i, m, h⟩
      exact List.ne_nil_of_mem ((mem_offers_iff_survives hcoherent.typed).2 h)
  have hholders : cs.holders ≠ [] ↔ cs.offers ≠ [] := by
    rw [holders, Ne, List.map_eq_nil_iff]
  constructor
  · rw [← hsurvives, hholders, and_iff_left_iff_imp]
    exact resolve_of_ne_nil
  · intro hself
    obtain ⟨i, m, hoffer⟩ := hoffers
    obtain ⟨j, n, hfinds⟩ := exists_finds hcoherent hoffer
    exact View.exists_survives hself hfinds

/-! ### An interface that lists itself -/

/-- An interface with a default that lists itself, and one with a default below it. -/
def selfListing : View :=
  .ofStore .fresh
    ((ClassStore.empty.put (withDefault ⟨60⟩ [⟨60⟩])).put (withDefault ⟨61⟩ [⟨60⟩])) 20

/-- A class with the given interfaces. -/
def implementing (interfaces : List TypeId) : ClassDef :=
  { ClassDef.ofClass ⟨62⟩ (some .object) with interfaces := interfaces }

/-- The definitions of this store are found under their own types. -/
theorem coherent_selfListing : selfListing.Coherent := View.coherent_ofStore _ _ _

/-- There are no definitions but these two. -/
theorem definition_selfListing {t : TypeId} {d : ClassDef}
    (h : selfListing.definition t = some d) :
    t = ⟨60⟩ ∧ d = withDefault ⟨60⟩ [⟨60⟩] ∨ t = ⟨61⟩ ∧ d = withDefault ⟨61⟩ [⟨60⟩] :=
  ClassStore.eq_of_get?_put_put h

/-- Both interfaces list the first one only. -/
theorem lists_selfListing {t i : TypeId} (h : selfListing.Lists t i) : i = ⟨60⟩ := by
  obtain ⟨d, hd, hi⟩ := h
  rcases definition_selfListing hd with ⟨-, rfl⟩ | ⟨-, rfl⟩ <;> exact List.mem_singleton.1 hi

/-- Each interface that a class lists offers its default. -/
theorem offers_selfListing {i : TypeId} (hi : i = ⟨60⟩ ∨ i = ⟨61⟩) {interfaces : List TypeId}
    (hmem : i ∈ interfaces) :
    selfListing.Offers (implementing interfaces) defaultSig i (defaultOf i) := by
  rcases hi with rfl | rfl <;>
    exact ⟨⟨by decide, _, List.mem_append_left _ hmem, .refl⟩, ⟨_, rfl, by decide⟩, by decide,
      by decide⟩

/-- And the search comes upon it. -/
theorem finds_selfListing {i : TypeId} (hi : i = ⟨60⟩ ∨ i = ⟨61⟩) {interfaces : List TypeId}
    (hmem : i ∈ interfaces) :
    selfListing.Finds (implementing interfaces) defaultSig i (defaultOf i) := by
  refine ⟨⟨?_, i, List.mem_append_left _ hmem, .refl⟩, ?_⟩ <;>
    rcases hi with rfl | rfl <;> decide +kernel

/-- **A declared default is lost**: the only interface of the class declares it and lists itself. -/
theorem holders_selfListing :
    selfListing.Coherent ∧
      selfListing.Offers (implementing [⟨60⟩]) defaultSig ⟨60⟩ (defaultOf ⟨60⟩) ∧
      (empty.collectFromClass selfListing defaultSig (implementing [⟨60⟩])).value.holders = [] ∧
      (empty.collectFromClass selfListing defaultSig (implementing [⟨60⟩])).value.resolve ⟨62⟩ =
        .noSuchMethod := by
  have hnil : (empty.collectFromClass selfListing defaultSig (implementing [⟨60⟩])).value.offers =
      [] := by
    rw [List.eq_nil_iff_forall_not_mem]
    rintro ⟨i, m⟩ hmem
    obtain ⟨⟨⟨-, r, hr, hpath⟩, -⟩, hnone⟩ :=
      (mem_offers_iff_survives coherent_selfListing.typed).1 hmem
    have hinherited : selfListing.inheritedInterfaces (implementing [⟨60⟩]) = [⟨60⟩] := by decide
    have hlinks : (selfListing.sweepLinks defaultSig).next ⟨60⟩ = some [] := by decide +kernel
    obtain rfl : r = ⟨60⟩ := List.mem_singleton.1 (hinherited ▸ hr)
    rcases hpath.cases_head with rfl | ⟨u, ⟨us, hus, hu⟩, -⟩
    · -- the interface shadows itself
      refine hnone _ _ (finds_selfListing (.inl rfl) List.mem_cons_self) (.single ⟨_, rfl, ?_⟩)
      exact List.mem_singleton_self _
    · obtain rfl : [] = us := Option.some.inj (hlinks.symm.trans hus)
      exact List.not_mem_nil hu
  refine ⟨coherent_selfListing, offers_selfListing (.inl rfl) List.mem_cons_self, ?_,
    resolve_of_nil hnil _⟩
  rw [holders, hnil, List.map_nil]

/-- The default of the interface below is kept. -/
theorem keeps_default_selfListing :
    selfListing.Coherent ∧
    (∃ i m, selfListing.Offers (implementing [⟨61⟩]) defaultSig i m) ∧
    (empty.collectFromClass selfListing defaultSig (implementing [⟨61⟩])).value.holders ≠ [] := by
  have hoffers : ∃ i m, selfListing.Offers (implementing [⟨61⟩]) defaultSig i m :=
    ⟨⟨61⟩, _, offers_selfListing (.inr rfl) List.mem_cons_self⟩
  refine ⟨coherent_selfListing, hoffers, ?_⟩
  refine ((keeps_default_iff coherent_selfListing hoffers).1.2 ⟨⟨61⟩, _,
    finds_selfListing (.inr rfl) List.mem_cons_self, fun j n _ hpath => ?_⟩).1
  obtain ⟨k, -, hlast⟩ := TransGen.tail'_iff.1 hpath
  exact absurd (lists_selfListing hlast) (by decide)

end Candidates

end Linkage
