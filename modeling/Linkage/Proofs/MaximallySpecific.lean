import Linkage.Proofs.Coherence
import Linkage.Proofs.Superinterfaces
import Mathlib.Data.Set.Finite.List
import Mathlib.Order.WellFoundedSet

/-!
# The Maximally-Specific Superinterface Methods

Of the superinterfaces of a class that declare a method for their heirs, those are maximally
specific that no other one extends. The search never compares two of them: it stops below each
one it finds and shadows what is above. Here both are shown to come to the same. Where the search
stops, it leaves out only types that are shadowed; and what it leaves out of its way does not
change the order of the rest.

The interfaces must not extend each other in a cycle, and no class must come in between: the
superclass chain above an interface, which is that of the root class, has no interfaces.

## Main definitions

* `View.Offers`: a superinterface declares a method, neither private nor static.
* `View.MaximallySpecific`: and no other such superinterface extends it.

## Main results

* `mem_offers_collectFromClass_iff`: the candidates left are the maximally-specific ones.
* `holders_sublist_tour`: they come in the order in which a depth-first traversal meets them.
* `collectFromClass_maximallySpecific`: both, with what is chosen among them.
-/

namespace Linkage

open Relation

namespace View

variable {v : View} {c : ClassDef} {sig : MethodSig}

/-- One type has another as its super type. -/
def Extends (v : View) (t u : TypeId) : Prop := ∃ d, v.definition t = some d ∧ d.superType = some u

/-- No class on the superclass chain above a type has interfaces. -/
def PlainAbove (v : View) (t : TypeId) : Prop :=
  ∀ ⦃d s u e⦄, v.definition t = some d → d.superType = some s → ReflTransGen v.Extends s u →
    v.definition u = some e → e.interfaces = []

/-- A type is named in a list of interfaces: of the given class, or of a defined type. -/
def Named (v : View) (c : ClassDef) (i : TypeId) : Prop := i ∈ c.interfaces ∨ ∃ t, v.Lists t i

/-- The defined types to which lists of interfaces lead from a class and from its superclasses, as
far as the bound allows. -/
def Superinterface (v : View) (c : ClassDef) (i : TypeId) : Prop :=
  (v.definition i).isSome ∧ ∃ r ∈ v.inheritedInterfaces c, ReflTransGen v.Lists r i

/-- A superinterface declares a method, neither private nor static. -/
def Offers (v : View) (c : ClassDef) (sig : MethodSig) (i : TypeId) (m : Method) : Prop :=
  v.Superinterface c i ∧ (∃ d, v.definition i = some d ∧ d.method? sig = some m) ∧
    m.access.isPrivate = false ∧ m.access.isStatic = false

/-- **Maximally specific**: no other superinterface that offers the method extends this one. -/
def MaximallySpecific (v : View) (c : ClassDef) (sig : MethodSig) (i : TypeId) (m : Method) :
    Prop :=
  v.Offers c sig i m ∧ ∀ j n, v.Offers c sig j n → j ≠ i → ¬ TransGen v.Lists j i

/-- A type offers one method of a signature. -/
theorem Offers.unique {i : TypeId} {m n : Method} (hm : v.Offers c sig i m)
    (hn : v.Offers c sig i n) : m = n := by
  obtain ⟨-, ⟨d, hd, hdm⟩, -⟩ := hm
  obtain ⟨-, ⟨e, he, hen⟩, -⟩ := hn
  obtain rfl : d = e := Option.some.inj (hd.symm.trans he)
  exact Option.some.inj (hdm.symm.trans hen)

/-- In a coherent view, what is offered can be read off the tables. -/
theorem offers_iff (h : v.Coherent) {i : TypeId} {m : Method} :
    v.Offers c sig i m ↔ v.Superinterface c i ∧ v.heritable i sig = some m := by
  rw [Offers, h.heritable_eq, Option.filter_eq_some_iff, Option.bind_eq_some_iff,
    Method.isInheritable]
  simp

/-- Of some defined types that do not extend themselves, one is extended by none of them: there is
no endless way down among finitely many types. -/
theorem exists_lowest {p : TypeId → Prop} (hdomain : ∀ i, p i → i ∈ v.domain)
    (hself : ∀ i, p i → ¬ TransGen v.Lists i i) {i : TypeId} (hi : p i) :
    ∃ j, p j ∧ ∀ k, p k → ¬ TransGen v.Lists k j := by
  -- on a cycle elsewhere types extend each other, so only the one-way part is an order
  let r : TypeId → TypeId → Prop := fun j k => TransGen v.Lists j k ∧ ¬ TransGen v.Lists k j
  have : IsStrictOrder TypeId r :=
    { irrefl := fun j h => h.2 h.1
      trans := fun j k l hjk hkl => ⟨hjk.1.trans hkl.1, fun hlj => hjk.2 (hkl.1.trans hlj)⟩ }
  have hwf := (List.finite_toSet v.domain).wellFoundedOn (r := r)
  refine hwf.induction (P := fun i => p i → ∃ j, p j ∧ ∀ k, p k → ¬ TransGen v.Lists k j)
    (hdomain i hi) ?_ hi
  intro j _ ih hj
  by_cases hlowest : ∀ k, p k → ¬ TransGen v.Lists k j
  · exact ⟨j, hj, hlowest⟩
  · push Not at hlowest
    obtain ⟨k, hk, hpath⟩ := hlowest
    exact ih k (hdomain k hk) ⟨hpath, fun hback => hself j hj (hback.trans hpath)⟩ hk

/-! ### What a sweep follows where no class comes in between -/

/-- Everything on a superclass chain can be reached by links to super types. -/
theorem extends_of_mem_superclasses {n : Nat} {s : Option TypeId} {e : ClassDef}
    (h : e ∈ v.superclasses n s) :
    ∃ t u, s = some t ∧ ReflTransGen v.Extends t u ∧ v.definition u = some e := by
  induction n generalizing s with
  | zero => exact absurd h List.not_mem_nil
  | succ n ih =>
      cases hs : s.bind v.definition with
      | none =>
          rw [superclasses_undefined hs] at h
          exact absurd h List.not_mem_nil
      | some d =>
          rw [superclasses_succ hs] at h
          obtain ⟨t, rfl, hd⟩ := Option.bind_eq_some_iff.1 hs
          rcases List.mem_cons.1 h with rfl | h
          · exact ⟨t, t, rfl, .refl, hd⟩
          · obtain ⟨w, u, hw, hpath, he⟩ := ih h
            exact ⟨t, u, rfl, .head ⟨d, hd, hw⟩ hpath, he⟩

/-- With a plain chain above, only a type's own interfaces come up. -/
theorem PlainAbove.inheritedInterfaces_eq {t : TypeId} {d : ClassDef} (h : v.PlainAbove t)
    (hd : v.definition t = some d) : v.inheritedInterfaces d = d.interfaces := by
  have hnil : (v.superclasses v.bound d.superType).flatMap ClassDef.interfaces = [] := by
    rw [List.flatMap_eq_nil_iff]
    intro e he
    obtain ⟨s, u, hs, hpath, hu⟩ := extends_of_mem_superclasses he
    exact h hd hs hpath hu
  rw [inheritedInterfaces, List.flatMap_cons, hnil, List.append_nil]

/-- What a class inherits at first is named in some list. -/
theorem named_of_mem_inheritedInterfaces {i : TypeId} (h : i ∈ v.inheritedInterfaces c) :
    v.Named c i := by
  rw [inheritedInterfaces, List.flatMap_cons, List.mem_append] at h
  rcases h with h | h
  · exact .inl h
  · obtain ⟨e, he, hi⟩ := List.mem_flatMap.1 h
    obtain ⟨t, u, -, -, hu⟩ := extends_of_mem_superclasses he
    exact .inr ⟨u, e, hu, hi⟩

/-- From a type with a plain chain above, a sweep goes to its interfaces, and only if the type does
not declare the method. -/
theorem PlainAbove.step_sweepLinks_iff {t u : TypeId} (h : v.PlainAbove t) :
    (v.sweepLinks sig).Step t u ↔ v.heritable t sig = none ∧ v.Lists t u := by
  constructor
  · rintro ⟨us, hus, hu⟩
    obtain ⟨d, hd, rfl⟩ := Option.map_eq_some_iff.1 hus
    cases hm : v.heritable t sig with
    | some m =>
        rw [hm] at hu
        exact absurd hu List.not_mem_nil
    | none =>
        rw [hm, h.inheritedInterfaces_eq hd] at hu
        exact ⟨rfl, d, hd, hu⟩
  · rintro ⟨hm, d, hd, hu⟩
    refine ⟨_, next_sweepLinks_expands hd hm, ?_⟩
    rwa [h.inheritedInterfaces_eq hd]

/-- From a type that does not declare the method, a sweep goes to its interfaces, among others. -/
theorem step_sweepLinks_of_lists {t u : TypeId} (hm : v.heritable t sig = none)
    (h : v.Lists t u) : (v.sweepLinks sig).Step t u := by
  obtain ⟨d, hd, hu⟩ := h
  exact ⟨_, next_sweepLinks_expands hd hm, List.mem_flatMap.2 ⟨d, List.mem_cons_self, hu⟩⟩

/-- Along every path a sweep comes to the first type that declares the method, or to the end. -/
theorem sweepLinks_of_lists {r t : TypeId} (hpath : ReflTransGen v.Lists r t) :
    ∃ k, ReflTransGen (v.sweepLinks sig).Step r k ∧ ReflTransGen v.Lists k t ∧
      (k = t ∨ v.heritable k sig ≠ none) := by
  induction hpath with
  | refl => exact ⟨r, .refl, .refl, .inl rfl⟩
  | @tail a b _ hstep ih =>
      obtain ⟨k, hsweep, hlists, rfl | hk⟩ := ih
      · cases hm : v.heritable k sig with
        | none =>
            exact ⟨b, hsweep.tail (step_sweepLinks_of_lists hm hstep), .refl, .inl rfl⟩
        | some m => exact ⟨k, hsweep, .single hstep, .inr (by simp [hm])⟩
      · exact ⟨k, hsweep, hlists.tail hstep, .inr hk⟩

section Plain

variable (hplain : ∀ i, v.Named c i → v.PlainAbove i)
include hplain

/-- The way of a sweep leads through named types, by lists of interfaces. -/
theorem lists_of_sweepLinks {r t : TypeId} (hr : r ∈ v.inheritedInterfaces c)
    (hpath : ReflTransGen (v.sweepLinks sig).Step r t) :
    v.Named c t ∧ ReflTransGen v.Lists r t := by
  induction hpath with
  | refl => exact ⟨named_of_mem_inheritedInterfaces hr, .refl⟩
  | tail _ hstep ih =>
      obtain ⟨hnamed, hlists⟩ := ih
      obtain ⟨-, hlist⟩ := (hplain _ hnamed).step_sweepLinks_iff.1 hstep
      exact ⟨.inr ⟨_, hlist⟩, hlists.tail hlist⟩

end Plain

end View

/-! ### What is found, and what is left of it -/

namespace Candidates

variable {v : View} {c : ClassDef} {sig : MethodSig}

/-- What is found above some roots is what the interfaces on the tour declare. -/
theorem mem_found {roots : List TypeId} {d : ClassDef × Method} (htyped : v.Typed) :
    d ∈ found v sig roots ↔ d.1.type ∈ (v.sweepLinks sig).tour [] roots ∧
      v.definition d.1.type = some d.1 ∧ v.heritable d.1.type sig = some d.2 := by
  rw [found, List.mem_filterMap]
  constructor
  · rintro ⟨t, ht, hd⟩
    obtain ⟨hdef, hm⟩ := View.offer?_eq_some_iff.1 hd
    obtain rfl := htyped hdef
    exact ⟨ht, hdef, hm⟩
  · rintro ⟨ht, hd⟩
    exact ⟨_, ht, View.offer?_eq_some_iff.2 hd⟩

/-- The record after a collection is one of the declarations found. -/
theorem shadowing_collectFromClass (htyped : v.Typed) (sig : MethodSig) (c : ClassDef) :
    Shadowing v (found v sig (v.inheritedInterfaces c))
      (empty.collectFromClass v sig c).value := by
  have h := @shadowing_foldl v (found v sig (v.inheritedInterfaces c)) fun d hd =>
    ((mem_found htyped).1 hd).2.1
  have hslots := slots_collectFromClass htyped sig c
  refine ⟨?_, ?_, ?_⟩
  · intro d hd
    rw [hslots]
    exact h.recorded hd
  · intro t
    rw [hslots]
    exact h.shadowed_iff
  · rw [offers_eq, hslots, ← offers_eq]
    exact h.offers_sublist

variable (hcoherent : v.Coherent)
include hcoherent

/-- What is offered is found, or something below it is. -/
theorem exists_mem_found {i : TypeId} {m : Method} (h : v.Offers c sig i m) :
    ∃ d ∈ found v sig (v.inheritedInterfaces c), ReflTransGen v.Lists d.1.type i := by
  obtain ⟨⟨-, r, hr, hpath⟩, hm⟩ := (View.offers_iff hcoherent).1 h
  obtain ⟨k, hsweep, hlists, hk⟩ := @View.sweepLinks_of_lists v sig r i hpath
  have hsome : v.heritable k sig ≠ none := by
    rcases hk with rfl | hk
    · simp [hm]
    · exact hk
  obtain ⟨n, hn⟩ := Option.ne_none_iff_exists'.1 hsome
  -- what declares a method is defined
  obtain ⟨e, he⟩ : ∃ e, v.definition k = some e := by
    rw [hcoherent.heritable_eq, Option.filter_eq_some_iff, Option.bind_eq_some_iff] at hn
    obtain ⟨⟨e, he, -⟩, -⟩ := hn
    exact ⟨e, he⟩
  have htype := hcoherent.typed he
  refine ⟨(e, n), (mem_found hcoherent.typed).2 ?_, by rwa [htype]⟩
  rw [htype, Links.mem_tour_iff (Links.closed_nil _)]
  refine ⟨⟨⟨?_, r, hr, hsweep⟩, List.not_mem_nil⟩, he, hn⟩
  rw [View.next_sweepLinks_declares he hn]
  rfl

variable (hplain : ∀ i, v.Named c i → v.PlainAbove i)
include hplain

/-- What is found is offered. -/
theorem offers_of_mem_found {d : ClassDef × Method}
    (hd : d ∈ found v sig (v.inheritedInterfaces c)) : v.Offers c sig d.1.type d.2 := by
  obtain ⟨ht, hdef, hm⟩ := (mem_found hcoherent.typed).1 hd
  obtain ⟨⟨-, r, hr, hpath⟩, -⟩ := Links.of_mem_tour ht
  refine (View.offers_iff hcoherent).2 ⟨⟨by rw [hdef]; rfl, r, hr, ?_⟩, hm⟩
  exact (View.lists_of_sweepLinks hplain hr hpath).2

/-- **The candidates left are the maximally-specific ones.** -/
theorem mem_offers_collectFromClass_iff (hacyclic : ∀ t, ¬ TransGen v.Lists t t) {i : TypeId}
    {m : Method} :
    (i, m) ∈ (empty.collectFromClass v sig c).value.offers ↔ v.MaximallySpecific c sig i m := by
  have hfound {d : ClassDef × Method} (hd : d ∈ found v sig (v.inheritedInterfaces c)) :
      v.definition d.1.type = some d.1 ∧ v.heritable d.1.type sig = some d.2 :=
    ((mem_found hcoherent.typed).1 hd).2
  rw [(shadowing_collectFromClass hcoherent.typed sig c).mem_offers_iff
    (fun d hd => (hfound hd).1) ?_]
  · constructor
    · rintro ⟨⟨d, hd, rfl, rfl⟩, hnone⟩
      refine ⟨offers_of_mem_found hcoherent hplain hd, fun j n hj _ hpath => ?_⟩
      obtain ⟨e, he, hto⟩ := exists_mem_found hcoherent hj
      exact hnone e he (TransGen.trans_right hto hpath)
    · rintro ⟨hoffers, hnone⟩
      have hbelow : ∀ d ∈ found v sig (v.inheritedInterfaces c),
          ¬ TransGen v.Lists d.1.type i := by
        intro d hd hpath
        refine hnone _ _ (offers_of_mem_found hcoherent hplain hd) ?_ hpath
        rintro rfl
        exact hacyclic _ hpath
      obtain ⟨d, hd, hto⟩ := exists_mem_found hcoherent hoffers
      rcases reflTransGen_iff_eq_or_transGen.1 hto with rfl | hpath
      · exact ⟨⟨d, hd, rfl, (offers_of_mem_found hcoherent hplain hd).unique hoffers⟩, hbelow⟩
      · exact absurd hpath (hbelow d hd)
  · intro d hd e he heq
    have hdm := (hfound hd).2
    rw [heq, (hfound he).2] at hdm
    exact (Option.some.inj hdm).symm

/-! ### Their order -/

/-- Of two traversals, the one that stops where the method is declared and the one that goes on,
both meet the types that no offering type extends in the same order: no link leads back to them
from the others. -/
theorem filter_tour_sweepLinks {p : TypeId → Bool}
    (hp : ∀ t, p t = true ↔ ∀ j n, v.Offers c sig j n → ¬ TransGen v.Lists j t) :
    ((v.sweepLinks sig).tour [] (v.inheritedInterfaces c)).filter p =
      (v.interfaceLinks.tour [] (v.inheritedInterfaces c)).filter p := by
  have hp_of_lists {t u : TypeId} (ht : p t = false) (hlist : v.Lists t u) : p u = false := by
    rw [Bool.eq_false_iff, Ne, hp] at ht ⊢
    exact fun h => ht fun j n hj hpath => h j n hj (hpath.tail hlist)
  have hall : (v.interfaceLinks.tour [] (v.inheritedInterfaces c)).filter p =
      (v.interfaceLinks.restrict p).tour [] ((v.inheritedInterfaces c).filter p) := by
    refine Links.filter_tour ?_ (fun _ _ _ _ _ => rfl) (fun _ _ => Iff.rfl)
    intro r t u _ _ ht hstep
    rw [View.step_interfaceLinks] at hstep
    exact hp_of_lists ht hstep
  rw [hall]
  refine Links.filter_tour ?_ ?_ (fun _ _ => Iff.rfl)
  · intro r t u hr hpath ht hstep
    obtain ⟨hnamed, -⟩ := View.lists_of_sweepLinks hplain hr hpath
    exact hp_of_lists ht ((hplain t hnamed).step_sweepLinks_iff.1 hstep).2
  · intro r t hr hpath _
    obtain ⟨hnamed, hlists⟩ := View.lists_of_sweepLinks hplain hr hpath
    rw [Links.next_restrict, Links.next_restrict]
    cases hd : v.definition t with
    | none => rw [View.next_interfaceLinks_undefined hd, View.next_sweepLinks_undefined hd]
    | some d =>
        rw [View.next_interfaceLinks_defined hd]
        cases hm : v.heritable t sig with
        | none =>
            rw [View.next_sweepLinks_expands hd hm, (hplain t hnamed).inheritedInterfaces_eq hd]
        | some m =>
            -- the type offers the method, and so nothing that it lists is kept
            have hoffers : v.Offers c sig t m :=
              (View.offers_iff hcoherent).2 ⟨⟨by rw [hd]; rfl, r, hr, hlists⟩, hm⟩
            have hnil : d.interfaces.filter p = [] := by
              rw [List.filter_eq_nil_iff]
              intro u hu
              rw [hp]
              exact fun h => h t m hoffers (.single ⟨d, hd, hu⟩)
            rw [View.next_sweepLinks_declares hd hm, Option.map_some, Option.map_some, hnil,
              List.filter_nil]

omit hplain in
/-- The candidates left are among the types that a sweep meets, in their order. -/
theorem holders_sublist_sweepLinks :
    (empty.collectFromClass v sig c).value.holders.Sublist
      ((v.sweepLinks sig).tour [] (v.inheritedInterfaces c)) := by
  have hfound (ts : List TypeId) :
      ((ts.filterMap (v.offer? sig)).map fun d => d.1.type).Sublist ts := by
    induction ts with
    | nil => exact List.Sublist.refl _
    | cons t ts ih =>
        cases hd : v.offer? sig t with
        | none =>
            rw [List.filterMap_cons_none hd]
            exact ih.cons t
        | some d =>
            rw [List.filterMap_cons_some hd, List.map_cons,
              hcoherent.typed (View.offer?_eq_some_iff.1 hd).1]
            exact ih.cons_cons t
  have hoffers := (shadowing_collectFromClass hcoherent.typed sig c).offers_sublist.map Prod.fst
  rw [List.map_map] at hoffers
  exact hoffers.trans (hfound _)

/-- **The candidates left come in the order of the depth-first traversal** of all
superinterfaces. -/
theorem holders_sublist_tour (hacyclic : ∀ t, ¬ TransGen v.Lists t t) :
    (empty.collectFromClass v sig c).value.holders.Sublist
      (v.interfaceLinks.tour [] (v.inheritedInterfaces c)) := by
  classical
  let p : TypeId → Bool := fun t => decide (∀ j n, v.Offers c sig j n → ¬ TransGen v.Lists j t)
  have hkept : (empty.collectFromClass v sig c).value.holders.filter p =
      (empty.collectFromClass v sig c).value.holders := by
    rw [List.filter_eq_self]
    intro i hi
    obtain ⟨⟨i, m⟩, hmem, rfl⟩ := List.mem_map.1 hi
    obtain ⟨-, hnone⟩ := (mem_offers_collectFromClass_iff hcoherent hplain hacyclic).1 hmem
    refine decide_eq_true fun j n hj hpath => hnone j n hj ?_ hpath
    rintro rfl
    exact hacyclic _ hpath
  have hsublist := (@holders_sublist_sweepLinks v c sig hcoherent).filter p
  rw [hkept, filter_tour_sweepLinks hcoherent hplain fun t => decide_eq_true_iff] at hsublist
  exact hsublist.trans List.filter_sublist

end Candidates

/-! ### The choice among them -/

namespace Candidates

/-- The candidates with a method that has a body. -/
def concreteOffers (cs : Candidates) : List (TypeId × Method) :=
  cs.offers.filter (·.2.access.isConcreteVirtual)

/-- Without candidates there is no method. -/
theorem resolve_of_nil {cs : Candidates} (h : cs.offers = []) (initial : TypeId) :
    cs.resolve initial = .noSuchMethod := by
  rw [resolve, select, h]
  rfl

/-- Without a method with a body the first candidate wins. -/
theorem resolve_of_abstract {cs : Candidates} {t : TypeId} {m : Method}
    (hnil : cs.concreteOffers = []) (hhead : cs.offers.head? = some (t, m)) (initial : TypeId) :
    cs.resolve initial = .single initial t m := by
  obtain ⟨rest, hrest⟩ := List.head?_eq_some_iff.1 hhead
  rw [concreteOffers] at hnil
  rw [resolve, select, hnil, hrest]

/-- The only method with a body wins. -/
theorem resolve_of_one {cs : Candidates} {t : TypeId} {m : Method}
    (h : cs.concreteOffers = [(t, m)]) (initial : TypeId) :
    cs.resolve initial = .single initial t m := by
  rw [concreteOffers] at h
  rw [resolve, select, h]

/-- Several methods with bodies are in conflict. -/
theorem resolve_of_several {cs : Candidates} (h : 2 ≤ cs.concreteOffers.length)
    (initial : TypeId) :
    cs.resolve initial = .incompatibleClass (cs.concreteOffers.map Prod.snd) := by
  rcases hc : cs.concreteOffers with - | ⟨a, - | ⟨b, rest⟩⟩
  · simp [hc] at h
  · simp [hc] at h
  · rw [concreteOffers] at hc
    rw [resolve, select, hc]

/-- **There are three outcomes**: there is no candidate, one of them is chosen, or several that have
a body compete. -/
theorem resolve_cases (cs : Candidates) (initial : TypeId) :
    cs.offers = [] ∧ cs.resolve initial = .noSuchMethod ∨
      (∃ o ∈ cs.offers, cs.resolve initial = .single initial o.1 o.2) ∨
      2 ≤ cs.concreteOffers.length ∧
        cs.resolve initial = .incompatibleClass (cs.concreteOffers.map Prod.snd) := by
  cases hhead : cs.offers.head? with
  | none =>
      have hnil := List.head?_eq_none_iff.1 hhead
      exact .inl ⟨hnil, resolve_of_nil hnil initial⟩
  | some o =>
      rcases hc : cs.concreteOffers with - | ⟨p, - | ⟨q, rest⟩⟩
      · exact .inr (.inl ⟨o, List.mem_of_head? hhead, resolve_of_abstract hc hhead initial⟩)
      · have hmem : p ∈ cs.concreteOffers := by rw [hc]; exact List.mem_singleton_self _
        exact .inr (.inl ⟨p, List.mem_of_mem_filter hmem, resolve_of_one hc initial⟩)
      · have hseveral : 2 ≤ cs.concreteOffers.length := by simp [hc]
        exact .inr (.inr ⟨by simp, hc ▸ resolve_of_several hseveral initial⟩)

/-- Nothing is found only if there is no candidate. -/
theorem resolve_eq_noSuchMethod_iff {cs : Candidates} {initial : TypeId} :
    cs.resolve initial = .noSuchMethod ↔ cs.offers = [] := by
  refine ⟨fun h => ?_, fun h => resolve_of_nil h initial⟩
  rcases cs.resolve_cases initial with ⟨hnil, -⟩ | ⟨o, -, hsingle⟩ | ⟨-, hseveral⟩
  · exact hnil
  · rw [h] at hsingle
    cases hsingle
  · rw [h] at hseveral
    cases hseveral

/-- One method is the outcome exactly if it is the one chosen. -/
theorem resolve_eq_single_iff {cs : Candidates} {initial a t : TypeId} {m : Method} :
    cs.resolve initial = .single a t m ↔ a = initial ∧ cs.target? = some (t, m) := by
  rw [resolve, target?]
  cases cs.select <;> simp [eq_comm]

/-- Methods compete exactly if several have a body, and then it is these. -/
theorem resolve_eq_incompatibleClass_iff {cs : Candidates} {initial : TypeId} {ms : List Method} :
    cs.resolve initial = .incompatibleClass ms ↔
      2 ≤ cs.concreteOffers.length ∧ ms = cs.concreteOffers.map Prod.snd := by
  constructor
  · intro h
    rcases cs.resolve_cases initial with ⟨-, hnone⟩ | ⟨o, -, hsingle⟩ | ⟨hseveral, hms⟩
    · rw [h] at hnone
      cases hnone
    · rw [h] at hsingle
      cases hsingle
    · rw [h, Resolution.incompatibleClass.injEq] at hms
      exact ⟨hseveral, hms⟩
  · rintro ⟨hseveral, rfl⟩
    exact resolve_of_several hseveral initial

/-- No method is chosen exactly if there is none, or if several compete. -/
theorem target?_eq_none_iff {cs : Candidates} (initial : TypeId) :
    cs.target? = none ↔ cs.resolve initial = .noSuchMethod ∨
      ∃ ms, ms ≠ [] ∧ cs.resolve initial = .incompatibleClass ms := by
  cases hs : cs.select with
  | none => simp [target?, resolve, hs]
  | one t m => simp [target?, resolve, hs]
  | conflict ms =>
      have hr : cs.resolve initial = .incompatibleClass ms := by rw [resolve, hs]
      obtain ⟨hseveral, rfl⟩ := resolve_eq_incompatibleClass_iff.1 hr
      have hne : cs.concreteOffers.map Prod.snd ≠ [] := by
        rw [← List.length_pos_iff_ne_nil, List.length_map]
        omega
      exact iff_of_true (by rw [target?, hs]) (.inr ⟨_, hne, hr⟩)

section Acyclic

variable {v : View} {c : ClassDef} {sig : MethodSig} (hcoherent : v.Coherent)
  (hplain : ∀ i, v.Named c i → v.PlainAbove i) (hacyclic : ∀ t, ¬ TransGen v.Lists t t)
include hcoherent hplain hacyclic

/-- The candidates with bodies are the maximally-specific methods with bodies. -/
theorem mem_concreteOffers_iff {i : TypeId} {m : Method} :
    (i, m) ∈ (empty.collectFromClass v sig c).value.concreteOffers ↔
      v.MaximallySpecific c sig i m ∧ m.access.isAbstract = false := by
  rw [concreteOffers, List.mem_filter, mem_offers_collectFromClass_iff hcoherent hplain hacyclic]
  refine and_congr_right ?_
  rintro ⟨⟨-, -, hprivate, hstatic⟩, -⟩
  simp [Access.isConcreteVirtual_eq, hprivate, hstatic]

/-- **The candidates are the maximally-specific methods.** -/
theorem mem_holders_collectFromClass_iff {i : TypeId} :
    i ∈ (empty.collectFromClass v sig c).value.holders ↔ ∃ m, v.MaximallySpecific c sig i m := by
  rw [holders, List.mem_map]
  constructor
  · rintro ⟨⟨i, m⟩, hmem, rfl⟩
    exact ⟨m, (mem_offers_collectFromClass_iff hcoherent hplain hacyclic).1 hmem⟩
  · rintro ⟨m, h⟩
    exact ⟨(i, m), (mem_offers_collectFromClass_iff hcoherent hplain hacyclic).2 h, rfl⟩

/-- No candidate is recorded twice. -/
theorem nodup_holders_collectFromClass :
    (empty.collectFromClass v sig c).value.holders.Nodup :=
  (holders_sublist_tour hcoherent hplain hacyclic).nodup (Links.nodup_tour _ _ _)

/-- With the method of a type known, the concrete methods can be listed by the types alone. -/
theorem map_concreteOffers :
    (empty.collectFromClass v sig c).value.concreteOffers.map Prod.snd =
      (empty.collectFromClass v sig c).value.holders.filterMap fun i =>
        ((v.definition i).bind (·.method? sig)).filter (!·.access.isAbstract) := by
  have hoffers : ∀ o ∈ (empty.collectFromClass v sig c).value.offers,
      ((v.definition o.1).bind (·.method? sig)).filter (!·.access.isAbstract) =
        if o.2.access.isConcreteVirtual then some o.2 else none := by
    rintro ⟨i, m⟩ hmem
    obtain ⟨⟨-, ⟨d, hd, hm⟩, hprivate, hstatic⟩, -⟩ :=
      (mem_offers_collectFromClass_iff hcoherent hplain hacyclic).1 hmem
    rw [hd, Option.bind_some, hm, Access.isConcreteVirtual_eq, hprivate, hstatic]
    cases h : m.access.isAbstract <;> simp [h]
  rw [holders, concreteOffers, List.filterMap_map, ← List.filterMap_eq_map, List.filterMap_filter]
  exact (List.filterMap_congr hoffers).symm

omit hcoherent hplain in
/-- If any type offers the method, some type does so that is maximally specific. -/
theorem exists_maximallySpecific {i : TypeId} {m : Method} (h : v.Offers c sig i m) :
    ∃ j n, v.MaximallySpecific c sig j n := by
  obtain ⟨j, ⟨n, hj⟩, hlowest⟩ := View.exists_lowest (p := fun i => ∃ m, v.Offers c sig i m)
    (fun i ⟨_, _, ⟨d, hd, _⟩, _⟩ => v.mem_domain hd) (fun i _ => hacyclic i) ⟨m, h⟩
  exact ⟨j, n, hj, fun k o hk _ => hlowest k ⟨o, hk⟩⟩

/-- Nothing is found only if no superinterface offers the method. -/
theorem resolve_eq_noSuchMethod_iff_offers {initial : TypeId} :
    (empty.collectFromClass v sig c).value.resolve initial = .noSuchMethod ↔
      ∀ i m, ¬ v.Offers c sig i m := by
  rw [resolve_eq_noSuchMethod_iff, List.eq_nil_iff_forall_not_mem]
  constructor
  · intro hnil i m h
    obtain ⟨j, n, hmax⟩ := exists_maximallySpecific hacyclic h
    exact hnil (j, n) ((mem_offers_collectFromClass_iff hcoherent hplain hacyclic).2 hmax)
  · rintro hnone ⟨i, m⟩ hmem
    exact hnone i m ((mem_offers_collectFromClass_iff hcoherent hplain hacyclic).1 hmem).1

/-- A single method with a body is chosen. -/
theorem resolve_of_single_concrete {i : TypeId} {m : Method}
    (hmax : v.MaximallySpecific c sig i m) (hconcrete : m.access.isAbstract = false)
    (hsingle : ∀ j n, v.MaximallySpecific c sig j n → n.access.isAbstract = false → j = i)
    (initial : TypeId) :
    (empty.collectFromClass v sig c).value.resolve initial = .single initial i m := by
  have hmem : (i, m) ∈ (empty.collectFromClass v sig c).value.concreteOffers :=
    (mem_concreteOffers_iff hcoherent hplain hacyclic).2 ⟨hmax, hconcrete⟩
  have hall : ∀ o ∈ (empty.collectFromClass v sig c).value.concreteOffers, o.1 = i := by
    rintro ⟨j, n⟩ ho
    obtain ⟨hj, hn⟩ := (mem_concreteOffers_iff hcoherent hplain hacyclic).1 ho
    exact hsingle j n hj hn
  have hnodup : ((empty.collectFromClass v sig c).value.concreteOffers.map Prod.fst).Nodup :=
    (List.filter_sublist.map Prod.fst).nodup
      (nodup_holders_collectFromClass hcoherent hplain hacyclic)
  refine resolve_of_one ?_ initial
  rcases hc : (empty.collectFromClass v sig c).value.concreteOffers with - | ⟨a, - | ⟨b, rest⟩⟩
  · simp [hc] at hmem
  · rw [hc, List.mem_singleton] at hmem
    rw [hmem]
  · rw [hc] at hall hnodup
    have hab : a.1 = b.1 := (hall a (by simp)).trans (hall b (by simp)).symm
    simp [hab] at hnodup

/-- Without a method with a body, the first one is chosen. -/
theorem resolve_of_no_concrete {i : TypeId} {m : Method}
    (hhead : (empty.collectFromClass v sig c).value.holders.head? = some i)
    (hmax : v.MaximallySpecific c sig i m)
    (hnone : ∀ j n, v.MaximallySpecific c sig j n → n.access.isAbstract = true)
    (initial : TypeId) :
    (empty.collectFromClass v sig c).value.resolve initial = .single initial i m := by
  have hnil : (empty.collectFromClass v sig c).value.concreteOffers = [] := by
    rw [List.eq_nil_iff_forall_not_mem]
    rintro ⟨j, n⟩ hmem
    obtain ⟨hj, hn⟩ := (mem_concreteOffers_iff hcoherent hplain hacyclic).1 hmem
    simp [hnone j n hj] at hn
  rw [holders, List.head?_map] at hhead
  obtain ⟨⟨j, n⟩, hjn, rfl⟩ := Option.map_eq_some_iff.1 hhead
  have hoffered :=
    (mem_offers_collectFromClass_iff hcoherent hplain hacyclic).1 (List.mem_of_head? hjn)
  obtain rfl : n = m := hoffered.1.unique hmax.1
  exact resolve_of_abstract hnil hjn initial

/-- Two methods with a body are in conflict, with all the others that have one. -/
theorem resolve_of_two_concrete {i j : TypeId} {m n : Method}
    (hi : v.MaximallySpecific c sig i m) (hj : v.MaximallySpecific c sig j n)
    (hm : m.access.isAbstract = false) (hn : n.access.isAbstract = false) (hne : i ≠ j)
    (initial : TypeId) :
    (empty.collectFromClass v sig c).value.resolve initial =
      .incompatibleClass ((empty.collectFromClass v sig c).value.holders.filterMap fun i =>
        ((v.definition i).bind (·.method? sig)).filter (!·.access.isAbstract)) := by
  have hmem_i : (i, m) ∈ (empty.collectFromClass v sig c).value.concreteOffers :=
    (mem_concreteOffers_iff hcoherent hplain hacyclic).2 ⟨hi, hm⟩
  have hmem_j : (j, n) ∈ (empty.collectFromClass v sig c).value.concreteOffers :=
    (mem_concreteOffers_iff hcoherent hplain hacyclic).2 ⟨hj, hn⟩
  rw [← map_concreteOffers hcoherent hplain hacyclic]
  refine resolve_of_several ?_ initial
  rcases hc : (empty.collectFromClass v sig c).value.concreteOffers with - | ⟨a, - | ⟨b, rest⟩⟩
  · simp [hc] at hmem_i
  · rw [hc, List.mem_singleton] at hmem_i hmem_j
    exact absurd (congrArg Prod.fst (hmem_i.trans hmem_j.symm)) hne
  · simp

end Acyclic

/-- **The search finds the maximally-specific methods**, each once and in the order of the
depth-first traversal, and chooses among them: a single method with a body; without one, the first;
with several, none. -/
theorem collectFromClass_maximallySpecific {v : View} {c : ClassDef} (hcoherent : v.Coherent)
    (hplain : ∀ i, v.Named c i → v.PlainAbove i) (hacyclic : ∀ t, ¬ TransGen v.Lists t t)
    (sig : MethodSig) :
    let cs := (empty.collectFromClass v sig c).value
    (∀ i, i ∈ cs.holders ↔ ∃ m, v.MaximallySpecific c sig i m) ∧
    cs.holders.Nodup ∧
    cs.holders.Sublist (v.interfaceLinks.tour [] (v.inheritedInterfaces c)) ∧
    ∀ initial,
      (cs.resolve initial = .noSuchMethod ↔ ∀ i m, ¬ v.Offers c sig i m) ∧
      (∀ i m, v.MaximallySpecific c sig i m → m.access.isAbstract = false →
        (∀ j n, v.MaximallySpecific c sig j n → n.access.isAbstract = false → j = i) →
        cs.resolve initial = .single initial i m) ∧
      (∀ i m, cs.holders.head? = some i → v.MaximallySpecific c sig i m →
        (∀ j n, v.MaximallySpecific c sig j n → n.access.isAbstract = true) →
        cs.resolve initial = .single initial i m) ∧
      (∀ i j m n, v.MaximallySpecific c sig i m → v.MaximallySpecific c sig j n →
        m.access.isAbstract = false → n.access.isAbstract = false → i ≠ j →
        cs.resolve initial = .incompatibleClass (cs.holders.filterMap fun i =>
          ((v.definition i).bind (·.method? sig)).filter (!·.access.isAbstract))) := by
  refine ⟨fun i => mem_holders_collectFromClass_iff hcoherent hplain hacyclic,
    nodup_holders_collectFromClass hcoherent hplain hacyclic,
    holders_sublist_tour hcoherent hplain hacyclic, fun initial =>
      ⟨resolve_eq_noSuchMethod_iff_offers hcoherent hplain hacyclic, ?_, ?_, ?_⟩⟩
  · intro i m hmax hconcrete hsingle
    exact resolve_of_single_concrete hcoherent hplain hacyclic hmax hconcrete hsingle initial
  · intro i m hhead hmax hnone
    exact resolve_of_no_concrete hcoherent hplain hacyclic hhead hmax hnone initial
  · intro i j m n hi hj hm hn hne
    exact resolve_of_two_concrete hcoherent hplain hacyclic hi hj hm hn hne initial

/-! ### An overridden default -/

/-- A method that two interfaces have a default for. -/
def defaultSig : MethodSig := ⟨⟨1⟩, ⟨0⟩⟩

/-- The default that a type declares. -/
def defaultOf (t : TypeId) : Method := ⟨⟨t.val⟩, t, defaultSig, .publicFlag, none⟩

/-- An interface with a default, below other interfaces. -/
def withDefault (t : TypeId) (interfaces : List TypeId) : ClassDef :=
  { ClassDef.ofInterface t with interfaces := interfaces, methods := [defaultOf t] }

/-- With nothing above it, it is one more candidate. -/
theorem add_withDefault_of_new {cs : Candidates} {t : TypeId} (h : cs.slots.contains t = false)
    (v : View) : cs.add v (withDefault t []) (defaultOf t) =
      ⟨cs.slots.insert t (.candidate (defaultOf t)), cs.expanded⟩ := by
  have hnew : ¬ cs.slots.contains (withDefault t []).type = true := Bool.not_eq_true _ ▸ h
  rw [add, if_neg hnew]
  exact congrArg (Candidates.mk · cs.expanded) (View.shade_nil ..)

/-- If it is the first, it is the only candidate. -/
theorem add_withDefault (v : View) (t : TypeId) :
    empty.add v (withDefault t []) (defaultOf t) =
      ⟨OrderedMap.empty.insert t (.candidate (defaultOf t)), []⟩ :=
  add_withDefault_of_new rfl v

/-- Two interfaces with a default, the second below the first. -/
def defaults : View :=
  .ofStore .fresh ((ClassStore.empty.put (withDefault ⟨20⟩ [])).put (withDefault ⟨21⟩ [⟨20⟩])) 20

/-- A class that lists both, the general one first. -/
def implementer : ClassDef :=
  { ClassDef.ofClass ⟨22⟩ (some .object) with interfaces := [⟨20⟩, ⟨21⟩] }

/-- There are no definitions but these two. -/
theorem definition_defaults {t : TypeId} {d : ClassDef} (h : defaults.definition t = some d) :
    t = ⟨20⟩ ∧ d = withDefault ⟨20⟩ [] ∨ t = ⟨21⟩ ∧ d = withDefault ⟨21⟩ [⟨20⟩] :=
  ClassStore.eq_of_get?_put_put h

/-- The second interface lists the first, and there are no other links. -/
theorem lists_defaults {t i : TypeId} (h : defaults.Lists t i) : t = ⟨21⟩ ∧ i = ⟨20⟩ := by
  obtain ⟨d, hd, hi⟩ := h
  rcases definition_defaults hd with ⟨-, rfl⟩ | ⟨rfl, rfl⟩
  · exact absurd hi List.not_mem_nil
  · exact ⟨rfl, List.mem_singleton.1 hi⟩

/-- There is no longer path than this link. -/
theorem transGen_lists_defaults {t i : TypeId} (h : TransGen defaults.Lists t i) :
    t = ⟨21⟩ ∧ i = ⟨20⟩ := by
  obtain ⟨u, hfirst, -⟩ := TransGen.head'_iff.1 h
  obtain ⟨w, -, hlast⟩ := TransGen.tail'_iff.1 h
  exact ⟨(lists_defaults hfirst).1, (lists_defaults hlast).2⟩

/-- No superclass of these interfaces has interfaces. -/
theorem plainAbove_defaults (t : TypeId) : defaults.PlainAbove t := by
  have hsuper {u : TypeId} {d : ClassDef} (hd : defaults.definition u = some d) :
      d.superType = some .object := by
    rcases definition_defaults hd with ⟨-, rfl⟩ | ⟨-, rfl⟩ <;> rfl
  intro d s u e hd hs hpath he
  obtain rfl : TypeId.object = s := Option.some.inj ((hsuper hd).symm.trans hs)
  -- the root class has no definition
  have hobject : defaults.definition .object = none := by decide
  rcases hpath.cases_head with rfl | ⟨w, ⟨f, hf, -⟩, -⟩
  · simp [hobject] at he
  · simp [hobject] at hf

/-- The default of the second interface is the only maximally-specific method. -/
theorem maximallySpecific_defaults_iff {i : TypeId} {m : Method} :
    defaults.MaximallySpecific implementer defaultSig i m ↔ i = ⟨21⟩ ∧ m = defaultOf ⟨21⟩ := by
  have hinherited : defaults.inheritedInterfaces implementer = [⟨20⟩, ⟨21⟩] := by decide
  have hoffers : defaults.Offers implementer defaultSig ⟨21⟩ (defaultOf ⟨21⟩) :=
    ⟨⟨by decide, ⟨21⟩, by rw [hinherited]; decide, .refl⟩, ⟨_, rfl, by decide⟩, by decide,
      by decide⟩
  constructor
  · rintro ⟨⟨hsuper, ⟨d, hd, hm⟩, hflags⟩, hnone⟩
    rcases definition_defaults hd with ⟨rfl, rfl⟩ | ⟨rfl, rfl⟩
    · refine absurd (.single ⟨_, rfl, ?_⟩) (hnone _ _ hoffers (by decide))
      exact List.mem_singleton_self _
    · exact ⟨rfl, (Option.some.inj hm).symm⟩
  · rintro ⟨rfl, rfl⟩
    refine ⟨hoffers, fun j n _ _ hpath => ?_⟩
    exact absurd (transGen_lists_defaults hpath).2 (by decide)

/-- The default of the specific interface wins, though the general one is listed first. -/
theorem collectFromClass_defaults :
    defaults.Coherent ∧ (∀ i, defaults.Named implementer i → defaults.PlainAbove i) ∧
    (∀ t, ¬ TransGen defaults.Lists t t) ∧
    (empty.collectFromClass defaults defaultSig implementer).value.resolve ⟨22⟩ =
      .single ⟨22⟩ ⟨21⟩ (defaultOf ⟨21⟩) := by
  have hcoherent : defaults.Coherent := View.coherent_ofStore _ _ _
  have hacyclic (t : TypeId) : ¬ TransGen defaults.Lists t t := by
    intro h
    obtain ⟨hfirst, hlast⟩ := transGen_lists_defaults h
    exact absurd (hfirst.symm.trans hlast) (by decide)
  refine ⟨hcoherent, fun i _ => plainAbove_defaults i, hacyclic, ?_⟩
  obtain ⟨-, -, -, hresolve⟩ := collectFromClass_maximallySpecific (c := implementer)
    hcoherent (fun i _ => plainAbove_defaults i) hacyclic defaultSig
  refine (hresolve ⟨22⟩).2.1 _ _ (maximallySpecific_defaults_iff.2 ⟨rfl, rfl⟩) (by decide) ?_
  intro j n hj _
  exact (maximallySpecific_defaults_iff.1 hj).1

end Candidates

end Linkage
