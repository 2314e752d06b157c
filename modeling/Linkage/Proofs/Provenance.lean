import Linkage.Proofs.ClassResolution
import Linkage.Proofs.FieldPruning
import Linkage.Proofs.MaximallySpecific
import Linkage.Query

/-!
# Where Results Come From

Every method that a resolved reference comes with was found on some type, and the search came to
that type on some way. This module says which types and which ways these are, for every outcome
and every way to resolve a reference: up the superclasses as far as the bound allows, by way of
interface lists, or, from an interface, straight to the root class.

Nothing is assumed of the hierarchy. Links may form cycles, types may be missing, classes may be
listed as interfaces. Nor is anything assumed of the tables; what a coherent view adds is that a
method found in a table is the first that the definition declares.

## Main definitions

* `View.Supplies`: a type declares a method, or has a signature-polymorphic one of the name.
* `View.Yields`: a look-up on a type finds a method.
* `View.Climbs`, `View.Inherits`: the ways up superclasses, and by interface lists.
* `View.Justified`: an outcome names methods that were found, on types in reach.

## Main results

* `justified_of_run`: every outcome is justified, on any hierarchy and with any tables.
* `resolution_justified`: what this means in a coherent view.
-/

namespace Linkage

open Relation

namespace Candidates

/-- A method that is chosen is a candidate. -/
theorem mem_offers_of_target? {cs : Candidates} {t : TypeId} {m : Method}
    (h : cs.target? = some (t, m)) : (t, m) ∈ cs.offers := by
  have hresolve : cs.resolve t = .single t t m := resolve_eq_single_iff.2 ⟨rfl, h⟩
  rcases cs.resolve_cases t with ⟨-, hnone⟩ | ⟨o, ho, hsingle⟩ | ⟨-, hseveral⟩
  · rw [hresolve] at hnone
    cases hnone
  · rw [hresolve] at hsingle
    cases hsingle
    exact ho
  · rw [hresolve] at hseveral
    cases hseveral

/-- A candidate is defined, and its table has the method. -/
theorem of_mem_offers {v : View} {c : ClassDef} {sig : MethodSig} (htyped : v.Typed)
    {o : TypeId × Method} (ho : o ∈ (empty.collectFromClass v sig c).value.offers) :
    (v.definition o.1).isSome ∧ (v.table o.1).method? sig = some o.2 := by
  have hfound := (shadowing_collectFromClass htyped sig c).offers_sublist.subset ho
  obtain ⟨d, hd, rfl⟩ := List.mem_map.1 hfound
  obtain ⟨-, hdef, hm⟩ := (mem_found htyped).1 hd
  exact ⟨by rw [hdef]; rfl, (Option.filter_eq_some_iff.1 hm).1⟩

end Candidates

namespace View

variable {v : View} {sig : MethodSig} {t : TypeId} {m : Method}

/-! ### What is found -/

/-- A type declares a method of a signature. -/
def Declares (v : View) (t : TypeId) (sig : MethodSig) (m : Method) : Prop :=
  ∃ d, v.definition t = some d ∧ d.method? sig = some m

/-- A type supplies a method for a signature: it declares the method, or has a signature-polymorphic
one of the name. -/
def Supplies (v : View) (t : TypeId) (sig : MethodSig) (m : Method) : Prop :=
  v.Declares t sig m ∨ ∃ d, v.definition t = some d ∧ v.SignaturePolymorphic d sig.name m

/-- **A look-up on a type finds a method**: the type's table has it under the signature, or the
type's definition has it as a signature-polymorphic one of the name. -/
def Yields (v : View) (t : TypeId) (sig : MethodSig) (m : Method) : Prop :=
  (v.table t).method? sig = some m ∨
    ∃ d, v.definition t = some d ∧ v.SignaturePolymorphic d sig.name m

/-- In a coherent view, what is declared can be read off the tables. -/
theorem declares_iff (h : v.Coherent) : v.Declares t sig m ↔ (v.table t).method? sig = some m := by
  rw [h.method?_table, Option.bind_eq_some_iff, Declares]

/-- What a type has is what its table supplies. -/
theorem yields_iff (h : v.Coherent) : v.Yields t sig m ↔ v.Supplies t sig m := by
  rw [Yields, Supplies, declares_iff h]

/-! ### Ways up -/

/-- As many superclass links lead from one type to another. -/
inductive Climbs (v : View) : Nat → TypeId → TypeId → Prop
  | refl (t : TypeId) : Climbs v 0 t t
  | head {n : Nat} {t s u : TypeId} (hlink : v.Extends t s) (hrest : Climbs v n s u) :
      Climbs v (n + 1) t u

/-- Links to super types and interfaces lead from one type to another, the last of them to an
interface. -/
def Inherits (v : View) (t i : TypeId) : Prop := ∃ u, ReflTransGen v.Below t u ∧ v.Lists u i

/-- **The types in reach** of another: up to the bound the superclasses, the type itself among
them; what interface lists lead to; and for an interface the root class. -/
def InReach (v : View) (t u : TypeId) : Prop :=
  (∃ n ≤ v.bound, v.Climbs n t u) ∨ v.Inherits t u ∨
    u = v.wellKnown.object ∧ ∃ d, v.definition t = some d ∧ d.isInterface = true

/-- The type at which the search for a method begins: for an array type the root class. -/
def start (v : View) (holder : TypeId) : TypeId :=
  if v.isArray holder then v.wellKnown.object else holder

/-- **An outcome is justified** for a search that began at a type. A method found was found on a
type in reach; one that is out of reach is private, and a superclass within the bound has it; and
methods that compete are concrete ones of several superinterfaces. -/
def Justified (v : View) (start : TypeId) (sig : MethodSig) : Resolution → Prop
  | .single initial t m =>
    initial = start ∧ (v.definition t).isSome ∧ v.Yields t sig m ∧ v.InReach start t
  | .illegalAccess m =>
    m.access.isPrivate = true ∧ ∃ t n, t ≠ start ∧ n ≤ v.bound ∧ v.Climbs n start t ∧
      (v.definition t).isSome ∧ (v.table t).method? sig = some m
  | .incompatibleClass ms =>
    ms = [] ∨ ∃ offers : List (TypeId × Method), ms = offers.map Prod.snd ∧ 2 ≤ offers.length ∧
      (offers.map Prod.fst).Nodup ∧ ∀ o ∈ offers, v.Inherits start o.1 ∧
        (v.definition o.1).isSome ∧ (v.table o.1).method? sig = some o.2 ∧
        o.2.access.isConcreteVirtual = true
  | _ => True

/-! ### By way of interface lists -/

/-- An interface that is listed is right above. -/
theorem below_of_lists {t i : TypeId} (h : v.Lists t i) : v.Below t i := by
  obtain ⟨d, hd, hi⟩ := h
  exact below_of_interfaces hd hi

/-- What is pending is above a type: an interface is listed there, and a superclass is reached. -/
def PendingAbove (v : View) (start : TypeId) : Pending → Prop
  | .interface t => v.Inherits start t
  | .superclass t _ => ReflTransGen v.Below start t

/-- What is ahead of a type is above where the search began. -/
theorem pendingAbove_ahead {start : TypeId} {c : ClassDef} (hpath : ReflTransGen v.Below start t)
    (hc : v.definition t = some c) (links : Nat) :
    ∀ p ∈ c.ahead links, v.PendingAbove start p :=
  Pending.forall_mem_iff.2 ⟨fun _ hi => ⟨t, hpath, c, hc, hi⟩,
    fun _ hs => hpath.tail (below_of_superType hc hs)⟩

/-- **A sweep finds methods on superinterfaces**, in their tables. -/
theorem inherits_of_declares_mem {start : TypeId} {seen : List TypeId} {pending : List Pending}
    {d : ClassDef} (hpending : ∀ p ∈ pending, v.PendingAbove start p)
    (hmem : .declares t d m ∈ v.sweep sig seen pending) :
    v.Inherits start t ∧ v.definition t = some d ∧ v.heritable t sig = some m := by
  induction seen, pending using sweep.induct v sig with
  | case1 seen =>
      rw [sweep_nil] at hmem
      cases hmem
  | case2 seen u rest hu ih =>
      rw [sweep_interface_undefined hu] at hmem
      exact ih (List.forall_mem_cons.1 hpending).2 hmem
  | case3 seen u rest e he n hn ih =>
      rw [sweep_interface_declares he hn] at hmem
      obtain ⟨hinherits, hrest⟩ := List.forall_mem_cons.1 hpending
      rcases List.mem_cons.1 hmem with heq | hmem
      · obtain ⟨rfl, rfl, rfl⟩ := Sight.declares.inj heq
        exact ⟨hinherits, he, hn⟩
      · exact ih hrest hmem
  | case4 seen u rest e he hn hu ih =>
      rw [sweep_interface_passes he hn hu] at hmem
      refine ih (List.forall_mem_cons.1 hpending).2 ?_
      simpa using hmem
  | case5 seen u rest e he hn hu _ ih =>
      rw [sweep_interface_expands he hn hu] at hmem
      obtain ⟨⟨w, hpath, hlists⟩, hrest⟩ := List.forall_mem_cons.1 hpending
      have hahead := pendingAbove_ahead (hpath.tail (below_of_lists hlists)) he 0
      refine ih (List.forall_mem_append.2 ⟨hahead, hrest⟩) ?_
      simpa using hmem
  | case6 seen u links rest hl ih =>
      rw [sweep_superclass_cut hl] at hmem
      refine ih (List.forall_mem_cons.1 hpending).2 ?_
      simpa using hmem
  | case7 seen u links rest hl hu ih =>
      rw [sweep_superclass_undefined (Nat.not_le.1 hl) hu] at hmem
      exact ih (List.forall_mem_cons.1 hpending).2 hmem
  | case8 seen u links rest hl e he ih =>
      rw [sweep_superclass_enters (Nat.not_le.1 hl) he] at hmem
      obtain ⟨hpath, hrest⟩ := List.forall_mem_cons.1 hpending
      have hahead := pendingAbove_ahead hpath he (links + 1)
      exact ih (List.forall_mem_append.2 ⟨hahead, hrest⟩) hmem

/-- A candidate was found on a superinterface, whose definition names the type on record. -/
theorem exists_inherits_of_mem_offers {holder : TypeId} {c : ClassDef}
    (hc : v.definition holder = some c) {o : TypeId × Method}
    (ho : o ∈ (Candidates.empty.collectFromClass v sig c).value.offers) :
    ∃ t d, v.Inherits holder t ∧ v.definition t = some d ∧ d.type = o.1 ∧
      (v.table t).method? sig = some o.2 := by
  have hmem := (Candidates.offers_foldl_add v ((v.sweep sig [] (c.ahead 0)).filterMap
    Sight.declared?) Candidates.empty).subset ho
  rw [show Candidates.empty.offers = [] from rfl, List.nil_append] at hmem
  obtain ⟨⟨d, m⟩, hd, rfl⟩ := List.mem_map.1 hmem
  obtain ⟨x, hx, hxd⟩ := List.mem_filterMap.1 hd
  obtain ⟨t, rfl⟩ : ∃ t, x = .declares t d m := by
    cases x <;> simp_all [Sight.declared?]
  obtain ⟨hinherits, hdef, hm⟩ :=
    inherits_of_declares_mem (pendingAbove_ahead .refl hc 0) hx
  exact ⟨t, d, hinherits, hdef, rfl, (Option.filter_eq_some_iff.1 hm).1⟩

/-- Where definitions are found under their own types, the candidate is that interface. -/
theorem inherits_of_mem_offers (htyped : v.Typed) {c : ClassDef} (hc : v.definition c.type = some c)
    {o : TypeId × Method} (ho : o ∈ (Candidates.empty.collectFromClass v sig c).value.offers) :
    v.Inherits c.type o.1 := by
  obtain ⟨u, d, hinherits, hdef, htype, -⟩ := exists_inherits_of_mem_offers hc ho
  rwa [← htype, htyped hdef]

/-! ### Each way to resolve a reference -/

/-- **The climb** finds what it returns on a class that superclass links lead to, as many as it had
left. -/
theorem justified_of_climb (htyped : v.Typed) {holder : TypeId} {c : ClassDef} {links : Nat}
    {r : Resolution} (hc : v.definition c.type = some c) (hlinks : links ≤ v.bound)
    (h : (v.climb sig holder c links).value = .ok (some r)) :
    ∃ n t m, n + links ≤ v.bound ∧ v.Climbs n c.type t ∧ (v.definition t).isSome ∧
      (r = .single holder t m ∧ v.Yields t sig m ∨
        r = .illegalAccess m ∧ m.access.isPrivate = true ∧ t ≠ holder ∧
          (v.table t).method? sig = some m) := by
  have hdefined : (v.definition c.type).isSome := by rw [hc]; rfl
  cases hp : v.polymorphic? c sig.name with
  | some m =>
      rw [climb_polymorphic hp, Walk.value_pure, Except.ok.injEq, Option.some.injEq] at h
      exact ⟨0, c.type, m, by omega, .refl _, hdefined,
        .inl ⟨h.symm, .inr ⟨c, hc, polymorphic?_eq_some_iff.1 hp⟩⟩⟩
  | none =>
      cases hm : (v.table c.type).method? sig with
      | some m =>
          rw [climb_declares hp hm, Walk.value_bind, Walk.value_pure, Except.ok.injEq,
            Option.some.injEq] at h
          refine ⟨0, c.type, m, by omega, .refl _, hdefined, ?_⟩
          split at h
          · next hprivate => exact .inr ⟨h.symm, hprivate.1, hprivate.2, hm⟩
          · exact .inl ⟨h.symm, .inl hm⟩
      | none =>
          cases hs : c.superType.bind v.definition with
          | none =>
              rw [climb_top hp hm hs, Walk.value_bind, Walk.value_pure] at h
              cases h
          | some d =>
              obtain ⟨s, hsuper, hd⟩ := Option.bind_eq_some_iff.1 hs
              obtain rfl : d.type = s := htyped hd
              by_cases hl : links < v.bound
              · rw [climb_super hp hm hs hl, Walk.value_bind] at h
                obtain ⟨n, t, m, hn, hpath, hr⟩ := justified_of_climb htyped hd hl h
                exact ⟨n + 1, t, m, by omega, .head ⟨c, hc, hsuper⟩ hpath, hr⟩
              · by_cases hmax : links = maxLinks
                · rw [hmax, climb_overflow hp hm hs, Walk.value_bind, Walk.value_pure] at h
                  cases h
                · rw [climb_cut hp hm hs (Nat.not_lt.1 hl) hmax, Walk.value_bind, Walk.value_bind,
                    Walk.value_pure] at h
                  cases h
termination_by v.bound - links

/-- What is chosen among the superinterfaces is the method of one of them, and what competes there
are the methods of several. -/
theorem justified_resolveInherited (htyped : v.Typed) {c : ClassDef}
    (hc : v.definition c.type = some c) :
    v.Justified c.type sig (v.resolveInherited c sig).value := by
  rw [resolveInherited, Walk.value_bind, Walk.value_pure]
  cases hr : (Candidates.empty.collectFromClass v sig c).value.resolve c.type with
  | single a t m =>
      obtain ⟨rfl, htarget⟩ := Candidates.resolve_eq_single_iff.1 hr
      have hmem := Candidates.mem_offers_of_target? htarget
      obtain ⟨hdefined, hm⟩ := Candidates.of_mem_offers htyped hmem
      exact ⟨rfl, hdefined, .inl hm, .inr (.inl (inherits_of_mem_offers htyped hc hmem))⟩
  | incompatibleClass ms =>
      obtain ⟨hseveral, rfl⟩ := Candidates.resolve_eq_incompatibleClass_iff.1 hr
      refine .inr ⟨_, rfl, hseveral, ?_, fun o ho => ?_⟩
      · exact (List.filter_sublist.map Prod.fst).nodup (Candidates.nodup_holders _)
      · obtain ⟨hmem, hconcrete⟩ := List.mem_filter.1 ho
        obtain ⟨hdefined, hm⟩ := Candidates.of_mem_offers htyped hmem
        exact ⟨inherits_of_mem_offers htyped hc hmem, hdefined, hm, hconcrete⟩
  | illegalAccess m =>
      rw [Candidates.resolve] at hr
      split at hr <;> cases hr
  | _ => trivial

/-- What a reference to a defined class resolves to is justified. -/
theorem justified_resolveOnClassDef (htyped : v.Typed) {c : ClassDef} {r : Resolution}
    (hc : v.definition c.type = some c) (h : (v.resolveOnClassDef c sig).value = .ok r) :
    v.Justified c.type sig r := by
  rw [resolveOnClassDef, Walk.value_bind] at h
  cases hclimb : (v.climb sig c.type c 0).value with
  | error e =>
      rw [hclimb] at h
      cases h
  | ok r? =>
      rw [hclimb] at h
      cases r? with
      | none =>
          simp only [Walk.value_bind, Walk.value_pure, Except.ok.injEq] at h
          subst h
          exact justified_resolveInherited htyped hc
      | some r' =>
          simp only [Walk.value_pure, Except.ok.injEq] at h
          subst h
          obtain ⟨n, t, m, hn, hpath, hdefined, ⟨rfl, hm⟩ | ⟨rfl, hprivate, hne, hm⟩⟩ :=
            justified_of_climb htyped hc (Nat.zero_le _) hclimb
          · exact ⟨rfl, hdefined, hm, .inl ⟨n, hn, hpath⟩⟩
          · exact ⟨hprivate, t, n, hne, hn, hpath, hdefined, hm⟩

/-- What a reference to a defined interface resolves to is justified. -/
theorem justified_resolveOnInterfaceDef (htyped : v.Typed) {c : ClassDef} {r : Resolution}
    (hc : v.definition c.type = some c) (hinterface : c.isInterface = true)
    (h : (v.resolveOnInterfaceDef c sig).value = r) : v.Justified c.type sig r := by
  rw [resolveOnInterfaceDef, Walk.value_bind, value_readMethod] at h
  cases hm : (v.table c.type).method? sig with
  | some m =>
      rw [hm] at h
      subst h
      exact ⟨rfl, by rw [hc]; rfl, .inl hm, .inl ⟨0, Nat.zero_le _, .refl _⟩⟩
  | none =>
      simp only [hm] at h
      cases hobject : v.definition v.wellKnown.object with
      | none =>
          rw [hobject] at h
          subst h
          trivial
      | some o =>
          simp only [hobject, Walk.value_bind, value_readMethod] at h
          split at h
          · next n hn =>
              subst h
              exact ⟨rfl, by rw [hobject]; rfl, .inl (Option.filter_eq_some_iff.1 hn).1,
                .inr (.inr ⟨rfl, c, hc, hinterface⟩)⟩
          · exact h ▸ justified_resolveInherited htyped hc

/-- What a reference to a type that is not an array resolves to is justified. -/
theorem justified_resolveOnPlainClass (htyped : v.Typed) {holder : TypeId} {r : Resolution}
    (h : (v.resolveOnPlainClass holder sig).value = .ok r) : v.Justified holder sig r := by
  rw [resolveOnPlainClass] at h
  cases hc : v.definition holder with
  | none =>
      rw [hc] at h
      cases h
      trivial
  | some c =>
      obtain rfl : c.type = holder := htyped hc
      simp only [hc] at h
      split at h
      · cases h
        exact .inl rfl
      · exact justified_resolveOnClassDef htyped hc h

/-- What a reference to an array type resolves to is justified. -/
theorem justified_resolveOnArray (htyped : v.Typed) {r : Resolution}
    (h : (v.resolveOnArray sig).value = .ok r) : v.Justified v.wellKnown.object sig r := by
  rw [resolveOnArray] at h
  split at h
  · cases h
    trivial
  · exact justified_resolveOnPlainClass htyped h

/-- What a class reference resolves to is justified. -/
theorem justified_resolveOnClass (htyped : v.Typed) {holder : TypeId} {r : Resolution}
    (h : (v.resolveOnClass holder sig).value = .ok r) : v.Justified (v.start holder) sig r := by
  rw [resolveOnClass] at h
  rw [start]
  split at h <;> rename_i harray <;> simp only [harray]
  · exact justified_resolveOnArray htyped h
  · exact justified_resolveOnPlainClass htyped h

/-- What an interface reference resolves to is justified. -/
theorem justified_resolveOnInterface (htyped : v.Typed) {holder : TypeId} {r : Resolution}
    (h : (v.resolveOnInterface holder sig).value = .ok r) :
    v.Justified (v.start holder) sig r := by
  rw [resolveOnInterface] at h
  rw [start]
  split at h <;> rename_i harray <;> simp only [harray]
  · cases h
    exact .inl rfl
  · cases hc : v.definition holder with
    | none =>
        rw [hc] at h
        cases h
        trivial
    | some c =>
        obtain rfl : c.type = holder := htyped hc
        simp only [hc] at h
        split at h
        · next hinterface =>
            rw [Walk.value_map, Except.ok.injEq] at h
            exact justified_resolveOnInterfaceDef htyped hc hinterface h
        · cases h
          exact .inl rfl

/-- What a reference that follows the definition resolves to is justified. -/
theorem justified_resolveStructural (htyped : v.Typed) {holder : TypeId} {r : Resolution}
    (h : (v.resolveStructural holder sig).value = .ok r) :
    v.Justified (v.start holder) sig r := by
  rw [resolveStructural] at h
  rw [start]
  split at h <;> rename_i harray <;> simp only [harray]
  · exact justified_resolveOnArray htyped h
  · cases hc : v.definition holder with
    | none =>
        rw [hc] at h
        cases h
        trivial
    | some c =>
        obtain rfl : c.type = holder := htyped hc
        simp only [hc] at h
        split at h
        · next hinterface =>
            rw [Walk.value_map, Except.ok.injEq] at h
            exact justified_resolveOnInterfaceDef htyped hc hinterface h
        · exact justified_resolveOnClassDef htyped hc h

/-- **Every outcome is justified**, whichever way a reference is resolved. -/
theorem justified_of_run (htyped : v.Typed) {q : Query} {holder : TypeId} {r : Resolution}
    (hholder : q.resolvedOn? = some holder) (hsig : q.sig? = some sig)
    (h : (q.run v).value = .ok (.resolution r)) : v.Justified (v.start holder) sig r := by
  refine Query.resolution_cases ?_ ?_ ?_ hholder hsig h
  · exact fun hvalue => justified_resolveOnClass htyped hvalue
  · exact fun hvalue => justified_resolveOnInterface htyped hvalue
  · exact fun hvalue => justified_resolveStructural htyped hvalue

/-- **Every outcome is justified**, on every hierarchy, be it cyclic or full of gaps.

A single method was asked for on the type where the search began. It is found on a type that is
defined and in reach, and this type declares it, or has it as a signature-polymorphic one. A method
out of reach is a private one that another class declares, within the bound above that type. And
methods that compete are more than one, each declared by an interface of its own, neither abstract
nor static nor private. -/
theorem resolution_justified (hcoherent : v.Coherent) {q : Query} {holder : TypeId}
    {r : Resolution} (hholder : q.resolvedOn? = some holder) (hsig : q.sig? = some sig)
    (h : (q.run v).value = .ok (.resolution r)) :
    (∀ i t m, r = .single i t m →
      i = v.start holder ∧ (v.definition t).isSome ∧ v.Supplies t sig m ∧ v.InReach i t) ∧
    (∀ m, r = .illegalAccess m → m.access.isPrivate = true ∧
      ∃ t n, t ≠ v.start holder ∧ n ≤ v.bound ∧ v.Climbs n (v.start holder) t ∧
        v.Declares t sig m) ∧
    (∀ ms, r = .incompatibleClass ms → ms = [] ∨
      ∃ offers : List (TypeId × Method), ms = offers.map Prod.snd ∧ 2 ≤ offers.length ∧
        (offers.map Prod.fst).Nodup ∧ ∀ o ∈ offers, v.Declares o.1 sig o.2 ∧
          v.Inherits (v.start holder) o.1 ∧ o.2.access.isAbstract = false ∧
          o.2.access.isStatic = false ∧ o.2.access.isPrivate = false) := by
  have hjustified := justified_of_run hcoherent.typed hholder hsig h
  refine ⟨?_, ?_, ?_⟩
  · rintro i t m rfl
    obtain ⟨rfl, hdefined, hm, hreach⟩ := hjustified
    exact ⟨rfl, hdefined, (yields_iff hcoherent).1 hm, hreach⟩
  · rintro m rfl
    obtain ⟨hprivate, t, n, hne, hn, hpath, -, hm⟩ := hjustified
    exact ⟨hprivate, t, n, hne, hn, hpath, (declares_iff hcoherent).2 hm⟩
  · rintro ms rfl
    rcases hjustified with hempty | ⟨offers, hms, hseveral, hnodup, hoffers⟩
    · exact .inl hempty
    · refine .inr ⟨offers, hms, hseveral, hnodup, fun o ho => ?_⟩
      obtain ⟨hinherits, -, hm, hconcrete⟩ := hoffers o ho
      rw [Access.isConcreteVirtual_eq] at hconcrete
      simp only [Bool.and_eq_true, Bool.not_eq_true'] at hconcrete
      exact ⟨(declares_iff hcoherent).2 hm, hinherits, hconcrete.1.1, hconcrete.1.2, hconcrete.2⟩

/-- The private method of `reserved` is one that a class above declares. -/
theorem resolution_belowReserved :
    belowReserved.Coherent ∧
    ((Query.resolveOnClass ⟨31⟩ ⟨⟨1⟩, ⟨0⟩⟩).run belowReserved).value =
      .ok (.resolution (.illegalAccess ⟨⟨0⟩, ⟨30⟩, ⟨⟨1⟩, ⟨0⟩⟩, .privateFlag, none⟩)) ∧
    ∃ t n, t ≠ belowReserved.start ⟨31⟩ ∧ n ≤ belowReserved.bound ∧
      belowReserved.Climbs n (belowReserved.start ⟨31⟩) t ∧
      belowReserved.Declares t ⟨⟨1⟩, ⟨0⟩⟩ ⟨⟨0⟩, ⟨30⟩, ⟨⟨1⟩, ⟨0⟩⟩, .privateFlag, none⟩ := by
  have hcoherent : belowReserved.Coherent := coherent_ofStore _ _ _
  have hchain : ClassDef.ofClass ⟨31⟩ (some ⟨30⟩) ::
      belowReserved.superclasses belowReserved.bound
        (ClassDef.ofClass ⟨31⟩ (some ⟨30⟩)).superType =
          [ClassDef.ofClass ⟨31⟩ (some ⟨30⟩)] ++ reserved :: [] := by decide
  have hpolymorphic : ∀ c ∈ [ClassDef.ofClass ⟨31⟩ (some ⟨30⟩), reserved],
      belowReserved.polymorphic? c ⟨1⟩ = none := by decide +kernel
  have hpre : ∀ e ∈ [ClassDef.ofClass ⟨31⟩ (some ⟨30⟩)],
      belowReserved.HasNothing ⟨⟨1⟩, ⟨0⟩⟩ e := by
    intro e he
    obtain rfl := List.mem_singleton.1 he
    exact ⟨polymorphic?_eq_none_iff.1 (hpolymorphic _ List.mem_cons_self), rfl⟩
  have hvalue : (belowReserved.resolveOnClass ⟨31⟩ ⟨⟨1⟩, ⟨0⟩⟩).value =
      .ok (.illegalAccess ⟨⟨0⟩, ⟨30⟩, ⟨⟨1⟩, ⟨0⟩⟩, .privateFlag, none⟩) := by
    rw [value_resolveOnClass hcoherent (by decide) (by decide +kernel)
      (c := ClassDef.ofClass ⟨31⟩ (some ⟨30⟩)) rfl rfl, hchain,
      findSome?_answer? hpre (answer?_of_method (hpolymorphic _ (by simp)) rfl), Option.getD_some]
    rfl
  have hrun : ((Query.resolveOnClass ⟨31⟩ ⟨⟨1⟩, ⟨0⟩⟩).run belowReserved).value =
      .ok (.resolution (.illegalAccess ⟨⟨0⟩, ⟨30⟩, ⟨⟨1⟩, ⟨0⟩⟩, .privateFlag, none⟩)) :=
    congrArg Answer.ofResolution hvalue
  exact ⟨hcoherent, hrun, ((resolution_justified hcoherent rfl rfl hrun).2.1 _ rfl).2⟩

end View

end Linkage
