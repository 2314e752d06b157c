import Linkage.Proofs.FieldPruning
import Linkage.Proofs.Tour
import Mathlib.Data.List.Dedup
import Mathlib.Data.List.Perm.Subperm

/-!
# Fields in Reach

The field search may miss a field, because it enters no type twice and counts links along each path.
It misses none if the bound is no obstacle: if wherever links lead from the types that are pending,
without coming to a type twice, they are no more than may still be followed. Then the search looks
at the types in reach in the order of a depth-first tour, each with its interfaces before its
superclass, and the field found is that of the first type on the tour that declares one.

This is so in particular if as many links may be followed as there are types defined, whether or not
the links form cycles.

## Main definitions

* `View.supertypeLinks`: the links from a type to its interfaces and its superclass.
* `View.Path`: links lead from one type to the next, all of them defined.
* `View.Roomy`: the bound is no obstacle to what is pending.

## Main results

* `Roomy.expand`: what is above a type has room if the type had.
* `value_searchField_eq_tour`: the search is a tour up to the first declaration.
* `resolveField_finds_first`: which field is found, if there are no more types than links to follow.
-/

namespace Linkage

open Relation

namespace View

variable {v : View} {sig : FieldSig}

/-! ### Links to supertypes -/

/-- The links from a type to its interfaces, in the order of their declaration, and then to its
superclass. -/
def supertypeLinks (v : View) : Links where
  next t := (v.definition t).map ClassDef.supertypes
  domain := v.domain
  mem_domain h := by
    obtain ⟨c, hc, -⟩ := Option.map_eq_some_iff.1 h
    exact v.mem_domain hc

/-- Links lead from a type with a definition to its supertypes. -/
theorem next_supertypeLinks_defined {t : TypeId} {c : ClassDef} (h : v.definition t = some c) :
    v.supertypeLinks.next t = some c.supertypes :=
  congrArg (Option.map ClassDef.supertypes) h

/-- No links lead on from a type without a definition. -/
theorem next_supertypeLinks_undefined {t : TypeId} (h : v.definition t = none) :
    v.supertypeLinks.next t = none :=
  congrArg (Option.map ClassDef.supertypes) h

/-- A type has links exactly if it has a definition. -/
theorem isSome_next_supertypeLinks (v : View) (t : TypeId) :
    (v.supertypeLinks.next t).isSome = (v.definition t).isSome := Option.isSome_map

/-- A link leads to what is right above. -/
theorem step_supertypeLinks (v : View) : v.supertypeLinks.Step = v.Below := by
  funext t u
  refine propext ⟨?_, ?_⟩
  · rintro ⟨us, hus, hu⟩
    obtain ⟨c, hc, rfl⟩ := Option.map_eq_some_iff.1 hus
    exact ⟨c, hc, hu⟩
  · rintro ⟨c, hc, hu⟩
    exact ⟨c.supertypes, next_supertypeLinks_defined hc, hu⟩

/-! ### Room for a search -/

/-- **A path** among defined types: links lead from a type to the first of some others, and from
each of these to the next. There are as many links as others. -/
def Path (v : View) (t : TypeId) (us : List TypeId) : Prop :=
  (t :: us).IsChain v.Below ∧ ∀ u ∈ t :: us, (v.definition u).isSome

/-- A type with a definition is a path of its own. -/
theorem path_nil {t : TypeId} (h : (v.definition t).isSome) : v.Path t [] :=
  ⟨.singleton t, List.forall_mem_singleton.2 h⟩

/-- A path can be continued downwards. -/
theorem Path.cons {t u : TypeId} {us : List TypeId} (h : v.Path u us) (hbelow : v.Below t u) :
    v.Path t (u :: us) := by
  obtain ⟨c, hc, -⟩ := id hbelow
  exact ⟨h.1.cons_cons hbelow, List.forall_mem_cons.2 ⟨by rw [hc]; rfl, h.2⟩⟩

/-- **The bound is no obstacle**: on paths that lead from the pending types, coming to no type twice
and to none that was searched, there are no more links than may still be followed. -/
def Roomy (v : View) (searched : List TypeId) (pending : List (TypeId × Nat)) : Prop :=
  ∀ p ∈ pending, ∀ us, v.Path p.1 us → (p.1 :: us).Nodup → (∀ u ∈ p.1 :: us, u ∉ searched) →
    p.2 + us.length ≤ v.bound

section Roomy

variable {searched : List TypeId} {pending rest : List (TypeId × Nat)} {t : TypeId} {k : Nat}

/-- If there is room for all that is pending, there is room for the rest. -/
theorem Roomy.tail (h : v.Roomy searched ((t, k) :: rest)) : v.Roomy searched rest :=
  fun p hp => h p (List.mem_cons_of_mem _ hp)

/-- What has been searched needs no room. -/
theorem Roomy.enter (h : v.Roomy searched pending) (t : TypeId) :
    v.Roomy (t :: searched) pending :=
  fun p hp us hpath hnodup hnew => h p hp us hpath hnodup fun u hu hmem =>
    hnew u hu (List.mem_cons_of_mem _ hmem)

/-- A type that is to be entered is within the bound. -/
theorem Roomy.le (h : v.Roomy searched ((t, k) :: rest)) (hdef : (v.definition t).isSome)
    (hnew : t ∉ searched) : k ≤ v.bound :=
  h (t, k) List.mem_cons_self [] (path_nil hdef) (List.nodup_singleton t)
    (List.forall_mem_singleton.2 hnew)

/-- **What is above a type has room** if the type had: a path from there that does not come back to
the type is part of one from the type, with one link less. -/
theorem Roomy.expand {c : ClassDef} (h : v.Roomy searched ((t, k) :: rest))
    (hc : v.definition t = some c) (hnew : t ∉ searched) :
    v.Roomy (t :: searched) (c.supertypes.map (·, k + 1) ++ rest) := by
  intro p hp us hpath hnodup houtside
  rcases List.mem_append.1 hp with hp | hp
  · obtain ⟨u, hu, rfl⟩ := List.mem_map.1 hp
    have ht : t ∉ u :: us := fun hmem => houtside t hmem List.mem_cons_self
    have hroom := h (t, k) List.mem_cons_self (u :: us) (hpath.cons ⟨c, hc, hu⟩)
      (List.nodup_cons.2 ⟨ht, hnodup⟩) (List.forall_mem_cons.2 ⟨hnew, fun w hw hmem =>
        houtside w hw (List.mem_cons_of_mem _ hmem)⟩)
    rw [List.length_cons] at hroom
    dsimp only at hroom ⊢
    omega
  · exact h.tail.enter t p hp us hpath hnodup houtside

/-- **With room enough the search is a tour**, up to the first type that declares the field.
Induction on the run; what the tour has met are the types searched that are defined. -/
theorem value_searchField_eq_tour {met : List TypeId} (h : v.Roomy searched pending)
    (hmet : ∀ t, (v.definition t).isSome → (t ∈ met ↔ t ∈ searched)) :
    (v.searchField sig searched pending).value =
      (v.supertypeLinks.tour met (pending.map Prod.fst)).findSome?
        fun t => (v.table t).field? sig := by
  induction searched, pending using visits.induct v sig generalizing met with
  | case1 searched => rw [searchField_nil, List.map_nil, Links.tour_nil]; rfl
  | case2 searched t depth rest hd ih =>
      rw [searchField_cut hd, Walk.value_bind, ih h.tail hmet, List.map_cons]
      cases hc : v.definition t with
      | none => rw [Links.tour_unlinked (next_supertypeLinks_undefined hc)]
      | some c =>
          -- out of bounds, and so it has been searched
          have hdef : (v.definition t).isSome := by rw [hc]; rfl
          have ht : t ∈ searched := by
            refine Classical.byContradiction fun ht => ?_
            exact Nat.not_lt.2 (h.le hdef ht) hd
          rw [Links.tour_met ((hmet t hdef).2 ht)]
  | case3 searched t depth rest hd ht ih =>
      rw [searchField_searched (Nat.not_lt.1 hd) ht, ih h.tail hmet, List.map_cons]
      cases hc : v.definition t with
      | none => rw [Links.tour_unlinked (next_supertypeLinks_undefined hc)]
      | some c => rw [Links.tour_met ((hmet t (by rw [hc]; rfl)).2 ht)]
  | case4 searched t depth rest hd ht hc ih =>
      rw [searchField_undefined (Nat.not_lt.1 hd) ht hc, List.map_cons,
        Links.tour_unlinked (next_supertypeLinks_undefined hc)]
      refine ih (h.tail.enter t) fun u hu => ?_
      rw [hmet u hu, List.mem_cons, or_iff_right]
      rintro rfl
      simp [hc] at hu
  | case5 searched t depth rest hd ht c hc f hf =>
      have hnew : t ∉ met := fun hmem => ht ((hmet t (by rw [hc]; rfl)).1 hmem)
      rw [searchField_declares (Nat.not_lt.1 hd) ht hc hf, List.map_cons,
        Links.tour_fresh (next_supertypeLinks_defined hc) hnew, List.findSome?_cons, hf]
      rfl
  | case6 searched t depth rest hd ht c hc hf _ ih =>
      have hnew : t ∉ met := fun hmem => ht ((hmet t (by rw [hc]; rfl)).1 hmem)
      have hmap : (c.supertypes.map (·, depth + 1)).map Prod.fst = c.supertypes := by
        rw [List.map_map]
        exact List.map_id _
      rw [searchField_expands (Nat.not_lt.1 hd) ht hc hf, Walk.value_bind, List.map_cons,
        Links.tour_fresh (next_supertypeLinks_defined hc) hnew, List.findSome?_cons, hf]
      have hentered : ∀ u, (v.definition u).isSome → (u ∈ t :: met ↔ u ∈ t :: searched) := by
        intro u hu
        rw [List.mem_cons, List.mem_cons, hmet u hu]
      refine (ih (h.expand hc ht) hentered).trans ?_
      rw [List.map_append, hmap]

end Roomy

/-- A search from one type, with room for all paths from there. -/
theorem value_resolveField_eq_tour {holder : TypeId}
    (hroom : ∀ us, v.Path holder us → (holder :: us).Nodup → us.length ≤ v.bound)
    (sig : FieldSig) :
    (v.resolveField holder sig).value = (v.supertypeLinks.tour [] [holder]).findSome?
      fun t => (v.table t).field? sig := by
  have hstart : v.Roomy [] [(holder, 0)] := by
    intro p hp us hpath hnodup _
    obtain rfl := List.mem_singleton.1 hp
    rw [Nat.zero_add]
    exact hroom us hpath hnodup
  exact value_searchField_eq_tour hstart fun _ _ => Iff.rfl

/-! ### As many links as types -/

/-- The types that are defined, each once. -/
def definedTypes (v : View) : List TypeId :=
  v.domain.dedup.filter fun t => (v.definition t).isSome

/-- The defined types are those with a definition. -/
theorem mem_definedTypes {t : TypeId} : t ∈ v.definedTypes ↔ (v.definition t).isSome := by
  rw [definedTypes, List.mem_filter, List.mem_dedup, and_iff_right_iff_imp]
  intro h
  obtain ⟨c, hc⟩ := Option.isSome_iff_exists.1 h
  exact v.mem_domain hc

/-- Different types with definitions are no more than there are. -/
theorem length_le_definedTypes {ts : List TypeId} (hnodup : ts.Nodup)
    (hdef : ∀ t ∈ ts, (v.definition t).isSome) : ts.length ≤ v.definedTypes.length :=
  (hnodup.subperm fun t ht => mem_definedTypes.2 (hdef t ht)).length_le

/-- A path that comes to no type twice has fewer links than there are types. -/
theorem Path.length_lt {t : TypeId} {us : List TypeId} (h : v.Path t us)
    (hnodup : (t :: us).Nodup) : us.length < v.definedTypes.length :=
  length_le_definedTypes hnodup h.2

/-- **Which field is found**, if no more types are defined than links may be followed, in whatever
way they are linked. One is found exactly if a type in reach declares one: a defined type to which
links lead from the holder, or the holder itself. And it is the declaration of the first of these on
the depth-first tour, which comes to each type in reach once, and from there goes to its interfaces
in order and then to its superclass. -/
theorem resolveField_finds_first (hbound : v.definedTypes.length ≤ v.bound) (holder : TypeId)
    (sig : FieldSig) :
    ((v.resolveField holder sig).value.isSome ↔ ∃ t, ReflTransGen v.Below holder t ∧
      (v.definition t).isSome ∧ ((v.table t).field? sig).isSome) ∧
    (∀ f, (v.resolveField holder sig).value = some f ↔ ∃ before t after,
      v.supertypeLinks.tour [] [holder] = before ++ t :: after ∧
        (v.table t).field? sig = some f ∧ ∀ u ∈ before, (v.table u).field? sig = none) ∧
    (v.supertypeLinks.tour [] [holder]).Nodup ∧
    ∀ t, t ∈ v.supertypeLinks.tour [] [holder] ↔
      ReflTransGen v.Below holder t ∧ (v.definition t).isSome := by
  have htour : (v.resolveField holder sig).value = (v.supertypeLinks.tour [] [holder]).findSome?
      fun t => (v.table t).field? sig :=
    value_resolveField_eq_tour (fun us hpath hnodup =>
      Nat.le_trans (Nat.le_of_lt (hpath.length_lt hnodup)) hbound) sig
  have hreach : ∀ t, t ∈ v.supertypeLinks.tour [] [holder] ↔
      ReflTransGen v.Below holder t ∧ (v.definition t).isSome := by
    intro t
    rw [Links.mem_tour_iff (Links.closed_nil _), Links.Reaches, isSome_next_supertypeLinks,
      step_supertypeLinks]
    simp [and_comm]
  refine ⟨?_, fun f => ?_, Links.nodup_tour _ _ _, hreach⟩
  · rw [htour, List.findSome?_isSome_iff]
    constructor
    · rintro ⟨t, ht, hf⟩
      obtain ⟨hpath, hdef⟩ := (hreach t).1 ht
      exact ⟨t, hpath, hdef, hf⟩
    · rintro ⟨t, hpath, hdef, hf⟩
      exact ⟨t, (hreach t).2 ⟨hpath, hdef⟩, hf⟩
  · rw [htour, List.findSome?_eq_some_iff]

/-! ### A field behind a loop -/

/-- A field of a type. -/
def constantOf (t : TypeId) : Field := { constant with holder := t }

/-- A class, and a superclass with a field. The class implements an interface that lists itself and
another one, which has a field of the same signature and lists the first. As many links may be
followed as there are types. -/
def looped : View :=
  .ofStore .fresh
    ((((ClassStore.empty.put
      { ClassDef.ofClass ⟨44⟩ (some ⟨45⟩) with interfaces := [⟨46⟩] }).put
      { ClassDef.ofClass ⟨45⟩ none with fields := [constantOf ⟨45⟩] }).put
      { ClassDef.ofInterface ⟨46⟩ with interfaces := [⟨46⟩, ⟨47⟩] }).put
      { ClassDef.ofInterface ⟨47⟩ with
        interfaces := [⟨46⟩]
        fields := [constantOf ⟨47⟩] }) 4

/-- The tour goes round no loop, and comes to the superclass last. -/
theorem tour_looped :
    looped.supertypeLinks.tour [] [⟨44⟩] = [⟨44⟩, ⟨46⟩, ⟨47⟩, ⟨45⟩] := by
  have hroot (met rest : List TypeId) : looped.supertypeLinks.tour met (.object :: rest) =
      looped.supertypeLinks.tour met rest :=
    Links.tour_unlinked (next_supertypeLinks_undefined rfl) met rest
  have hclass : looped.supertypeLinks.next ⟨44⟩ = some [⟨46⟩, ⟨45⟩] := rfl
  have hloop : looped.supertypeLinks.next ⟨46⟩ = some [⟨46⟩, ⟨47⟩, .object] := rfl
  have hback : looped.supertypeLinks.next ⟨47⟩ = some [⟨46⟩, .object] := rfl
  have htop : looped.supertypeLinks.next ⟨45⟩ = some [] := rfl
  rw [Links.tour_fresh hclass (by decide)]
  change _ :: looped.supertypeLinks.tour [⟨44⟩] [⟨46⟩, ⟨45⟩] = _
  rw [Links.tour_fresh hloop (by decide)]
  change _ :: _ :: looped.supertypeLinks.tour [⟨46⟩, ⟨44⟩] [⟨46⟩, ⟨47⟩, .object, ⟨45⟩] = _
  rw [Links.tour_met (by decide), Links.tour_fresh hback (by decide)]
  change _ :: _ :: _ :: looped.supertypeLinks.tour [⟨47⟩, ⟨46⟩, ⟨44⟩]
    [⟨46⟩, .object, .object, ⟨45⟩] = _
  rw [Links.tour_met (by decide), hroot, hroot, Links.tour_fresh htop (by decide),
    List.append_nil, Links.tour_nil]

/-- **The interface's field is found**, behind a loop and before that of the superclass. -/
theorem resolveField_looped :
    looped.definedTypes.length ≤ looped.bound ∧ TransGen looped.Below ⟨46⟩ ⟨46⟩ ∧
    (looped.resolveField ⟨44⟩ constant.sig).value = some (constantOf ⟨47⟩) := by
  have hbound : looped.definedTypes.length ≤ looped.bound := by decide
  refine ⟨hbound, .single ⟨_, rfl, by decide⟩, ?_⟩
  refine ((resolveField_finds_first hbound ⟨44⟩ constant.sig).2.1 _).2
    ⟨[⟨44⟩, ⟨46⟩], ⟨47⟩, [⟨45⟩], tour_looped, by decide, by decide⟩

end View

end Linkage
