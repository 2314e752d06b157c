import Linkage.Proofs.CollectionSteps
import Linkage.Proofs.FieldReach

/-!
# Searches End

However malformed a hierarchy is, with interfaces that list themselves, superclass chains that run
in circles and classes in the place of interfaces, and whatever the depth bound, the searches above
a type come to an end. Links that form loops are followed round at most once: what has been expanded
or shadowed is not expanded or shadowed again, and a chain of superclasses is followed only so far.

The searches are told step by step, so that their ends are something to prove. The machine that
answers calls for interfaces is that of `Linkage.Collection`; this module has the one that looks for
a field. Both come to an end by one course only, with what the searches themselves return.

The links that lead to a type are counted by the field search as it goes, one more for each
expansion on the way. So there are never more of them than types are defined, and the count needs no
more room than the types' numbers.

## Main definitions

* `FieldSearch.Step`: a step of the search for a field.

## Main results

* `FieldSearch.nodup_expanded`: each type is expanded at most once.
* `FieldSearch.exists_course`: a course that finds what the search finds.
* `searches_end`: both searches come to an end, and what is done at most how often until then.
-/

namespace Linkage

namespace FieldSearch

/-- The types searched so far, those that are pending, each with the number of links that lead
there, and the field, once one is found. -/
structure State where
  searched : List TypeId
  pending : List (TypeId × Nat)
  answer : Option Field

/-- Only the type where the search begins is pending. -/
def State.start (holder : TypeId) : State := ⟨[], [(holder, 0)], none⟩

/-- **A step** looks at what is pending first. Its move is the type that is expanded, if one is. -/
inductive Step (v : View) (sig : FieldSig) : State → Option TypeId → State → Prop
  | cut {searched : List TypeId} {t : TypeId} {depth : Nat} {rest : List (TypeId × Nat)}
      (hd : v.bound < depth) :
      Step v sig ⟨searched, (t, depth) :: rest, none⟩ none ⟨searched, rest, none⟩
  | passes {searched : List TypeId} {t : TypeId} {depth : Nat} {rest : List (TypeId × Nat)}
      (hd : depth ≤ v.bound) (ht : t ∈ searched) :
      Step v sig ⟨searched, (t, depth) :: rest, none⟩ none ⟨searched, rest, none⟩
  | undefined {searched : List TypeId} {t : TypeId} {depth : Nat} {rest : List (TypeId × Nat)}
      (hd : depth ≤ v.bound) (ht : t ∉ searched) (hc : v.definition t = none) :
      Step v sig ⟨searched, (t, depth) :: rest, none⟩ none ⟨t :: searched, rest, none⟩
  | declares {searched : List TypeId} {t : TypeId} {depth : Nat} {rest : List (TypeId × Nat)}
      {c : ClassDef} {f : Field} (hd : depth ≤ v.bound) (ht : t ∉ searched)
      (hc : v.definition t = some c) (hf : (v.table t).field? sig = some f) :
      Step v sig ⟨searched, (t, depth) :: rest, none⟩ none ⟨t :: searched, [], some f⟩
  | expands {searched : List TypeId} {t : TypeId} {depth : Nat} {rest : List (TypeId × Nat)}
      {c : ClassDef} (hd : depth ≤ v.bound) (ht : t ∉ searched) (hc : v.definition t = some c)
      (hf : (v.table t).field? sig = none) :
      Step v sig ⟨searched, (t, depth) :: rest, none⟩ (some t)
        ⟨t :: searched, c.supertypes.map (·, depth + 1) ++ rest, none⟩

variable {v : View} {sig : FieldSig} {s s' s'' : State} {m m' : Option TypeId}

/-- **There is only one step to take.** -/
theorem Step.deterministic (h : Step v sig s m s') (h' : Step v sig s m' s'') :
    m = m' ∧ s' = s'' := by
  cases h <;> cases h' <;> grind

/-- There is no step without something pending. -/
theorem Step.pending_ne_nil (h : Step v sig s m s') : s.pending ≠ [] := by
  cases h <;> exact List.cons_ne_nil _ _

/-- What is expanded was not searched before, and from then on it is. -/
theorem Step.expands_fresh (h : Step v sig s m s') {t : TypeId} (ht : m = some t) :
    t ∉ s.searched ∧ t ∈ s'.searched := by
  cases h <;> cases ht
  case expands hnew _ _ => exact ⟨hnew, List.mem_cons_self⟩

/-- What was searched stays so. -/
theorem Step.searched_subset (h : Step v sig s m s') : s.searched ⊆ s'.searched := by
  cases h
  case cut => exact List.Subset.refl _
  case passes => exact List.Subset.refl _
  all_goals exact List.subset_cons_self _ _

/-- What is expanded is defined. -/
theorem Step.definition_of_expands (h : Step v sig s m s') {t : TypeId} (ht : m = some t) :
    (v.definition t).isSome := by
  cases h <;> cases ht
  case expands hc _ => rw [hc]; rfl

/-- An expansion adds one link to those that lead to a type. -/
theorem Step.depth_le (h : Step v sig s m s') {k : Nat} (hs : ∀ p ∈ s.pending, p.2 ≤ k) :
    ∀ p ∈ s'.pending, p.2 ≤ k + m.toList.length := by
  cases h
  case declares => exact List.forall_mem_nil _
  case expands t depth rest c hd hnew hc hf =>
    obtain ⟨hdepth, hrest⟩ := List.forall_mem_cons.1 hs
    intro p hp
    rcases List.mem_append.1 hp with hp | hp
    · obtain ⟨u, -, rfl⟩ := List.mem_map.1 hp
      exact Nat.succ_le_succ hdepth
    · exact Nat.le_succ_of_le (hrest p hp)
  all_goals exact (List.forall_mem_cons.1 hs).2

/-! ### Courses -/

section Course

variable {moves : List (Option TypeId)} (h : Course (Step v sig) s moves s')
include h

/-- **A type is expanded at most once.** -/
theorem nodup_expanded : (moves.filterMap id).Nodup :=
  (h.nodup_filterMap id (fun s t => t ∈ s.searched) (fun hstep ht => hstep.expands_fresh ht)
    fun hstep ht => hstep.searched_subset ht).1

/-- Only types with definitions are expanded. -/
theorem definition_of_mem_expanded : ∀ t ∈ moves.filterMap id, (v.definition t).isSome := by
  induction h with
  | stays s => exact List.forall_mem_nil _
  | @goes s t s'' m moves hstep _ ih =>
      cases m with
      | none => exact ih
      | some u => exact List.forall_mem_cons.2 ⟨hstep.definition_of_expands rfl, ih⟩

/-- **Links on the way to a type** are no more than there were expansions. -/
theorem depth_le {k : Nat} (hs : ∀ p ∈ s.pending, p.2 ≤ k) :
    ∀ p ∈ s'.pending, p.2 ≤ k + (moves.filterMap id).length := by
  induction h generalizing k with
  | stays s => exact hs
  | @goes s t s'' m moves hstep _ ih =>
      intro p hp
      have hdepth := ih (hstep.depth_le hs) p hp
      cases m with
      | none => exact hdepth
      | some u =>
          rw [List.filterMap_cons_some (f := id) rfl, List.length_cons]
          rw [Option.toList_some, List.length_singleton] at hdepth
          omega

/-- There are as many expansions as types defined, at most. -/
theorem length_expanded_le : (moves.filterMap id).length ≤ v.definedTypes.length :=
  View.length_le_definedTypes (nodup_expanded h) (definition_of_mem_expanded h)

end Course

/-- **The machine finds what the search finds.** -/
theorem exists_course (v : View) (sig : FieldSig) (searched : List TypeId)
    (pending : List (TypeId × Nat)) :
    ∃ moves searched', Course (Step v sig) ⟨searched, pending, none⟩ moves
      ⟨searched', [], (v.searchField sig searched pending).value⟩ := by
  induction searched, pending using View.visits.induct v sig with
  | case1 searched =>
      rw [View.searchField_nil]
      exact ⟨[], searched, .stays _⟩
  | case2 searched t depth rest hd ih =>
      obtain ⟨moves, searched', hcourse⟩ := ih
      rw [View.searchField_cut hd]
      exact ⟨_, searched', .goes (.cut hd) hcourse⟩
  | case3 searched t depth rest hd ht ih =>
      obtain ⟨moves, searched', hcourse⟩ := ih
      rw [View.searchField_searched (Nat.not_lt.1 hd) ht]
      exact ⟨_, searched', .goes (.passes (Nat.not_lt.1 hd) ht) hcourse⟩
  | case4 searched t depth rest hd ht hc ih =>
      obtain ⟨moves, searched', hcourse⟩ := ih
      rw [View.searchField_undefined (Nat.not_lt.1 hd) ht hc]
      exact ⟨_, searched', .goes (.undefined (Nat.not_lt.1 hd) ht hc) hcourse⟩
  | case5 searched t depth rest hd ht c hc f hf =>
      rw [View.searchField_declares (Nat.not_lt.1 hd) ht hc hf]
      exact ⟨_, t :: searched, .single (.declares (Nat.not_lt.1 hd) ht hc hf)⟩
  | case6 searched t depth rest hd ht c hc hf _ ih =>
      obtain ⟨moves, searched', hcourse⟩ := ih
      rw [View.searchField_expands (Nat.not_lt.1 hd) ht hc hf]
      exact ⟨_, searched', .goes (.expands (Nat.not_lt.1 hd) ht hc hf) hcourse⟩

end FieldSearch

namespace View

/-- **The searches come to an end**, on any hierarchy and under any bound.

Any calls for candidates are answered one after the other, by one course that leaves on record what
the calls return. Over all of them, each interface is expanded at most once and shadowed at most
once, and each collection follows no more superclass links than the bound says. At no time does an
interface that is shadowed become a candidate again.

The search for a field comes to an end with what it returns. It expands each type at most once, and
at no time do more links lead to a type that is pending than types are defined. -/
theorem searches_end (v : View) :
    (∀ (sig : MethodSig) (calls : List Collection.Call), ∃ moves final,
      EndsAfter (Collection.Step v sig) (.start calls) moves final ∧
      final.record = calls.foldl (fun cs call => call.apply v sig cs) .empty ∧
      final.record.expanded = moves.filterMap Collection.Move.expanded? ∧
      (moves.filterMap Collection.Move.expanded?).Nodup ∧
      (moves.filterMap Collection.Move.shadowed?).Nodup ∧
      ∀ k, moves.count (.follows k) ≤ v.bound) ∧
    (∀ (sig : MethodSig) (s s' : Collection.State) (moves : List Collection.Move) (t : TypeId),
      Course (Collection.Step v sig) s moves s' → s.record.isShadowed t = true →
      s'.record.isShadowed t = true) ∧
    ∀ (holder : TypeId) (sig : FieldSig), ∃ moves final,
      EndsAfter (FieldSearch.Step v sig) (.start holder) moves final ∧
      final.answer = (v.resolveField holder sig).value ∧
      (moves.filterMap id).Nodup ∧
      ∀ es s, Course (FieldSearch.Step v sig) (.start holder) es s →
        ∀ p ∈ s.pending, p.2 ≤ v.definedTypes.length := by
  refine ⟨fun sig calls => ?_, fun sig s s' moves t h ht => Collection.isShadowed_remains h ht,
    fun holder sig => ?_⟩
  · obtain ⟨moves, n, hcourse⟩ := Collection.exists_course_calls v sig .empty 0 calls
    have hends : EndsAfter (Collection.Step v sig) (.start calls) moves _ :=
      hcourse.endsAfter Collection.Step.deterministic fun _ _ hstep => hstep.tasks_ne_nil rfl
    refine ⟨moves, _, hends, rfl, Collection.expanded_eq hcourse,
      Collection.nodup_expanded hcourse, Collection.nodup_shadowed hcourse, fun k => ?_⟩
    have hcount := Collection.count_follows_le hends.course k
    rwa [Collection.linksLeft_start] at hcount
  · obtain ⟨moves, searched, hcourse⟩ := FieldSearch.exists_course v sig [] [(holder, 0)]
    have hends : EndsAfter (FieldSearch.Step v sig) (.start holder) moves _ :=
      hcourse.endsAfter FieldSearch.Step.deterministic fun _ _ hstep => hstep.pending_ne_nil rfl
    refine ⟨moves, _, hends, rfl, FieldSearch.nodup_expanded hcourse, fun es s hes p hp => ?_⟩
    have hdepth := FieldSearch.depth_le hes (k := 0)
      (List.forall_mem_singleton.2 (Nat.le_refl 0)) p hp
    have hlength := FieldSearch.length_expanded_le hes
    omega

end View

end Linkage
