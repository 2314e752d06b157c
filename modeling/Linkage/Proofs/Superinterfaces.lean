import Linkage.Proofs.Shadowing

/-!
# Superinterfaces of Superclasses

A sweep enters superclasses one link at a time, and counts the links of each expansion from zero.
Here what a sweep has pending is written out as one list of interfaces, in which each superclass
stands for the interfaces of the known chain above it, as far as its links still go. Read like
this a sweep is a depth-first tour that stops at the interfaces that declare the method, and what
is on record after it depends on nothing else.

## Main definitions

* `View.superclasses`: the known superclass chain, up to some length.
* `View.inheritedInterfaces`: the interfaces listed by a class and by its superclasses.

## Main results

* `foldl_declared`: a sweep records what the tour offers, in the order of the tour.
* `slots_collect`: what is on record after a collection.
-/

namespace Linkage

open Relation

namespace View

/-- The known superclass chain that starts at a type, of at most `n` classes. -/
def superclasses (v : View) : Nat → Option TypeId → List ClassDef
  | 0, _ => []
  | n + 1, s =>
    match s.bind v.definition with
    | none => []
    | some c => c :: v.superclasses n c.superType

/-- A class without a superclass has no superclasses. -/
@[simp] theorem superclasses_none (v : View) (n : Nat) : v.superclasses n none = [] := by
  cases n <;> rfl

/-- A superclass with a definition is the first on the chain. -/
theorem superclasses_succ {v : View} {s : Option TypeId} {c : ClassDef}
    (h : s.bind v.definition = some c) (n : Nat) :
    v.superclasses (n + 1) s = c :: v.superclasses n c.superType := by
  rw [superclasses, h]

/-- A chain ends where there is no definition. -/
theorem superclasses_undefined {v : View} {s : Option TypeId} (h : s.bind v.definition = none)
    (n : Nat) : v.superclasses n s = [] := by
  cases n with
  | zero => rfl
  | succ n => rw [superclasses, h]

/-- A chain is followed for so many links at most. -/
theorem length_superclasses_le (v : View) (n : Nat) (s : Option TypeId) :
    (v.superclasses n s).length ≤ n := by
  induction n generalizing s with
  | zero => exact Nat.le_refl 0
  | succ n ih =>
      cases hs : s.bind v.definition with
      | none =>
          rw [superclasses_undefined hs]
          exact Nat.zero_le _
      | some c =>
          rw [superclasses_succ hs, List.length_cons]
          exact Nat.succ_le_succ (ih c.superType)

/-- The interfaces listed by a class and then by its superclasses, as far as the bound allows. -/
def inheritedInterfaces (v : View) (c : ClassDef) : List TypeId :=
  (c :: v.superclasses v.bound c.superType).flatMap ClassDef.interfaces

/-- The interfaces that something pending stands for. -/
def unroll (v : View) : Pending → List TypeId
  | .interface t => [t]
  | .superclass t links =>
    (v.superclasses (v.bound - links) (some t)).flatMap ClassDef.interfaces

/-- The interfaces of a list stand for themselves. -/
theorem unroll_interfaces (v : View) (ts : List TypeId) :
    (ts.map Pending.interface).flatMap v.unroll = ts := by
  induction ts with
  | nil => rfl
  | cons t ts ih => rw [List.map_cons, List.flatMap_cons, ih, unroll, List.singleton_append]

/-- A superclass unrolls to the interfaces along its chain. -/
theorem unroll_superType (v : View) (s : Option TypeId) (links : Nat) :
    (s.map (Pending.superclass · links)).toList.flatMap v.unroll =
      (v.superclasses (v.bound - links) s).flatMap ClassDef.interfaces := by
  cases s with
  | none => simp
  | some t => simp [unroll]

/-- What comes up above a class: its interfaces, and those of its superclasses. -/
theorem unroll_ahead (v : View) (c : ClassDef) (links : Nat) :
    (c.ahead links).flatMap v.unroll = c.interfaces ++
      (v.superclasses (v.bound - links) c.superType).flatMap ClassDef.interfaces := by
  rw [ClassDef.ahead, List.flatMap_append, unroll_interfaces, unroll_superType]

/-- What is ahead of a class unrolls to the interfaces that it inherits. -/
theorem unroll_ahead_zero (v : View) (c : ClassDef) :
    (c.ahead 0).flatMap v.unroll = v.inheritedInterfaces c := by
  rw [unroll_ahead, Nat.sub_zero, inheritedInterfaces, List.flatMap_cons]

/-- A superclass is followed by its interfaces and the rest of its chain. -/
theorem unroll_superclass {v : View} {t : TypeId} {c : ClassDef} (hc : v.definition t = some c)
    {links : Nat} (hl : links < v.bound) :
    v.unroll (.superclass t links) = (c.ahead (links + 1)).flatMap v.unroll := by
  obtain ⟨n, hn⟩ : ∃ n, v.bound - links = n + 1 := ⟨v.bound - links - 1, by omega⟩
  have hrest : v.bound - (links + 1) = n := by omega
  rw [unroll, hn, superclasses_succ (s := some t) hc, unroll_ahead, hrest, List.flatMap_cons]

/-- What a type offers to the classes below it, with its definition. -/
def offer? (v : View) (sig : MethodSig) (t : TypeId) : Option (ClassDef × Method) :=
  (v.definition t).bind fun c => (v.heritable t sig).map (c, ·)

/-- A type offers the method that it declares and hands down. -/
theorem offer?_eq_some_iff {v : View} {sig : MethodSig} {t : TypeId} {d : ClassDef × Method} :
    v.offer? sig t = some d ↔ v.definition t = some d.1 ∧ v.heritable t sig = some d.2 := by
  obtain ⟨c, m⟩ := d
  rw [offer?, Option.bind_eq_some_iff]
  constructor
  · rintro ⟨c', hc, hmap⟩
    obtain ⟨m', hm, heq⟩ := Option.map_eq_some_iff.1 hmap
    obtain ⟨rfl, rfl⟩ := Prod.mk.inj heq
    exact ⟨hc, hm⟩
  · rintro ⟨hc, hm⟩
    exact ⟨c, hc, by rw [hm]; rfl⟩

/-- The links that a sweep follows: none from where the method is declared, and from elsewhere
those of the type and of its superclasses. -/
def sweepLinks (v : View) (sig : MethodSig) : Links where
  next t := (v.definition t).map fun c =>
    if (v.heritable t sig).isSome then [] else v.inheritedInterfaces c
  domain := v.domain
  mem_domain h := by
    obtain ⟨c, hc, -⟩ := Option.map_eq_some_iff.1 h
    exact v.mem_domain hc

/-- A sweep goes on from a type to the interfaces that it inherits, unless it declares the
method. -/
theorem next_sweepLinks (v : View) (sig : MethodSig) (t : TypeId) :
    (v.sweepLinks sig).next t = (v.definition t).map fun c =>
      if (v.heritable t sig).isSome then [] else v.inheritedInterfaces c := rfl

/-- A sweep does not go on from a type without a definition. -/
theorem next_sweepLinks_undefined {v : View} {t : TypeId} (h : v.definition t = none)
    (sig : MethodSig) : (v.sweepLinks sig).next t = none := by
  rw [next_sweepLinks, h, Option.map_none]

/-- A sweep stops at a type that declares the method. -/
theorem next_sweepLinks_declares {v : View} {t : TypeId} {c : ClassDef} {sig : MethodSig}
    {m : Method} (hc : v.definition t = some c) (hm : v.heritable t sig = some m) :
    (v.sweepLinks sig).next t = some [] := by
  rw [next_sweepLinks, hc, hm]
  rfl

/-- A sweep goes on from a type that does not declare the method. -/
theorem next_sweepLinks_expands {v : View} {t : TypeId} {c : ClassDef} {sig : MethodSig}
    (hc : v.definition t = some c) (hm : v.heritable t sig = none) :
    (v.sweepLinks sig).next t = some (v.inheritedInterfaces c) := by
  rw [next_sweepLinks, hc, hm]
  rfl

/-- **A sweep records what a tour offers.** The sweep reports a declaration as often as it meets
it, the tour once, but a type on record stays as it is. The tour has met the interfaces that the
sweep has expanded, and besides some that declare the method. -/
theorem foldl_declared {v : View} (htyped : v.Typed) {sig : MethodSig} {seen met : List TypeId}
    {pending : List Pending} {cs : Candidates}
    (hmet : ∀ t, v.heritable t sig = none → (t ∈ met ↔ t ∈ seen))
    (hrec : ∀ t ∈ met, v.heritable t sig ≠ none → cs.slots.contains t = true) :
    ((v.sweep sig seen pending).filterMap Sight.declared?).foldl
        (fun cs d => cs.add v d.1 d.2) cs =
      (((v.sweepLinks sig).tour met (pending.flatMap v.unroll)).filterMap (v.offer? sig)).foldl
        (fun cs d => cs.add v d.1 d.2) cs := by
  induction seen, pending using sweep.induct v sig generalizing met cs with
  | case1 seen => rw [sweep_nil, List.flatMap_nil, Links.tour_nil]; rfl
  | case2 seen t rest hc ih =>
      rw [sweep_interface_undefined hc, List.flatMap_cons, unroll, List.singleton_append,
        Links.tour_unlinked (next_sweepLinks_undefined hc sig), ih hmet hrec]
  | case3 seen t rest c hc m hm ih =>
      rw [sweep_interface_declares hc hm, List.flatMap_cons, unroll, List.singleton_append,
        List.filterMap_cons_some (f := Sight.declared?) rfl, List.foldl_cons]
      have htype : c.type = t := htyped hc
      by_cases ht : t ∈ met
      · -- met before, and therefore on record
        have hsome : v.heritable t sig ≠ none := by simp [hm]
        have hcontains := hrec t ht hsome
        rw [← htype] at hcontains
        rw [Links.tour_met ht, Candidates.add_of_recorded hcontains, ih hmet hrec]
      · rw [Links.tour_fresh (next_sweepLinks_declares hc hm) ht, List.nil_append,
          List.filterMap_cons_some ((offer?_eq_some_iff (d := (c, m))).2 ⟨hc, hm⟩),
          List.foldl_cons]
        refine ih ?_ ?_
        · intro u hu
          rw [List.mem_cons, or_iff_right, hmet u hu]
          rintro rfl
          simp [hm] at hu
        · intro u hu hsome
          rcases List.mem_cons.1 hu with rfl | hu
          · have hself := Candidates.contains_add_self v c m cs
            rwa [htype] at hself
          · exact Candidates.contains_add v c m (hrec u hu hsome)
  | case4 seen t rest c hc hm ht ih =>
      rw [sweep_interface_passes hc hm ht, List.flatMap_cons, unroll, List.singleton_append,
        Links.tour_met ((hmet t hm).2 ht), List.filterMap_cons_none (f := Sight.declared?) rfl,
        ih hmet hrec]
  | case5 seen t rest c hc hm ht _ ih =>
      have hnone : v.offer? sig t = none := by rw [offer?, hc, hm]; rfl
      rw [sweep_interface_expands hc hm ht, List.flatMap_cons, unroll, List.singleton_append,
        Links.tour_fresh (next_sweepLinks_expands hc hm) fun h => ht ((hmet t hm).1 h),
        List.filterMap_cons_none (f := Sight.declared?) rfl, List.filterMap_cons_none hnone,
        ← unroll_ahead_zero, ← List.flatMap_append]
      refine ih ?_ ?_
      · intro u hu
        rw [List.mem_cons, List.mem_cons, hmet u hu]
      · intro u hu hsome
        rcases List.mem_cons.1 hu with rfl | hu
        · exact absurd hm hsome
        · exact hrec u hu hsome
  | case6 seen t links rest hl ih =>
      have hnil : v.unroll (.superclass t links) = [] := by
        rw [unroll, Nat.sub_eq_zero_of_le hl]
        rfl
      rw [sweep_superclass_cut hl, List.flatMap_cons, hnil, List.nil_append,
        List.filterMap_cons_none (f := Sight.declared?) rfl, ih hmet hrec]
  | case7 seen t links rest hl hc ih =>
      have hnil : v.unroll (.superclass t links) = [] := by
        rw [unroll, superclasses_undefined (s := some t) hc]
        rfl
      rw [sweep_superclass_undefined (Nat.not_le.1 hl) hc, List.flatMap_cons, hnil,
        List.nil_append, ih hmet hrec]
  | case8 seen t links rest hl c hc ih =>
      rw [sweep_superclass_enters (Nat.not_le.1 hl) hc, List.flatMap_cons,
        unroll_superclass hc (Nat.not_le.1 hl), ← List.flatMap_append, ih hmet hrec]

end View

namespace Candidates

/-- The declarations that a collection finds, each once, in order. -/
def found (v : View) (sig : MethodSig) (roots : List TypeId) : List (ClassDef × Method) :=
  ((v.sweepLinks sig).tour [] roots).filterMap (v.offer? sig)

/-- **What is on record after a collection** depends on the interfaces only, whether they were
listed or inherited from a superclass. -/
theorem slots_collect {v : View} (htyped : v.Typed) (sig : MethodSig)
    (superType : Option TypeId) (interfaces : List TypeId) :
    (empty.collect v sig superType interfaces).value.slots =
      ((found v sig (interfaces ++
        (v.superclasses v.bound superType).flatMap ClassDef.interfaces)).foldl
          (fun cs d => cs.add v d.1 d.2) empty).slots := by
  have hfold := @View.foldl_declared v htyped sig [] []
    (interfaces.map .interface ++ (superType.map (.superclass · 0)).toList) empty (by simp)
    (by simp)
  rw [List.flatMap_append, View.unroll_interfaces, View.unroll_superType, Nat.sub_zero] at hfold
  rw [found, ← hfold]
  rfl

/-- The same for the interfaces of a class and of its superclasses. -/
theorem slots_collectFromClass {v : View} (htyped : v.Typed) (sig : MethodSig) (c : ClassDef) :
    (empty.collectFromClass v sig c).value.slots =
      ((found v sig (v.inheritedInterfaces c)).foldl
        (fun cs d => cs.add v d.1 d.2) empty).slots := by
  rw [collectFromClass, slots_collect htyped, View.inheritedInterfaces, List.flatMap_cons]

/-- The candidates on record are all that a choice depends on. -/
theorem resolve_congr {cs ds : Candidates} (h : cs.slots = ds.slots) (initial : TypeId) :
    cs.resolve initial = ds.resolve initial := by
  rw [resolve, resolve, select, select, offers, offers, h]

/-- Records with the same entries choose the same target. -/
theorem target?_congr {cs ds : Candidates} (h : cs.slots = ds.slots) : cs.target? = ds.target? := by
  rw [target?, target?, select, select, offers, offers, h]

end Candidates

end Linkage
