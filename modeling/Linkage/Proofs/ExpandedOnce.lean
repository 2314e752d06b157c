import Linkage.Proofs.Locality
import Linkage.Proofs.Provenance

/-!
# Expanding Once is Enough

A sweep expands an interface only the first time it meets it. In a hierarchy without cycles it would
end all the same if it expanded the interface every time, and it would see much more, but there
would not be anything more to record: by the time an interface is met again, all that is declared
above it is on record, and what is on record stays as it is, whether it is still a candidate or has
been shadowed since.

This holds at the point where the interface is met, and not before: between the two meetings the
sweep is busy with what is above the interface. That the interface does not come up there itself is
what the absence of cycles is needed for.

## Main definitions

* `View.Acyclic`: no type comes back to itself through super types and interfaces.
* `View.resweep`: the search that expands an interface whenever it is met.
* `View.Ready`: the invariant of a sweep for the interfaces it has expanded.
* `Candidates.recollect`: records what that search finds.

## Main results

* `foldl_resweep`: both searches leave the same on record.
* `Explored.collect`: what one collection keeps for the next.
* `collects_expanding_once`: any number of collections, and all that is read off the record.
-/

namespace Linkage

open Relation

namespace View

variable {v : View} {sig : MethodSig} {t u : TypeId} {c : ClassDef}

/-! ### Hierarchies without cycles -/

/-- **No type comes back to itself** through its super type and its interfaces. -/
def Acyclic (v : View) : Prop := ∀ t, ¬ TransGen v.Below t t

open Classical in
/-- The number of types that may be defined and that links lead to from a type. -/
noncomputable def height (v : View) (t : TypeId) : Nat :=
  v.domain.countP fun u => ReflTransGen v.Below t u

/-- Without cycles there are fewer above a supertype. -/
theorem Acyclic.height_lt (h : v.Acyclic) (hbelow : v.Below t u) : v.height u < v.height t := by
  classical
  obtain ⟨c, hc, -⟩ := id hbelow
  have hback : ¬ ReflTransGen v.Below u t := fun hpath => h t (.head' hbelow hpath)
  refine countP_lt_countP (fun w hw => ?_) (v.mem_domain hc) (by simpa using hback)
    (by simpa using .refl)
  rw [decide_eq_true_eq] at hw ⊢
  exact .head hbelow hw

/-! ### The search that expands whatever it meets -/

/-- What something pending is expanded to, if interfaces are expanded whenever they are met. -/
def expansion (v : View) (h : v.Acyclic) (sig : MethodSig) : Pending → List Sight
  | .interface t =>
    match hc : v.definition t with
    | none => []
    | some c =>
      match v.heritable t sig with
      | some m => [.declares t c m]
      | none =>
        .expands t :: (c.ahead 0).attach.flatMap fun p =>
          have := h.height_lt (below_of_mem_ahead hc p.2)
          v.expansion h sig p.1
  | .superclass t links =>
    if v.bound ≤ links then [.cut t]
    else
      match hc : v.definition t with
      | none => []
      | some c =>
        (c.ahead (links + 1)).attach.flatMap fun p =>
          have := h.height_lt (below_of_mem_ahead hc p.2)
          v.expansion h sig p.1
termination_by p => v.height p.type

/-- **The search without a record of what was expanded.** It looks at what is pending and at what
comes up on the way like a sweep, but expands an interface that does not declare the method whenever
it meets it. -/
def resweep (v : View) (h : v.Acyclic) (sig : MethodSig) (pending : List Pending) : List Sight :=
  pending.flatMap (v.expansion h sig)

variable (h : v.Acyclic)

/-- With nothing pending, nothing is seen. -/
@[simp] theorem resweep_nil (sig : MethodSig) : v.resweep h sig [] = [] := rfl

/-- What is pending is expanded one after the other. -/
theorem resweep_append (sig : MethodSig) (ps qs : List Pending) :
    v.resweep h sig (ps ++ qs) = v.resweep h sig ps ++ v.resweep h sig qs :=
  List.flatMap_append

/-- An interface without a definition shows nothing. -/
theorem expansion_interface_undefined (hc : v.definition t = none) (sig : MethodSig) :
    v.expansion h sig (.interface t) = [] := by
  rw [expansion]
  split <;> simp_all

/-- An interface that declares the method shows it. -/
theorem expansion_interface_declares {m : Method} (hc : v.definition t = some c)
    (hm : v.heritable t sig = some m) :
    v.expansion h sig (.interface t) = [.declares t c m] := by
  rw [expansion]
  split <;> simp_all

/-- Any other interface shows what is ahead of it. -/
theorem expansion_interface_expands (hc : v.definition t = some c)
    (hm : v.heritable t sig = none) :
    v.expansion h sig (.interface t) = .expands t :: v.resweep h sig (c.ahead 0) := by
  rw [expansion, resweep]
  split
  · simp_all
  · next d hd =>
    obtain rfl : d = c := Option.some.inj (hd.symm.trans hc)
    simp [hm]

/-- At the bound a superclass is cut off. -/
theorem expansion_superclass_cut {links : Nat} (hl : v.bound ≤ links) (t : TypeId)
    (sig : MethodSig) : v.expansion h sig (.superclass t links) = [.cut t] := by
  rw [expansion, if_pos hl]

/-- A superclass without a definition shows nothing. -/
theorem expansion_superclass_undefined {links : Nat} (hl : links < v.bound)
    (hc : v.definition t = none) (sig : MethodSig) :
    v.expansion h sig (.superclass t links) = [] := by
  rw [expansion, if_neg (Nat.not_le.2 hl)]
  split <;> simp_all

/-- A superclass below the bound shows what is ahead of it. -/
theorem expansion_superclass_enters {links : Nat} (hl : links < v.bound)
    (hc : v.definition t = some c) (sig : MethodSig) :
    v.expansion h sig (.superclass t links) = v.resweep h sig (c.ahead (links + 1)) := by
  rw [expansion, if_neg (Nat.not_le.2 hl), resweep]
  split
  · simp_all
  · next d hd =>
    obtain rfl : d = c := Option.some.inj (hd.symm.trans hc)
    simp

/-! ### What an expansion contains -/

/-- **Where an interface is expanded**, links lead to it, and what is seen above it is seen. -/
theorem of_expands_mem {p : Pending} (hu : .expands u ∈ v.expansion h sig p) :
    ReflTransGen v.Below p.type u ∧
      v.expansion h sig (.interface u) ⊆ v.expansion h sig p := by
  induction p using expansion.induct v h sig with
  | case1 t hc =>
      rw [expansion_interface_undefined h hc] at hu
      cases hu
  | case2 t c hc m hm =>
      rw [expansion_interface_declares h hc hm] at hu
      cases List.mem_singleton.1 hu
  | case3 t c hc hm ih =>
      rw [expansion_interface_expands h hc hm] at hu
      rcases List.mem_cons.1 hu with heq | hu
      · cases heq
        exact ⟨.refl, List.Subset.refl _⟩
      · obtain ⟨p, hp, hu⟩ := List.mem_flatMap.1 hu
        obtain ⟨hpath, hsubset⟩ := ih ⟨p, hp⟩ hu
        refine ⟨.head (below_of_mem_ahead hc hp) hpath, fun x hx => ?_⟩
        rw [expansion_interface_expands h hc hm]
        exact List.mem_cons_of_mem _ (List.mem_flatMap.2 ⟨p, hp, hsubset hx⟩)
  | case4 t links hl =>
      rw [expansion_superclass_cut h hl] at hu
      cases List.mem_singleton.1 hu
  | case5 t links hl hc =>
      rw [expansion_superclass_undefined h (Nat.not_le.1 hl) hc] at hu
      cases hu
  | case6 t links hl c hc ih =>
      rw [expansion_superclass_enters h (Nat.not_le.1 hl) hc] at hu ⊢
      obtain ⟨p, hp, hu⟩ := List.mem_flatMap.1 hu
      obtain ⟨hpath, hsubset⟩ := ih ⟨p, hp⟩ hu
      exact ⟨.head (below_of_mem_ahead hc hp) hpath,
        fun x hx => List.mem_flatMap.2 ⟨p, hp, hsubset hx⟩⟩

/-- No interface comes up above itself. -/
theorem expands_not_mem_resweep (hc : v.definition t = some c) :
    .expands t ∉ v.resweep h sig (c.ahead 0) := by
  intro ht
  obtain ⟨p, hp, ht⟩ := List.mem_flatMap.1 ht
  exact h t (.head' (below_of_mem_ahead hc hp) (of_expands_mem h ht).1)

/-- A sweep expands nothing that is not expanded by the search that expands everything. -/
theorem expands_mem_resweep {seen : List TypeId} {pending : List Pending}
    (hu : .expands u ∈ v.sweep sig seen pending) : .expands u ∈ v.resweep h sig pending := by
  induction seen, pending using sweep.induct v sig with
  | case1 seen =>
      rw [sweep_nil] at hu
      cases hu
  | case2 seen t rest hc ih =>
      rw [sweep_interface_undefined hc] at hu
      exact List.mem_append_right _ (ih hu)
  | case3 seen t rest c hc m hm ih =>
      rw [sweep_interface_declares hc hm] at hu
      refine List.mem_append_right _ (ih ?_)
      simpa using hu
  | case4 seen t rest c hc hm ht ih =>
      rw [sweep_interface_passes hc hm ht] at hu
      refine List.mem_append_right _ (ih ?_)
      simpa using hu
  | case5 seen t rest c hc hm ht _ ih =>
      rw [sweep_interface_expands hc hm ht] at hu
      rw [resweep, List.flatMap_cons, expansion_interface_expands h hc hm, List.cons_append,
        List.mem_cons]
      refine (List.mem_cons.1 hu).imp_right fun hu => ?_
      exact resweep_append h sig _ _ ▸ ih hu
  | case6 seen t links rest hl ih =>
      rw [sweep_superclass_cut hl] at hu
      refine List.mem_append_right _ (ih ?_)
      simpa using hu
  | case7 seen t links rest hl hc ih =>
      rw [sweep_superclass_undefined (Nat.not_le.1 hl) hc] at hu
      exact List.mem_append_right _ (ih hu)
  | case8 seen t links rest hl c hc ih =>
      rw [sweep_superclass_enters (Nat.not_le.1 hl) hc] at hu
      rw [resweep, List.flatMap_cons, expansion_superclass_enters h (Nat.not_le.1 hl) hc]
      exact resweep_append h sig _ _ ▸ ih hu

/-! ### The invariant of a sweep -/

/-- What is declared above an interface, as it is found whenever the interface is expanded. -/
def declaredAbove (v : View) (h : v.Acyclic) (sig : MethodSig) (t : TypeId) :
    List (ClassDef × Method) :=
  (v.expansion h sig (.interface t)).filterMap Sight.declared?

/-- Above an interface that is expanded is declared what is declared ahead of it. -/
theorem declaredAbove_expands (hc : v.definition t = some c) (hm : v.heritable t sig = none) :
    v.declaredAbove h sig t = (v.resweep h sig (c.ahead 0)).filterMap Sight.declared? := by
  rw [declaredAbove, expansion_interface_expands h hc hm]
  rfl

/-- **The invariant of a sweep** for the interfaces it has expanded: wherever one of them would be
expanded again, what is declared above it is on record by then. -/
def Ready (v : View) (h : v.Acyclic) (sig : MethodSig) (seen : List TypeId)
    (pending : List Pending) (cs : Candidates) : Prop :=
  ∀ ⦃pre t post⦄, v.resweep h sig pending = pre ++ .expands t :: post → t ∈ seen →
    ∀ d ∈ v.declaredAbove h sig t,
      cs.slots.contains d.1.type = true ∨ d ∈ pre.filterMap Sight.declared?

section Ready

variable {h} {seen : List TypeId} {pending rest : List Pending} {cs ds : Candidates}

/-- What is seen next may be passed over if what it declares is on record. -/
theorem Ready.drop (xs : List Sight) (hready : v.Ready h sig seen pending cs)
    (hxs : v.resweep h sig pending = xs ++ v.resweep h sig rest)
    (hkeeps : ∀ u, cs.slots.contains u = true → ds.slots.contains u = true)
    (hrecorded : ∀ d ∈ xs.filterMap Sight.declared?, ds.slots.contains d.1.type = true) :
    v.Ready h sig seen rest ds := by
  intro pre t post hsplit ht d hd
  have hsplit' : v.resweep h sig pending = (xs ++ pre) ++ .expands t :: post := by
    rw [hxs, hsplit, List.append_assoc]
  rcases hready hsplit' ht d hd with hcs | hmem
  · exact .inl (hkeeps _ hcs)
  · rw [List.filterMap_append, List.mem_append] at hmem
    exact hmem.imp_left (hrecorded d)

/-- When an interface is expanded, it would only be expanded again after everything above it has
come up, for it does not come up there itself. -/
theorem Ready.expand (hready : v.Ready h sig seen (.interface t :: rest) cs)
    (hc : v.definition t = some c) (hm : v.heritable t sig = none) :
    v.Ready h sig (t :: seen) (c.ahead 0 ++ rest) cs := by
  intro pre u post hsplit hu d hd
  by_cases hut : u = t
  · subst hut
    rw [declaredAbove_expands h hc hm] at hd
    rw [resweep_append] at hsplit
    rcases List.append_eq_append_iff.1 hsplit with ⟨xs, rfl, -⟩ | ⟨xs, hahead, hpost⟩
    · rw [List.filterMap_append]
      exact .inr (List.mem_append_left _ hd)
    · cases xs with
      | nil =>
          rw [List.append_nil] at hahead
          exact .inr (hahead ▸ hd)
      | cons x xs =>
          obtain ⟨rfl, -⟩ := List.cons.inj hpost
          have hself : .expands u ∈ v.resweep h sig (c.ahead 0) := by
            rw [hahead]
            exact List.mem_append_right _ List.mem_cons_self
          exact absurd hself (expands_not_mem_resweep h hc)
  · have hsplit' : v.resweep h sig (.interface t :: rest) =
        (.expands t :: pre) ++ .expands u :: post := by
      rw [resweep, List.flatMap_cons, expansion_interface_expands h hc hm, List.cons_append,
        List.cons_append, ← hsplit, resweep_append]
      rfl
    exact hready hsplit' ((List.mem_cons.1 hu).resolve_left hut) d hd

end Ready

end View

/-! ### The same on record -/

namespace Candidates

variable {v : View} {sig : MethodSig} {cs ds : Candidates}

/-- Adding declarations takes nothing off the record. -/
theorem contains_foldl_add (v : View) (es : List (ClassDef × Method)) {u : TypeId}
    (hu : cs.slots.contains u = true) :
    (es.foldl (fun cs d => cs.add v d.1 d.2) cs).slots.contains u = true := by
  induction es generalizing cs with
  | nil => exact hu
  | cons d es ih => exact ih (contains_add v d.1 d.2 hu)

/-- What is added is on record. -/
theorem contains_foldl_add_of_mem (v : View) {es : List (ClassDef × Method)}
    {d : ClassDef × Method} (hd : d ∈ es) (cs : Candidates) :
    (es.foldl (fun cs d => cs.add v d.1 d.2) cs).slots.contains d.1.type = true := by
  induction es generalizing cs with
  | nil => cases hd
  | cons e es ih =>
      rcases List.mem_cons.1 hd with rfl | hd
      · exact contains_foldl_add v es (contains_add_self v d.1 d.2 cs)
      · exact ih hd (cs.add v e.1 e.2)

/-- Declarations of types on record add nothing. -/
theorem foldl_add_of_recorded (v : View) {es : List (ClassDef × Method)}
    (hes : ∀ d ∈ es, cs.slots.contains d.1.type = true) :
    es.foldl (fun cs d => cs.add v d.1 d.2) cs = cs := by
  induction es with
  | nil => rfl
  | cons d es ih =>
      rw [List.foldl_cons, add_of_recorded (hes d List.mem_cons_self)]
      exact ih fun e he => hes e (List.mem_cons_of_mem _ he)

/-- Adding a method expands nothing. -/
theorem expanded_add (v : View) (c : ClassDef) (m : Method) (cs : Candidates) :
    (cs.add v c m).expanded = cs.expanded := by
  rw [add]
  split <;> rfl

/-- Recording notes what has been expanded. -/
theorem expanded_record (v : View) (sights : List Sight) (cs : Candidates) :
    (cs.record v sights).expanded = cs.expanded ++ sights.filterMap Sight.expanded? := by
  have hadd (es : List (ClassDef × Method)) :
      (es.foldl (fun cs d => cs.add v d.1 d.2) cs).expanded = cs.expanded := by
    induction es generalizing cs with
    | nil => rfl
    | cons d es ih => rw [List.foldl_cons, ih, expanded_add]
  rw [record, hadd]

/-- **Expanding once leaves the same on record** as expanding every time. -/
theorem foldl_resweep {h : v.Acyclic} {seen : List TypeId} {pending : List Pending}
    (hready : v.Ready h sig seen pending cs) :
    ((v.sweep sig seen pending).filterMap Sight.declared?).foldl
        (fun cs d => cs.add v d.1 d.2) cs =
      ((v.resweep h sig pending).filterMap Sight.declared?).foldl
        (fun cs d => cs.add v d.1 d.2) cs := by
  have hcons (p : Pending) (rest : List Pending) :
      v.resweep h sig (p :: rest) = v.expansion h sig p ++ v.resweep h sig rest := rfl
  induction seen, pending using View.sweep.induct v sig generalizing cs with
  | case1 seen => rw [View.sweep_nil, View.resweep_nil]
  | case2 seen t rest hc ih =>
      have hnext := hcons (.interface t) rest
      rw [View.expansion_interface_undefined h hc, List.nil_append] at hnext
      rw [View.sweep_interface_undefined hc, hnext]
      exact ih (hready.drop [] hnext (fun _ => id) (List.forall_mem_nil _))
  | case3 seen t rest c hc m hm ih =>
      have hnext := hcons (.interface t) rest
      rw [View.expansion_interface_declares h hc hm] at hnext
      rw [View.sweep_interface_declares hc hm, hnext]
      refine ih (hready.drop _ hnext (fun _ => contains_add v c m) fun d hd => ?_)
      obtain rfl := List.mem_singleton.1 hd
      exact contains_add_self v c m cs
  | case4 seen t rest c hc hm ht ih =>
      -- expanded before: all that is declared above is on record
      have hnext := hcons (.interface t) rest
      have hrecorded : ∀ d ∈ v.declaredAbove h sig t, cs.slots.contains d.1.type = true := by
        have hhere : v.resweep h sig (.interface t :: rest) =
            [] ++ .expands t :: (v.resweep h sig (c.ahead 0) ++ v.resweep h sig rest) := by
          rw [hnext, View.expansion_interface_expands h hc hm]
          rfl
        exact fun d hd => (hready hhere ht d hd).resolve_right List.not_mem_nil
      rw [View.sweep_interface_passes hc hm ht, hnext, List.filterMap_append, List.foldl_append,
        ← View.declaredAbove, foldl_add_of_recorded v hrecorded]
      exact ih (hready.drop _ hnext (fun _ => id) hrecorded)
  | case5 seen t rest c hc hm ht _ ih =>
      have hnext := hcons (.interface t) rest
      rw [View.expansion_interface_expands h hc hm, List.cons_append, ← View.resweep_append]
        at hnext
      rw [View.sweep_interface_expands hc hm ht, hnext]
      exact ih (hready.expand hc hm)
  | case6 seen t links rest hl ih =>
      have hnext := hcons (.superclass t links) rest
      rw [View.expansion_superclass_cut h hl] at hnext
      rw [View.sweep_superclass_cut hl, hnext]
      exact ih (hready.drop _ hnext (fun _ => id) (List.forall_mem_nil _))
  | case7 seen t links rest hl hc ih =>
      have hnext := hcons (.superclass t links) rest
      rw [View.expansion_superclass_undefined h (Nat.not_le.1 hl) hc, List.nil_append] at hnext
      rw [View.sweep_superclass_undefined (Nat.not_le.1 hl) hc, hnext]
      exact ih (hready.drop [] hnext (fun _ => id) (List.forall_mem_nil _))
  | case8 seen t links rest hl c hc ih =>
      have hnext := hcons (.superclass t links) rest
      rw [View.expansion_superclass_enters h (Nat.not_le.1 hl) hc, ← View.resweep_append] at hnext
      rw [View.sweep_superclass_enters (Nat.not_le.1 hl) hc, hnext]
      exact ih (hready.drop [] hnext (fun _ => id) (List.forall_mem_nil _))

/-! ### Collections -/

/-- Searches the given interfaces in order, and then those of a superclass and of the classes above
it, expanding interfaces whenever they are met, and records what is found. -/
def recollect (v : View) (h : v.Acyclic) (sig : MethodSig) (superType : Option TypeId)
    (interfaces : List TypeId) (cs : Candidates) : Candidates :=
  cs.record v (v.resweep h sig
    (interfaces.map .interface ++ (superType.map (.superclass · 0)).toList))

/-- **What a collection keeps for the next**: all that is declared above the interfaces that have
been expanded is on record. -/
def Explored (v : View) (h : v.Acyclic) (sig : MethodSig) (cs : Candidates) : Prop :=
  ∀ t ∈ cs.expanded, ∀ d ∈ v.declaredAbove h sig t, cs.slots.contains d.1.type = true

variable {h : v.Acyclic}

/-- At the start nothing was expanded, so that nothing was left out. -/
theorem explored_empty (v : View) (h : v.Acyclic) (sig : MethodSig) : empty.Explored v h sig :=
  nofun

/-- Recording depends on the record, and not on what has been expanded. -/
theorem slots_record_congr (hslots : cs.slots = ds.slots) (v : View) (sights : List Sight) :
    (cs.record v sights).slots = (ds.record v sights).slots := by
  have hadd (d : ClassDef × Method) {cs ds : Candidates} (hslots : cs.slots = ds.slots) :
      (cs.add v d.1 d.2).slots = (ds.add v d.1 d.2).slots := by
    rw [add, add, hslots]
    split <;> simp [hslots]
  rw [record, record]
  dsimp only
  induction sights.filterMap Sight.declared? generalizing cs ds with
  | nil => exact hslots
  | cons d es ih => exact ih (hadd d hslots)

/-- **One collection** leaves the same on record, whether it expands interfaces once or whenever it
meets them. -/
theorem Explored.slots_collect (hexplored : cs.Explored v h sig) (superType : Option TypeId)
    (interfaces : List TypeId) :
    (cs.collect v sig superType interfaces).value.slots =
      (cs.recollect v h sig superType interfaces).slots := by
  have hready : v.Ready h sig cs.expanded
      (interfaces.map .interface ++ (superType.map (.superclass · 0)).toList) cs :=
    fun _ t _ _ ht d hd => .inl (hexplored t ht d hd)
  have hslots := congrArg Candidates.slots (foldl_resweep hready)
  exact hslots

/-- And it keeps for the next what the one before has kept for it. -/
theorem Explored.collect (hexplored : cs.Explored v h sig) (superType : Option TypeId)
    (interfaces : List TypeId) :
    (cs.collect v sig superType interfaces).value.Explored v h sig := by
  intro t ht d hd
  rw [hexplored.slots_collect]
  rw [Candidates.collect, expanded_record, List.mem_append] at ht
  rcases ht with ht | ht
  · exact contains_foldl_add v _ (hexplored t ht d hd)
  · -- expanded just now: what is declared above has been found
    obtain ⟨x, hx, hxt⟩ := List.mem_filterMap.1 ht
    obtain rfl : x = .expands t := by
      cases x <;> simp_all [Sight.expanded?]
    obtain ⟨p, hp, hexpands⟩ := List.mem_flatMap.1 (View.expands_mem_resweep h hx)
    obtain ⟨y, hy, hyd⟩ := List.mem_filterMap.1 hd
    refine contains_foldl_add_of_mem v (List.mem_filterMap.2 ⟨y, ?_, hyd⟩) cs
    exact List.mem_flatMap.2 ⟨p, hp, (View.of_expands_mem h hexpands).2 hy⟩

/-! ### Any number of collections -/

/-- Two records are the same, and so is all that is read off them. -/
structure Alike (cs ds : Candidates) : Prop where
  /-- The same types are on record in the same order, each as the same. -/
  slots : cs.slots = ds.slots
  isCandidate (t : TypeId) : cs.isCandidate t = ds.isCandidate t
  isShadowed (t : TypeId) : cs.isShadowed t = ds.isShadowed t
  holders : cs.holders = ds.holders
  resolve (initial : TypeId) : cs.resolve initial = ds.resolve initial
  target? : cs.target? = ds.target?

/-- Records with the same entries are alike. -/
theorem alike_of_slots (hslots : cs.slots = ds.slots) : cs.Alike ds where
  slots := hslots
  isCandidate t := by rw [isCandidate, isCandidate, hslots]
  isShadowed t := by rw [isShadowed, isShadowed, hslots]
  holders := by rw [holders, holders, offers, offers, hslots]
  resolve := resolve_congr hslots
  target? := target?_congr hslots

/-- Several collections in order, of a super type and a list of interfaces each. -/
def collects (v : View) (sig : MethodSig) (requests : List (Option TypeId × List TypeId))
    (cs : Candidates) : Candidates :=
  requests.foldl (fun cs r => (cs.collect v sig r.1 r.2).value) cs

/-- The same with interfaces expanded whenever they are met. -/
def recollects (v : View) (h : v.Acyclic) (sig : MethodSig)
    (requests : List (Option TypeId × List TypeId)) (cs : Candidates) : Candidates :=
  requests.foldl (fun cs r => cs.recollect v h sig r.1 r.2) cs

/-- **Any number of collections** leave the same on record. -/
theorem Explored.slots_collects (hexplored : cs.Explored v h sig) (hslots : cs.slots = ds.slots)
    (requests : List (Option TypeId × List TypeId)) :
    (cs.collects v sig requests).slots = (ds.recollects v h sig requests).slots := by
  induction requests generalizing cs ds with
  | nil => exact hslots
  | cons r requests ih =>
      refine ih (hexplored.collect r.1 r.2) ?_
      rw [hexplored.slots_collect]
      exact slots_record_congr hslots v _

/-- **The record of what was expanded is there to save work.** In a hierarchy without cycles, be it
full of gaps and cut off by any bound, a search for any signature above a class, or above a super
type and some interfaces, or above several of these one after the other, leaves the very record that
it would leave if it expanded every interface whenever it met it: the same types in the same order,
each a candidate with the same method or shadowed. So whatever is read off the record is the
same, too. -/
theorem collects_expanding_once (v : View) (h : v.Acyclic) (sig : MethodSig) :
    (∀ requests, (empty.collects v sig requests).Alike (empty.recollects v h sig requests)) ∧
    (∀ superType interfaces, (empty.collect v sig superType interfaces).value.Alike
      (empty.recollect v h sig superType interfaces)) ∧
    ∀ c : ClassDef, (empty.collectFromClass v sig c).value.Alike
      (empty.recollect v h sig c.superType c.interfaces) := by
  have hexplored := explored_empty v h sig
  refine ⟨fun requests => ?_, fun superType interfaces => ?_, fun c => ?_⟩
  · exact alike_of_slots (hexplored.slots_collects rfl requests)
  · exact alike_of_slots (hexplored.slots_collect superType interfaces)
  · exact alike_of_slots (hexplored.slots_collect c.superType c.interfaces)

/-! ### An interface that is met twice -/

/-- An interface without methods, below other interfaces. -/
def extending (t : TypeId) (interfaces : List TypeId) : ClassDef :=
  { ClassDef.ofInterface t with interfaces := interfaces }

/-- An interface with a default, one below it, and one below that. -/
def metTwice : View :=
  .ofStore .fresh (((ClassStore.empty.put (withDefault ⟨20⟩ [])).put (extending ⟨21⟩ [⟨20⟩])).put
    (extending ⟨22⟩ [⟨21⟩])) 20

/-- Supertypes have smaller numbers here. -/
theorem lt_of_below_metTwice {t u : TypeId} (hbelow : metTwice.Below t u) : u.val < t.val := by
  obtain ⟨c, hc, hu⟩ := hbelow
  change (((ClassStore.empty.put (withDefault ⟨20⟩ [])).put (extending ⟨21⟩ [⟨20⟩])).put
    (extending ⟨22⟩ [⟨21⟩])).get? t = some c at hc
  rw [ClassStore.get?_put] at hc
  split at hc
  · next ht =>
    subst ht
    obtain rfl := Option.some.inj hc
    revert u
    decide
  · rcases ClassStore.eq_of_get?_put_put hc with ⟨rfl, rfl⟩ | ⟨rfl, rfl⟩ <;>
    · revert u
      decide

/-- This hierarchy has no cycles. -/
theorem acyclic_metTwice : metTwice.Acyclic := by
  have hlt {t u : TypeId} (hpath : TransGen metTwice.Below t u) : u.val < t.val := by
    induction hpath with
    | single hbelow => exact lt_of_below_metTwice hbelow
    | tail _ hbelow ih => exact (lt_of_below_metTwice hbelow).trans ih
  exact fun t hpath => Nat.lt_irrefl _ (hlt hpath)

/-- The one in the middle is met twice, if the last one is searched after it. -/
theorem sweep_metTwice :
    metTwice.sweep defaultSig [] [.interface ⟨21⟩, .interface ⟨22⟩] =
      [.expands ⟨21⟩, .declares ⟨20⟩ (withDefault ⟨20⟩ []) (defaultOf ⟨20⟩), .expands ⟨22⟩,
        .passes ⟨21⟩] := by
  have hroot (seen : List TypeId) (rest : List Pending) :
      metTwice.sweep defaultSig seen (.superclass .object 0 :: rest) =
        metTwice.sweep defaultSig seen rest :=
    View.sweep_superclass_undefined (by decide) (by decide) _ _ _
  rw [View.sweep_interface_expands (c := extending ⟨21⟩ [⟨20⟩]) rfl (by decide) (by decide)]
  change _ :: metTwice.sweep defaultSig [⟨21⟩]
    [.interface ⟨20⟩, .superclass .object 0, .interface ⟨22⟩] = _
  rw [View.sweep_interface_declares (c := withDefault ⟨20⟩ []) (m := defaultOf ⟨20⟩) rfl
      (by decide),
    hroot, View.sweep_interface_expands (c := extending ⟨22⟩ [⟨21⟩]) rfl (by decide) (by decide)]
  change _ :: _ :: _ :: metTwice.sweep defaultSig [⟨22⟩, ⟨21⟩]
    [.interface ⟨21⟩, .superclass .object 0] = _
  rw [View.sweep_interface_passes (c := extending ⟨21⟩ [⟨20⟩]) rfl (by decide) (by decide), hroot,
    View.sweep_nil]

/-- It is passed by the second time, and the default above it is found all the same. -/
theorem collects_metTwice :
    metTwice.Acyclic ∧
    .passes ⟨21⟩ ∈ metTwice.sweep defaultSig [] [.interface ⟨21⟩, .interface ⟨22⟩] ∧
    (empty.recollect metTwice acyclic_metTwice defaultSig none [⟨21⟩, ⟨22⟩]).resolve ⟨23⟩ =
      .single ⟨23⟩ ⟨20⟩ (defaultOf ⟨20⟩) := by
  obtain ⟨-, halike, -⟩ := collects_expanding_once metTwice acyclic_metTwice defaultSig
  refine ⟨acyclic_metTwice, by simp [sweep_metTwice], ?_⟩
  rw [← (halike none [⟨21⟩, ⟨22⟩]).resolve]
  change (empty.record metTwice (metTwice.sweep defaultSig []
    [.interface ⟨21⟩, .interface ⟨22⟩])).resolve ⟨23⟩ = _
  rw [sweep_metTwice, record]
  change resolve ⟨23⟩
    { empty.add metTwice (withDefault ⟨20⟩ []) (defaultOf ⟨20⟩) with expanded := _ } = _
  rw [add_withDefault]
  rfl

end Candidates

end Linkage
