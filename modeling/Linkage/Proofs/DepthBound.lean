import Linkage.Proofs.ClassResolution
import Linkage.Proofs.ExpandedOnce
import Linkage.Proofs.FieldReach

/-!
# The Depth Bound on Shallow Hierarchies

Three walks are cut off by the depth bound, and each counts in its own way: the climb the superclass
links that it has followed when it is about to follow one more, the sweep those of each expansion
before it looks at a superclass, and the field search the links of all kinds on the path to a type.
Where no path is longer than the bound they all come to everything there is to be found. So it makes
no difference which bound it is: two bounds that both cover the longest path give the same answers.
It is only the warnings and the reads that may differ, on the way to types that are not defined.

Paths are counted by their links among defined types, and bounds may be as small as the longest one.
At this length the sweep refuses types that a larger bound would let it enter. They have no defined
supertypes any more, and so there is nothing behind them.

## Main definitions

* `View.withBound`: the same hierarchy under another bound.
* `View.ShallowAbove`: no path from a type has more than so many links.

## Main results

* `value_climb_withBound`: the climb comes to the end of the chain.
* `declared_sweep_withBound`: the sweep finds the same under two bounds.
* `run_eq_of_shallow`: so does every query.
-/

namespace Linkage

open Relation

namespace View

/-- The same hierarchy under another bound. -/
def withBound (v : View) (d : UInt32) : View := { v with maxDepth := d }

/-- No path from a type has more than so many links. -/
def ShallowAbove (v : View) (b : Nat) (t : TypeId) : Prop := ∀ us, v.Path t us → us.length ≤ b

variable {v : View} {b : Nat} {d e : UInt32} {sig : MethodSig} {t holder : TypeId} {c : ClassDef}

/-- The bound of a view is the one it is given. -/
@[simp] theorem bound_withBound (v : View) (d : UInt32) : (v.withBound d).bound = d.toNat := rfl

/-- Another bound leaves the tables as they are. -/
@[simp] theorem table_withBound (v : View) (d : UInt32) : (v.withBound d).table = v.table := rfl

/-- Another bound leaves the definitions as they are. -/
@[simp] theorem definition_withBound (v : View) (d : UInt32) :
    (v.withBound d).definition = v.definition := rfl

/-- Another bound leaves the well-known types and names as they are. -/
@[simp] theorem wellKnown_withBound (v : View) (d : UInt32) :
    (v.withBound d).wellKnown = v.wellKnown := rfl

/-- Another bound leaves the array types as they are. -/
@[simp] theorem isArray_withBound (v : View) (d : UInt32) (t : TypeId) :
    (v.withBound d).isArray t = v.isArray t := rfl

/-! ### The climb -/

/-- Another bound leaves the superclass chains as they are. -/
theorem superclasses_withBound (v : View) (d : UInt32) (n : Nat) (s : Option TypeId) :
    (v.withBound d).superclasses n s = v.superclasses n s := by
  induction n generalizing s with
  | zero => rfl
  | succ n ih =>
      cases hs : s.bind v.definition with
      | none => rw [superclasses_undefined (v := v.withBound d) hs, superclasses_undefined hs]
      | some c => rw [superclasses_succ (v := v.withBound d) hs, superclasses_succ hs, ih]

/-- A superclass chain is a path from the class below it. -/
theorem exists_path_superclasses (hc : v.definition t = some c) (n : Nat) :
    ∃ us, v.Path t us ∧ us.length = (v.superclasses n c.superType).length := by
  induction n generalizing t c with
  | zero => exact ⟨[], path_nil (by rw [hc]; rfl), rfl⟩
  | succ n ih =>
      cases hs : c.superType.bind v.definition with
      | none =>
          rw [superclasses_undefined hs]
          exact ⟨[], path_nil (by rw [hc]; rfl), rfl⟩
      | some e =>
          obtain ⟨s, hsuper, he⟩ := Option.bind_eq_some_iff.1 hs
          obtain ⟨us, hpath, hlength⟩ := ih he
          refine ⟨s :: us, hpath.cons (below_of_superType hc hsuper), ?_⟩
          rw [superclasses_succ hs, List.length_cons, List.length_cons, hlength]

/-- A chain that is not longer than some number of links is the same if more may be followed. -/
theorem superclasses_eq_of_length_le {n : Nat} {s : Option TypeId}
    (hlength : (v.superclasses (b + 1) s).length ≤ b) (hn : b ≤ n) :
    v.superclasses n s = v.superclasses b s := by
  induction b generalizing n s with
  | zero =>
      cases hs : s.bind v.definition with
      | none => rw [superclasses_undefined hs, superclasses_undefined hs]
      | some c =>
          rw [superclasses_succ hs] at hlength
          exact absurd hlength (Nat.not_succ_le_zero _)
  | succ b ih =>
      obtain ⟨m, rfl⟩ : ∃ m, n = m + 1 := ⟨n - 1, by omega⟩
      cases hs : s.bind v.definition with
      | none => rw [superclasses_undefined hs, superclasses_undefined hs]
      | some c =>
          rw [superclasses_succ hs, List.length_cons] at hlength
          rw [superclasses_succ hs, superclasses_succ hs,
            ih (Nat.le_of_succ_le_succ hlength) (Nat.le_of_succ_le_succ hn)]

/-- **The climb comes to the end of the chain**, and its links can be counted. -/
theorem value_climb_withBound (hc : v.definition t = some c) (ht : v.ShallowAbove b t)
    (hd : b ≤ d.toNat) (sig : MethodSig) (holder : TypeId) :
    ((v.withBound d).climb sig holder c 0).value =
      .ok ((c :: v.superclasses b c.superType).findSome? (v.findAt? holder sig)) := by
  have hmax : d.toNat ≤ maxLinks := (v.withBound d).bound_le_maxLinks
  have hlength (n : Nat) : (v.superclasses n c.superType).length ≤ b := by
    obtain ⟨us, hpath, heq⟩ := exists_path_superclasses hc n
    exact heq ▸ ht us hpath
  have hchain : v.superclasses d.toNat c.superType = v.superclasses b c.superType :=
    superclasses_eq_of_length_le (hlength _) hd
  have hcount := hlength (d.toNat + 1)
  have hfind : (v.withBound d).findAt? holder sig = v.findAt? holder sig := rfl
  rw [value_climb_eq (v.withBound d) sig holder c (Nat.zero_le _), bound_withBound, Nat.sub_zero,
    Nat.sub_zero, superclasses_withBound, superclasses_withBound, hchain, hfind,
    if_neg (by omega)]
  cases (c :: v.superclasses b c.superType).findSome? (v.findAt? holder sig) <;> rfl

/-! ### The sweep -/

/-- No path from what is pending is too long for the bound. A superclass has come some links of
its own already. -/
def ShallowPending (v : View) (b : Nat) : Pending → Prop
  | .interface t => v.ShallowAbove b t
  | .superclass t links => ∀ us, v.Path t us → links + us.length ≤ b

/-- Above a type, paths are one link shorter. -/
theorem shallowPending_ahead {links : Nat} (hc : v.definition t = some c)
    (ht : ∀ us, v.Path t us → links + us.length ≤ b + 1) :
    ∀ p ∈ c.ahead links, v.ShallowPending b p := by
  have hlength {u : TypeId} (hbelow : v.Below t u) {us : List TypeId} (hpath : v.Path u us) :
      links + us.length ≤ b :=
    Nat.le_of_succ_le_succ (ht (u :: us) (hpath.cons hbelow))
  refine Pending.forall_mem_iff.2 ⟨fun i hi us hpath => ?_, fun s hs us hpath => ?_⟩
  · exact Nat.le_of_add_left_le (hlength (below_of_interfaces hc hi) hpath)
  · exact hlength (below_of_superType hc hs) hpath

/-- At types that are not defined a sweep finds nothing. -/
theorem declared_sweep_of_undefined {ps : List Pending}
    (hps : ∀ p ∈ ps, v.definition p.type = none) (sig : MethodSig) (seen : List TypeId)
    (rest : List Pending) :
    (v.sweep sig seen (ps ++ rest)).filterMap Sight.declared? =
      (v.sweep sig seen rest).filterMap Sight.declared? := by
  induction ps with
  | nil => rfl
  | cons p ps ih =>
      obtain ⟨hp, hps⟩ := List.forall_mem_cons.1 hps
      rw [List.cons_append, ← ih hps]
      cases p with
      | interface t => rw [sweep_interface_undefined (t := t) hp]
      | superclass t links =>
          by_cases hl : v.bound ≤ links
          · rw [sweep_superclass_cut hl, List.filterMap_cons_none (f := Sight.declared?) rfl]
          · rw [sweep_superclass_undefined (t := t) (Nat.not_le.1 hl) hp]

/-- The sweep finds the same under a larger bound. Induction on the run under that one: where it
enters a superclass that the smaller bound refuses, nothing above this class is defined. -/
theorem declared_sweep_of_le (hd : b ≤ d.toNat) (hle : d.toNat ≤ e.toNat) {seen : List TypeId}
    {pending : List Pending} (hpending : ∀ p ∈ pending, v.ShallowPending b p) :
    ((v.withBound d).sweep sig seen pending).filterMap Sight.declared? =
      ((v.withBound e).sweep sig seen pending).filterMap Sight.declared? := by
  induction seen, pending using sweep.induct (v.withBound e) sig with
  | case1 seen => rw [sweep_nil, sweep_nil]
  | case2 seen t rest hc ih =>
      rw [sweep_interface_undefined (v := v.withBound d) hc, sweep_interface_undefined hc,
        ih (List.forall_mem_cons.1 hpending).2]
  | case3 seen t rest c hc m hm ih =>
      rw [sweep_interface_declares (v := v.withBound d) hc hm, sweep_interface_declares hc hm]
      exact congrArg ((c, m) :: ·) (ih (List.forall_mem_cons.1 hpending).2)
  | case4 seen t rest c hc hm ht ih =>
      rw [sweep_interface_passes (v := v.withBound d) hc hm ht, sweep_interface_passes hc hm ht]
      exact ih (List.forall_mem_cons.1 hpending).2
  | case5 seen t rest c hc hm ht _ ih =>
      obtain ⟨hshallow, hrest⟩ := List.forall_mem_cons.1 hpending
      rw [sweep_interface_expands (v := v.withBound d) hc hm ht, sweep_interface_expands hc hm ht]
      refine ih (List.forall_mem_append.2 ⟨shallowPending_ahead hc fun us hpath => ?_, hrest⟩)
      have hlength := hshallow us hpath
      omega
  | case6 seen t links rest hl ih =>
      rw [sweep_superclass_cut (v := v.withBound d) (Nat.le_trans hle hl), sweep_superclass_cut hl]
      exact ih (List.forall_mem_cons.1 hpending).2
  | case7 seen t links rest hl hc ih =>
      rw [sweep_superclass_undefined (Nat.not_le.1 hl) hc, ← ih (List.forall_mem_cons.1 hpending).2]
      have hnone : ∀ p ∈ [Pending.superclass t links], v.definition p.type = none :=
        List.forall_mem_singleton.2 hc
      exact declared_sweep_of_undefined (v := v.withBound d) hnone sig seen rest
  | case8 seen t links rest hl c hc ih =>
      obtain ⟨hshallow, hrest⟩ := List.forall_mem_cons.1 hpending
      have hahead : ∀ p ∈ c.ahead (links + 1), v.ShallowPending b p := by
        refine shallowPending_ahead hc fun us hpath => ?_
        have hlength := hshallow us hpath
        omega
      have hentered := ih (List.forall_mem_append.2 ⟨hahead, hrest⟩)
      rw [sweep_superclass_enters (Nat.not_le.1 hl) hc, ← hentered]
      by_cases hld : d.toNat ≤ links
      · -- refused under the smaller bound, with no link left for a path
        rw [sweep_superclass_cut (v := v.withBound d) hld,
          List.filterMap_cons_none (f := Sight.declared?) rfl]
        refine (declared_sweep_of_undefined (v := v.withBound d) (fun p hp => ?_) sig seen
          rest).symm
        refine Option.not_isSome_iff_eq_none.1 fun hdef => ?_
        have hlength := hshallow [p.type] ((path_nil hdef).cons (below_of_mem_ahead hc hp))
        rw [List.length_singleton] at hlength
        omega
      · rw [sweep_superclass_enters (v := v.withBound d) (Nat.not_le.1 hld) hc]

/-- **The sweep finds the same under two bounds**, whichever is the larger. -/
theorem declared_sweep_withBound (hd : b ≤ d.toNat) (he : b ≤ e.toNat) {seen : List TypeId}
    {pending : List Pending} (hpending : ∀ p ∈ pending, v.ShallowPending b p) :
    ((v.withBound d).sweep sig seen pending).filterMap Sight.declared? =
      ((v.withBound e).sweep sig seen pending).filterMap Sight.declared? := by
  rcases Nat.le_total d.toNat e.toNat with hle | hle
  · exact declared_sweep_of_le hd hle hpending
  · exact (declared_sweep_of_le he hle hpending).symm

/-! ### The record -/

/-- What is shadowed does not depend on the bound. -/
theorem shade_withBound (v : View) (d : UInt32) (slots : OrderedMap TypeId Slot)
    (ts : List TypeId) : (v.withBound d).shade slots ts = v.shade slots ts := by
  induction slots, ts using shade.induct v with
  | case1 slots => rw [shade_nil, shade_nil]
  | case2 slots t rest hc ih =>
      rw [shade_undefined (v := v.withBound d) hc, shade_undefined hc, ih]
  | case3 slots t rest c hc hs ih => rw [shade_shadowed hs, shade_shadowed hs, ih]
  | case4 slots t rest c hc hs _ ih =>
      rw [shade_fresh (v := v.withBound d) hc hs, shade_fresh hc hs, ih]

/-- Another bound leaves what a candidate shadows as it is. -/
theorem add_withBound (v : View) (d : UInt32) (cs : Candidates) (c : ClassDef) (m : Method) :
    cs.add (v.withBound d) c m = cs.add v c m := by
  rw [Candidates.add, Candidates.add, shade_withBound]

/-- What is on record after a collection is what the sweep found. -/
theorem slots_collect_withBound (hd : b ≤ d.toNat) (he : b ≤ e.toNat) {superType : Option TypeId}
    {interfaces : List TypeId} (hpending : ∀ p ∈ interfaces.map Pending.interface ++
      (superType.map (Pending.superclass · 0)).toList, v.ShallowPending b p) :
    (Candidates.empty.collect (v.withBound d) sig superType interfaces).value.slots =
      (Candidates.empty.collect (v.withBound e) sig superType interfaces).value.slots := by
  simp only [Candidates.collect, Candidates.record, add_withBound,
    declared_sweep_withBound hd he hpending]

/-- **Deep enough bounds leave the same record** of the superinterfaces of a class. -/
theorem slots_collectFromClass_withBound (hd : b ≤ d.toNat) (he : b ≤ e.toNat)
    (hc : v.definition t = some c) (ht : v.ShallowAbove b t) (sig : MethodSig) :
    (Candidates.empty.collectFromClass (v.withBound d) sig c).value.slots =
      (Candidates.empty.collectFromClass (v.withBound e) sig c).value.slots :=
  slots_collect_withBound hd he <| shallowPending_ahead hc fun us hpath => by
    have hlength := ht us hpath
    omega

/-! ### Resolution -/

section Resolution

variable (hd : b ≤ d.toNat) (he : b ≤ e.toNat)
include hd he

/-- Deep enough bounds make no difference to the choice among superinterfaces. -/
theorem value_resolveInherited_withBound (hc : v.definition t = some c) (ht : v.ShallowAbove b t)
    (sig : MethodSig) :
    ((v.withBound d).resolveInherited c sig).value =
      ((v.withBound e).resolveInherited c sig).value :=
  Candidates.resolve_congr (slots_collectFromClass_withBound hd he hc ht sig) c.type

/-- Deep enough bounds make no difference to a reference to a defined class. -/
theorem value_resolveOnClassDef_withBound (hc : v.definition t = some c)
    (ht : v.ShallowAbove b t) (sig : MethodSig) :
    ((v.withBound d).resolveOnClassDef c sig).value =
      ((v.withBound e).resolveOnClassDef c sig).value := by
  rw [resolveOnClassDef, resolveOnClassDef, Walk.value_bind, Walk.value_bind,
    value_climb_withBound hc ht hd, value_climb_withBound hc ht he]
  cases (c :: v.superclasses b c.superType).findSome? (v.findAt? c.type sig) with
  | some r => rfl
  | none => exact congrArg Except.ok (value_resolveInherited_withBound hd he hc ht sig)

/-- Deep enough bounds make no difference to a reference to a type that is not an array. -/
theorem value_resolveOnPlainClass_withBound (ht : v.ShallowAbove b t) (sig : MethodSig) :
    ((v.withBound d).resolveOnPlainClass t sig).value =
      ((v.withBound e).resolveOnPlainClass t sig).value := by
  rw [resolveOnPlainClass, resolveOnPlainClass, definition_withBound, definition_withBound]
  cases hc : v.definition t with
  | none => rfl
  | some c =>
      dsimp only
      split
      · rfl
      · exact value_resolveOnClassDef_withBound hd he hc ht sig

/-- Deep enough bounds make no difference to a reference to an array type. -/
theorem value_resolveOnArray_withBound (hobject : v.ShallowAbove b v.wellKnown.object)
    (sig : MethodSig) :
    ((v.withBound d).resolveOnArray sig).value = ((v.withBound e).resolveOnArray sig).value := by
  rw [resolveOnArray, resolveOnArray, wellKnown_withBound, wellKnown_withBound]
  split
  · rfl
  · exact value_resolveOnPlainClass_withBound hd he hobject sig

/-- Deep enough bounds make no difference to a class reference. -/
theorem value_resolveOnClass_withBound (hobject : v.ShallowAbove b v.wellKnown.object)
    (ht : v.ShallowAbove b t) (sig : MethodSig) :
    ((v.withBound d).resolveOnClass t sig).value =
      ((v.withBound e).resolveOnClass t sig).value := by
  rw [resolveOnClass, resolveOnClass, isArray_withBound, isArray_withBound]
  split
  · exact value_resolveOnArray_withBound hd he hobject sig
  · exact value_resolveOnPlainClass_withBound hd he ht sig

/-- Deep enough bounds make no difference to a reference to a defined interface. -/
theorem value_resolveOnInterfaceDef_withBound (hc : v.definition t = some c)
    (ht : v.ShallowAbove b t) (sig : MethodSig) :
    ((v.withBound d).resolveOnInterfaceDef c sig).value =
      ((v.withBound e).resolveOnInterfaceDef c sig).value := by
  simp only [resolveOnInterfaceDef, Walk.value_bind, value_readMethod, table_withBound,
    definition_withBound, wellKnown_withBound]
  split
  · rfl
  · split
    · rfl
    · rw [Walk.value_bind, Walk.value_bind, value_readMethod, value_readMethod, table_withBound,
        table_withBound]
      split
      · rfl
      · exact value_resolveInherited_withBound hd he hc ht sig

/-- Deep enough bounds make no difference to an interface reference. -/
theorem value_resolveOnInterface_withBound (ht : v.ShallowAbove b t) (sig : MethodSig) :
    ((v.withBound d).resolveOnInterface t sig).value =
      ((v.withBound e).resolveOnInterface t sig).value := by
  rw [resolveOnInterface, resolveOnInterface, isArray_withBound, isArray_withBound,
    definition_withBound, definition_withBound]
  split
  · rfl
  · cases hc : v.definition t with
    | none => rfl
    | some c =>
        dsimp only
        split
        · exact congrArg Except.ok (value_resolveOnInterfaceDef_withBound hd he hc ht sig)
        · rfl

/-- Deep enough bounds make no difference to a reference that follows the definition. -/
theorem value_resolveStructural_withBound (hobject : v.ShallowAbove b v.wellKnown.object)
    (ht : v.ShallowAbove b t) (sig : MethodSig) :
    ((v.withBound d).resolveStructural t sig).value =
      ((v.withBound e).resolveStructural t sig).value := by
  rw [resolveStructural, resolveStructural, isArray_withBound, isArray_withBound,
    definition_withBound, definition_withBound]
  split
  · exact value_resolveOnArray_withBound hd he hobject sig
  · cases hc : v.definition t with
    | none => rfl
    | some c =>
        dsimp only
        split
        · exact congrArg Except.ok (value_resolveOnInterfaceDef_withBound hd he hc ht sig)
        · exact value_resolveOnClassDef_withBound hd he hc ht sig

/-- Deep enough bounds make no difference to the target that a type inherits. -/
theorem value_inheritedTarget_withBound (ht : v.ShallowAbove b t) (sig : MethodSig) :
    ((v.withBound d).inheritedTarget t sig).value =
      ((v.withBound e).inheritedTarget t sig).value := by
  rw [inheritedTarget, inheritedTarget, definition_withBound, definition_withBound]
  cases hc : v.definition t with
  | none => rfl
  | some c =>
      exact Candidates.target?_congr (slots_collectFromClass_withBound hd he hc ht sig)

/-- Deep enough bounds make no difference to the target of a lambda. -/
theorem value_lambdaTarget_withBound (hobject : v.ShallowAbove b v.wellKnown.object)
    {interfaces : List TypeId} (hinterfaces : ∀ i ∈ interfaces, v.ShallowAbove b i)
    (sig : MethodSig) :
    ((v.withBound d).lambdaTarget interfaces sig).value =
      ((v.withBound e).lambdaTarget interfaces sig).value := by
  refine Candidates.target?_congr (slots_collect_withBound hd he
    (Pending.forall_mem_iff.2 ⟨hinterfaces, fun s hs us hpath => ?_⟩))
  obtain rfl := Option.some.inj hs
  rw [Nat.zero_add]
  exact hobject us hpath

omit he in
/-- With room for every path, the field search is the tour, which knows no bound. -/
theorem value_resolveField_withBound (ht : v.ShallowAbove b t) (sig : FieldSig) :
    ((v.withBound d).resolveField t sig).value =
      (v.supertypeLinks.tour [] [t]).findSome? fun u => (v.table u).field? sig :=
  value_resolveField_eq_tour (v := v.withBound d)
    (fun us hpath _ => Nat.le_trans (ht us hpath) hd) sig

end Resolution

/-- **The bound makes no difference to shallow hierarchies.** If no path from the types that a query
names, or from the root class, has more links than either of two bounds, then the query comes to the
same under both. There may be as many links as the smaller bound says, and the hierarchy may be
incomplete; no path being longer than that, there are no cycles in reach. -/
theorem run_eq_of_shallow {q : Query}
    (hshallow : ∀ r ∈ v.wellKnown.object :: q.named, ∀ us, v.Path r us → us.length ≤ b)
    (hd : b ≤ d.toNat) (he : b ≤ e.toNat) :
    (q.run (v.withBound d)).value = (q.run (v.withBound e)).value := by
  obtain ⟨hobject, hnamed⟩ := List.forall_mem_cons.1 hshallow
  cases q with
  | resolveOnClass holder sig =>
      exact congrArg Answer.ofResolution (value_resolveOnClass_withBound hd he hobject
        (List.forall_mem_singleton.1 hnamed) sig)
  | resolveOnInterface holder sig =>
      exact congrArg Answer.ofResolution (value_resolveOnInterface_withBound hd he
        (List.forall_mem_singleton.1 hnamed) sig)
  | resolve holder sig isInterface =>
      have hholder : v.ShallowAbove b holder := List.forall_mem_singleton.1 hnamed
      refine congrArg Answer.ofResolution ?_
      cases isInterface with
      | true => exact value_resolveOnInterface_withBound hd he hholder sig
      | false => exact value_resolveOnClass_withBound hd he hobject hholder sig
  | resolveStructural holder sig =>
      exact congrArg Answer.ofResolution (value_resolveStructural_withBound hd he hobject
        (List.forall_mem_singleton.1 hnamed) sig)
  | resolveField holder sig =>
      have hholder : v.ShallowAbove b holder := List.forall_mem_singleton.1 hnamed
      refine congrArg (Except.ok ∘ Answer.field) ?_
      rw [value_resolveField_withBound hd hholder, value_resolveField_withBound he hholder]
  | inheritedTarget t sig =>
      exact congrArg (Except.ok ∘ Answer.target) (value_inheritedTarget_withBound hd he
        (List.forall_mem_singleton.1 hnamed) sig)
  | lambdaTarget interfaces sig =>
      exact congrArg (Except.ok ∘ Answer.target)
        (value_lambdaTarget_withBound hd he hobject hnamed sig)
  | staticTarget ref context => rfl
  | directTarget ref context => rfl
  | definition t => rfl
  | method ref => rfl
  | field ref => rfl
  | members t => rfl

/-! ### A chain as long as the bound -/

/-- A rank that falls along links to defined types bounds the paths. -/
theorem Path.length_le_of_rank {rank : TypeId → Nat}
    (hrank : ∀ {t u}, v.Below t u → (v.definition u).isSome → rank u < rank t) {us : List TypeId}
    (h : v.Path t us) : us.length ≤ rank t := by
  induction us generalizing t with
  | nil => exact Nat.zero_le _
  | cons u us ih =>
      obtain ⟨hchain, hdef⟩ := h
      obtain ⟨hbelow, hrest⟩ := List.isChain_cons_cons.1 hchain
      have hdefs := (List.forall_mem_cons.1 hdef).2
      have hlength := ih ⟨hrest, hdefs⟩
      have hlt := hrank hbelow (hdefs u List.mem_cons_self)
      rw [List.length_cons]
      omega

/-- A class whose superclass is the one with the preceding number. -/
def oneLinkUp : ClassDef := .ofClass ⟨49⟩ (some ⟨48⟩)

/-- A view of this class, and of a superclass that declares a method. -/
def oneLink : View :=
  .ofStore .fresh
    ((ClassStore.empty.put { ClassDef.ofClass ⟨48⟩ none with
        methods := [Candidates.defaultOf ⟨48⟩] }).put oneLinkUp) 20

/-- A link leads from the one class to the other, and no further. -/
theorem lt_of_below_oneLink {t u : TypeId} (hbelow : oneLink.Below t u) :
    u.val - 48 < t.val - 48 := by
  obtain ⟨c, hc, hu⟩ := hbelow
  rcases ClassStore.eq_of_get?_put_put hc with ⟨rfl, rfl⟩ | ⟨rfl, rfl⟩
  · exact absurd hu List.not_mem_nil
  · obtain rfl := List.mem_singleton.1 hu
    decide

/-- No chain in this hierarchy has more than one link. -/
theorem shallowAbove_oneLink (ht : t.val ≤ 49) : oneLink.ShallowAbove 1 t := by
  intro us hpath
  have hlength := hpath.length_le_of_rank fun hbelow _ => lt_of_below_oneLink hbelow
  omega

/-- Following one link is enough to find the method. -/
theorem value_resolveOnClass_oneLink :
    ((oneLink.withBound 1).resolveOnClass ⟨49⟩ Candidates.defaultSig).value =
      .ok (.single ⟨49⟩ ⟨48⟩ (Candidates.defaultOf ⟨48⟩)) := by
  have harray : (oneLink.withBound 1).isArray ⟨49⟩ = false := by decide +kernel
  have hfind : (oneLinkUp :: oneLink.superclasses 1 oneLinkUp.superType).findSome?
      (oneLink.findAt? oneLinkUp.type Candidates.defaultSig) =
        some (.single ⟨49⟩ ⟨48⟩ (Candidates.defaultOf ⟨48⟩)) := by decide +kernel
  have hclimb := value_climb_withBound (v := oneLink) (t := ⟨49⟩) (c := oneLinkUp) (d := 1) rfl
    (shallowAbove_oneLink (Nat.le_refl 49)) (Nat.le_refl 1) Candidates.defaultSig oneLinkUp.type
  rw [resolveOnClass, harray]
  change ((oneLink.withBound 1).resolveOnClassDef oneLinkUp Candidates.defaultSig).value = _
  rw [resolveOnClassDef, Walk.value_bind, hclimb, hfind]
  rfl

/-- **A chain as long as the bound** is followed to its end, and so the method is found under the
greatest bound, too. -/
theorem resolveOnClass_oneLink :
    (∀ r ∈ [oneLink.wellKnown.object, ⟨49⟩], ∀ us, oneLink.Path r us → us.length ≤ 1) ∧
    oneLink.Path ⟨49⟩ [⟨48⟩] ∧
    ((Query.resolveOnClass ⟨49⟩ Candidates.defaultSig).run (oneLink.withBound 4294967295)).value =
      .ok (.resolution (.single ⟨49⟩ ⟨48⟩ (Candidates.defaultOf ⟨48⟩))) := by
  have hobject : oneLink.wellKnown.object = .object := by decide +kernel
  have hshallow : ∀ r ∈ [oneLink.wellKnown.object, ⟨49⟩], oneLink.ShallowAbove 1 r := by
    rw [hobject]
    have hvals : ∀ r ∈ [TypeId.object, ⟨49⟩], r.val ≤ 49 := by decide
    exact fun r hr => shallowAbove_oneLink (hvals r hr)
  refine ⟨hshallow, (path_nil rfl).cons ⟨oneLinkUp, rfl, List.mem_singleton_self _⟩, ?_⟩
  rw [run_eq_of_shallow (e := 1) (q := .resolveOnClass ⟨49⟩ Candidates.defaultSig) hshallow
    (by decide) (by decide)]
  exact Query.value_ofResolution_eq_iff.2 value_resolveOnClass_oneLink

end View

end Linkage
