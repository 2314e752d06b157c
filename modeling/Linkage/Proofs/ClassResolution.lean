import Linkage.MethodResolution
import Linkage.Proofs.Coherence
import Linkage.Proofs.Superinterfaces

/-!
# Resolution of Class Method References

A class method reference means what the first class on the superclass chain has for it, and only
if none has anything, what is chosen among the superinterfaces. The chain is cut off by the depth
bound in two places that count differently: the climb counts the links it has followed when it is
about to follow one more, the sweep those it has yet to follow. Here both are shown to see the
same classes, on any chain, whether it ends or comes back to itself.

## Main definitions

* `View.SignaturePolymorphic`: a class has a method that is found by name alone.
* `View.answer?`: what a class has for a reference.
* `View.findAt?`: what the climb finds at a class.

## Main results

* `value_climb_eq`: the climb finds the first there is on the chain.
* `resolveOnClass_eq`: what a class method reference means.
-/

namespace Linkage

namespace View

variable {v : View}

/-- A class has a signature-polymorphic method: it is one of the two method-handle classes, and the
only method of the name that it declares is native and takes its arguments as one array of
objects. -/
def SignaturePolymorphic (v : View) (c : ClassDef) (name : Symbol) (m : Method) : Prop :=
  (c.type = v.wellKnown.methodHandle ∨ c.type = v.wellKnown.varHandle) ∧
    c.methodsNamed name = [m] ∧ m.access.isVarargsNative = true ∧
    (v.types.lookupProto? m.sig.proto).map Proto.params = some [v.wellKnown.objectArray]

/-- The signature-polymorphic method is found exactly if the class has one of the name. -/
theorem polymorphic?_eq_some_iff {c : ClassDef} {name : Symbol} {m : Method} :
    v.polymorphic? c name = some m ↔ v.SignaturePolymorphic c name m := by
  rw [polymorphic?, SignaturePolymorphic]
  constructor
  · intro h
    split at h
    · next htype =>
      split at h
      · next n hn =>
        split at h
        · next hshape =>
          obtain rfl : n = m := Option.some.inj h
          exact ⟨htype, hn, hshape⟩
        · simp at h
      · simp at h
    · simp at h
  · rintro ⟨htype, hn, hshape⟩
    rw [if_pos htype, hn]
    exact if_pos hshape

/-- What a class has for a reference to `holder`: a method found by name before one found by
signature, unless that is private and not the holder's own. -/
def answer? (v : View) (holder : TypeId) (sig : MethodSig) (c : ClassDef) : Option Resolution :=
  match v.polymorphic? c sig.name with
  | some m => some (.single holder c.type m)
  | none => (c.method? sig).map fun m =>
    if m.access.isPrivate ∧ c.type ≠ holder then .illegalAccess m else .single holder c.type m

/-- A class with a signature-polymorphic method answers with it. -/
theorem answer?_of_polymorphic {holder : TypeId} {sig : MethodSig} {c : ClassDef} {m : Method}
    (h : v.SignaturePolymorphic c sig.name m) :
    v.answer? holder sig c = some (.single holder c.type m) := by
  rw [answer?, polymorphic?_eq_some_iff.2 h]

/-- A class that declares the method answers with it, or says that it is out of reach. -/
theorem answer?_of_method {holder : TypeId} {sig : MethodSig} {c : ClassDef} {m : Method}
    (hp : v.polymorphic? c sig.name = none) (hm : c.method? sig = some m) :
    v.answer? holder sig c =
      some (if m.access.isPrivate ∧ c.type ≠ holder then .illegalAccess m
        else .single holder c.type m) := by
  rw [answer?, hp, hm]
  rfl

/-- A class has no answer if it has neither. -/
theorem answer?_eq_none_iff {holder : TypeId} {sig : MethodSig} {c : ClassDef} :
    v.answer? holder sig c = none ↔ v.polymorphic? c sig.name = none ∧ c.method? sig = none := by
  rw [answer?]
  cases v.polymorphic? c sig.name <;> simp

/-- A class has nothing for a reference. -/
def HasNothing (v : View) (sig : MethodSig) (c : ClassDef) : Prop :=
  (∀ m, ¬ v.SignaturePolymorphic c sig.name m) ∧ c.method? sig = none

/-- There is no signature-polymorphic method to be found exactly if the class has none. -/
theorem polymorphic?_eq_none_iff {c : ClassDef} {name : Symbol} :
    v.polymorphic? c name = none ↔ ∀ m, ¬ v.SignaturePolymorphic c name m := by
  rw [Option.eq_none_iff_forall_ne_some]
  exact forall_congr' fun m => not_congr polymorphic?_eq_some_iff

/-- A class without methods has nothing. -/
theorem hasNothing_of_methods_eq_nil {sig : MethodSig} {c : ClassDef} (h : c.methods = []) :
    v.HasNothing sig c := by
  refine ⟨fun m hm => ?_, ?_⟩
  · have hnamed := hm.2.1
    rw [ClassDef.methodsNamed, h] at hnamed
    cases hnamed
  · rw [ClassDef.method?, h, List.find?_nil]

/-- A class that has nothing gives no answer. -/
theorem HasNothing.answer? {holder : TypeId} {sig : MethodSig} {c : ClassDef}
    (h : v.HasNothing sig c) : v.answer? holder sig c = none :=
  answer?_eq_none_iff.2 ⟨polymorphic?_eq_none_iff.2 h.1, h.2⟩

/-! ### The climb -/

/-- What the climb finds at a class, with the tables as they are: a method found by name before one
that the table has under the signature. -/
def findAt? (v : View) (holder : TypeId) (sig : MethodSig) (c : ClassDef) : Option Resolution :=
  match v.polymorphic? c sig.name with
  | some m => some (.single holder c.type m)
  | none => ((v.table c.type).method? sig).map fun m =>
    if m.access.isPrivate ∧ c.type ≠ holder then .illegalAccess m else .single holder c.type m

/-- Nothing is found on a class exactly if there is nothing of the name or of the signature. -/
theorem findAt?_eq_none_iff {holder : TypeId} {sig : MethodSig} {c : ClassDef} :
    v.findAt? holder sig c = none ↔
      v.polymorphic? c sig.name = none ∧ (v.table c.type).method? sig = none := by
  rw [findAt?]
  cases v.polymorphic? c sig.name <;> simp

/-- In a coherent view, what is found at a class is what the class has. -/
theorem findAt?_eq_answer? (hcoherent : v.Coherent) {c : ClassDef}
    (hc : v.definition c.type = some c) (holder : TypeId) (sig : MethodSig) :
    v.findAt? holder sig c = v.answer? holder sig c := by
  rw [findAt?, answer?, hcoherent.method?_table, hc, Option.bind_some]

/-- The climb ends where something is found. -/
theorem value_climb_of_findAt? {holder : TypeId} {sig : MethodSig} {c : ClassDef} {r : Resolution}
    (h : v.findAt? holder sig c = some r) (links : Nat) :
    (v.climb sig holder c links).value = .ok (some r) := by
  rw [findAt?] at h
  cases hp : v.polymorphic? c sig.name with
  | some m =>
      rw [hp] at h
      rw [climb_polymorphic hp, Walk.value_pure, ← h]
  | none =>
      rw [hp] at h
      obtain ⟨m, hm, rfl⟩ := Option.map_eq_some_iff.1 h
      rw [climb_declares hp hm, Walk.value_bind, Walk.value_pure]

/-- The bound is a number of links that can be counted. -/
theorem bound_le_maxLinks (v : View) : v.bound ≤ maxLinks := by
  have h := v.maxDepth.toNat_lt
  rw [bound, maxLinks, UInt32.size]
  omega

/-- **The climb finds the first there is** on the chain, of which it sees as many classes as there
are links left. If there is nothing, it ends without a result, unless it goes on for so many links
that they cannot be counted. -/
theorem value_climb_eq (v : View) (sig : MethodSig) (holder : TypeId) (c : ClassDef) {links : Nat}
    (hlinks : links ≤ v.bound) :
    (v.climb sig holder c links).value =
      match (c :: v.superclasses (v.bound - links) c.superType).findSome?
        (v.findAt? holder sig) with
      | some r => .ok (some r)
      | none =>
        if maxLinks < links + (v.superclasses (v.bound + 1 - links) c.superType).length then
          .error .linkOverflow
        else .ok none := by
  have hmax := v.bound_le_maxLinks
  rw [List.findSome?_cons]
  cases hfind : v.findAt? holder sig c with
  | some r => exact value_climb_of_findAt? hfind links
  | none =>
      obtain ⟨hp, hm⟩ := findAt?_eq_none_iff.1 hfind
      cases hs : c.superType.bind v.definition with
      | none =>
          rw [climb_top hp hm hs, superclasses_undefined hs, superclasses_undefined hs,
            List.findSome?_nil, List.length_nil, if_neg (by omega)]
          rfl
      | some d =>
          obtain ⟨n, hn⟩ : ∃ n, v.bound + 1 - links = n + 1 := ⟨v.bound - links, by omega⟩
          rw [hn, superclasses_succ hs n, List.length_cons]
          by_cases hl : links < v.bound
          · -- the climb goes on, with one link less to follow
            obtain ⟨k, hk⟩ : ∃ k, v.bound - links = k + 1 := ⟨v.bound - links - 1, by omega⟩
            rw [climb_super hp hm hs hl, Walk.value_bind, value_climb_eq v sig holder d hl, hk,
              superclasses_succ hs k, show v.bound - (links + 1) = k by omega,
              show v.bound + 1 - (links + 1) = n by omega,
              Nat.add_right_comm links 1, Nat.add_assoc]
          · -- no link is left, and it depends on their number how this is noticed
            obtain rfl : n = 0 := by omega
            rw [show v.bound - links = 0 by omega]
            change _ = if maxLinks < links + 1 then _ else _
            by_cases hcount : links = maxLinks
            · rw [hcount, climb_overflow hp hm hs, if_pos (Nat.lt_succ_self _)]
              rfl
            · rw [climb_cut hp hm hs (Nat.not_lt.1 hl) hcount, if_neg (by omega)]
              rfl
termination_by v.bound - links

/-- The classes of a chain are defined under their types. -/
theorem definition_of_mem_superclasses (htyped : v.Typed) {n : Nat} {s : Option TypeId}
    {d : ClassDef} (h : d ∈ v.superclasses n s) : v.definition d.type = some d := by
  induction n generalizing s with
  | zero => cases h
  | succ n ih =>
      cases hs : s.bind v.definition with
      | none =>
          rw [superclasses_undefined hs] at h
          cases h
      | some e =>
          rw [superclasses_succ hs] at h
          rcases List.mem_cons.1 h with rfl | h
          · obtain ⟨t, -, hd⟩ := Option.bind_eq_some_iff.1 hs
            rwa [htyped hd]
          · exact ih h

/-- In a coherent view, the first thing found on a chain is the first answer. -/
theorem findSome?_findAt? (hcoherent : v.Coherent) {cs : List ClassDef}
    (hcs : ∀ d ∈ cs, v.definition d.type = some d) (holder : TypeId) (sig : MethodSig) :
    cs.findSome? (v.findAt? holder sig) = cs.findSome? (v.answer? holder sig) := by
  induction cs with
  | nil => rfl
  | cons d cs ih =>
      rw [List.findSome?_cons, List.findSome?_cons,
        findAt?_eq_answer? hcoherent (hcs d List.mem_cons_self),
        ih fun e he => hcs e (List.mem_cons_of_mem _ he)]

section Coherent

variable (hcoherent : v.Coherent) {c : ClassDef} (hc : v.definition c.type = some c)
include hcoherent hc

/-- **The climb in a coherent view** finds the first answer on the chain. -/
theorem value_climb_of_coherent (sig : MethodSig) (holder : TypeId) {links : Nat}
    (hlinks : links ≤ v.bound) :
    (v.climb sig holder c links).value =
      match (c :: v.superclasses (v.bound - links) c.superType).findSome?
        (v.answer? holder sig) with
      | some r => .ok (some r)
      | none =>
        if maxLinks < links + (v.superclasses (v.bound + 1 - links) c.superType).length then
          .error .linkOverflow
        else .ok none := by
  rw [value_climb_eq v sig holder c hlinks, findSome?_findAt? hcoherent]
  intro d hd
  rcases List.mem_cons.1 hd with rfl | hd
  · exact hc
  · exact definition_of_mem_superclasses hcoherent.typed hd

/-- Below the largest bound the links can always be counted. -/
theorem value_climb (hbound : v.bound < maxLinks) (sig : MethodSig) (holder : TypeId) {links : Nat}
    (hlinks : links ≤ v.bound) :
    (v.climb sig holder c links).value =
      .ok ((c :: v.superclasses (v.bound - links) c.superType).findSome?
        (v.answer? holder sig)) := by
  rw [value_climb_of_coherent hcoherent hc sig holder hlinks]
  split
  · next h => rw [h]
  · next h =>
      have hlength := v.length_superclasses_le (v.bound + 1 - links) c.superType
      rw [h, if_neg (by omega)]

/-- Where no class has anything, it depends on their number how the climb ends. -/
theorem value_climb_of_hasNothing {sig : MethodSig} (holder : TypeId) {links : Nat}
    (hlinks : links ≤ v.bound)
    (hnothing : ∀ d ∈ c :: v.superclasses (v.bound - links) c.superType, v.HasNothing sig d) :
    (v.climb sig holder c links).value =
      if maxLinks < links + (v.superclasses (v.bound + 1 - links) c.superType).length then
        .error .linkOverflow
      else .ok none := by
  have hnone : (c :: v.superclasses (v.bound - links) c.superType).findSome?
      (v.answer? holder sig) = none := by
    rw [List.findSome?_eq_none_iff]
    exact fun d hd => (hnothing d hd).answer?
  rw [value_climb_of_coherent hcoherent hc sig holder hlinks, hnone]

end Coherent

/-- The superinterfaces are asked by the lists of all classes on the chain. -/
theorem value_resolveInherited (htyped : v.Typed) (c : ClassDef) (sig : MethodSig) :
    (v.resolveInherited c sig).value =
      (Candidates.empty.collect v sig none (v.inheritedInterfaces c)).value.resolve c.type := by
  rw [resolveInherited, Walk.value_bind, Walk.value_pure]
  refine Candidates.resolve_congr ?_ c.type
  rw [Candidates.slots_collectFromClass htyped, Candidates.slots_collect htyped,
    superclasses_none, List.flatMap_nil, List.append_nil]

/-- A class method reference to a class that is defined means the first answer on the chain, or
else what is chosen among the superinterfaces. -/
theorem value_resolveOnClass (hcoherent : v.Coherent) (hbound : v.bound < maxLinks)
    {holder : TypeId} {c : ClassDef} (harray : v.isArray holder = false)
    (hc : v.definition holder = some c) (hclass : c.isInterface = false) (sig : MethodSig) :
    (v.resolveOnClass holder sig).value =
      .ok (((c :: v.superclasses v.bound c.superType).findSome? (v.answer? holder sig)).getD
        ((Candidates.empty.collect v sig none (v.inheritedInterfaces c)).value.resolve
          holder)) := by
  have htype : c.type = holder := hcoherent.typed hc
  have hclimb := value_climb hcoherent (c := c) (by rwa [htype]) hbound sig c.type v.bound.zero_le
  rw [Nat.sub_zero] at hclimb
  rw [resolveOnClass, if_neg (by simp [harray]), resolveOnPlainClass, hc]
  simp only [hclass, Bool.false_eq_true, if_false]
  rw [resolveOnClassDef, Walk.value_bind, hclimb, ← htype]
  cases (c :: v.superclasses v.bound c.superType).findSome? (v.answer? c.type sig) with
  | some r => rfl
  | none =>
      rw [Option.getD_none, ← value_resolveInherited hcoherent.typed]
      rfl

/-- Where no class on the chain has anything, the choice is made among the superinterfaces, if the
links of the chain can be counted. -/
theorem value_resolveOnClass_of_hasNothing (hcoherent : v.Coherent) {c : ClassDef} {sig : MethodSig}
    (harray : v.isArray c.type = false) (hc : v.definition c.type = some c)
    (hclass : c.isInterface = false)
    (hnothing : ∀ d ∈ c :: v.superclasses v.bound c.superType, v.HasNothing sig d) :
    (v.resolveOnClass c.type sig).value =
      if maxLinks < (v.superclasses (v.bound + 1) c.superType).length then .error .linkOverflow
      else .ok (v.resolveInherited c sig).value := by
  have hclimb := value_climb_of_hasNothing hcoherent hc c.type v.bound.zero_le hnothing
  rw [Nat.zero_add, Nat.sub_zero] at hclimb
  rw [resolveOnClass, if_neg (by simp [harray]), resolveOnPlainClass, hc]
  simp only [hclass, Bool.false_eq_true, if_false]
  rw [resolveOnClassDef, Walk.value_bind, hclimb]
  by_cases hover : maxLinks < (v.superclasses (v.bound + 1) c.superType).length
  · rw [if_pos hover, if_pos hover]
    rfl
  · rw [if_neg hover, if_neg hover]
    rfl

/-- The first class on a chain that has an answer decides. -/
theorem findSome?_answer? {holder : TypeId} {sig : MethodSig} {pre post : List ClassDef}
    {ci : ClassDef} {r : Resolution} (hpre : ∀ e ∈ pre, v.HasNothing sig e)
    (hr : v.answer? holder sig ci = some r) :
    (pre ++ ci :: post).findSome? (v.answer? holder sig) = some r := by
  have hnone : pre.findSome? (v.answer? holder sig) = none := by
    rw [List.findSome?_eq_none_iff]
    exact fun e he => (hpre e he).answer?
  rw [List.findSome?_append, hnone, Option.none_or, List.findSome?_cons, hr]

/-- **What a class method reference means.** Of the holder's class and the known superclasses
above it, as many as the bound allows, the first one that has anything decides: with a
signature-polymorphic method of the name, or else with a method of the signature, which is out of
reach if it is private and not the holder's own. If none of them has anything, the choice is made
among the superinterfaces that they list. -/
theorem resolveOnClass_eq (hcoherent : v.Coherent) (hbound : v.bound < maxLinks)
    {holder : TypeId} {c : ClassDef} (harray : v.isArray holder = false)
    (hc : v.definition holder = some c) (hclass : c.isInterface = false) (sig : MethodSig) :
    (∀ pre ci post, c :: v.superclasses v.bound c.superType = pre ++ ci :: post →
      (∀ e ∈ pre, v.HasNothing sig e) →
      (∀ m, v.SignaturePolymorphic ci sig.name m →
        (v.resolveOnClass holder sig).value = .ok (.single holder ci.type m)) ∧
      (∀ m, (∀ n, ¬ v.SignaturePolymorphic ci sig.name n) → ci.method? sig = some m →
        (m.access.isPrivate = true ∧ ci.type ≠ holder →
          (v.resolveOnClass holder sig).value = .ok (.illegalAccess m)) ∧
        (¬ (m.access.isPrivate = true ∧ ci.type ≠ holder) →
          (v.resolveOnClass holder sig).value = .ok (.single holder ci.type m)))) ∧
    ((∀ e ∈ c :: v.superclasses v.bound c.superType, v.HasNothing sig e) →
      (v.resolveOnClass holder sig).value =
        .ok ((Candidates.empty.collect v sig none ((c :: v.superclasses v.bound
          c.superType).flatMap ClassDef.interfaces)).value.resolve holder)) := by
  rw [value_resolveOnClass hcoherent hbound harray hc hclass]
  constructor
  · intro pre ci post hchain hpre
    rw [hchain]
    constructor
    · intro m hm
      rw [findSome?_answer? hpre (answer?_of_polymorphic hm), Option.getD_some]
    · intro m hp hm
      rw [findSome?_answer? hpre (answer?_of_method (polymorphic?_eq_none_iff.2 hp) hm),
        Option.getD_some]
      exact ⟨fun h => by rw [if_pos h], fun h => by rw [if_neg h]⟩
  · intro hnothing
    have hnone : (c :: v.superclasses v.bound c.superType).findSome? (v.answer? holder sig) =
        none := by
      rw [List.findSome?_eq_none_iff]
      exact fun e he => (hnothing e he).answer?
    rw [hnone, Option.getD_none, inheritedInterfaces]

/-! ### A private method of a superclass -/

/-- A class with a private method. -/
def reserved : ClassDef :=
  { ClassDef.ofClass ⟨30⟩ (some .object) with
    methods := [⟨⟨0⟩, ⟨30⟩, ⟨⟨1⟩, ⟨0⟩⟩, .privateFlag, none⟩] }

/-- A view of this class and of a class that extends it. -/
def belowReserved : View :=
  .ofStore .fresh ((ClassStore.empty.put reserved).put (ClassDef.ofClass ⟨31⟩ (some ⟨30⟩))) 20

/-- The private method is found and refused, since the reference names the class below. -/
theorem resolveOnClass_belowReserved :
    belowReserved.Coherent ∧ belowReserved.bound < maxLinks ∧
    belowReserved.isArray ⟨31⟩ = false ∧
    (belowReserved.resolveOnClass ⟨31⟩ ⟨⟨1⟩, ⟨0⟩⟩).value =
      .ok (.illegalAccess ⟨⟨0⟩, ⟨30⟩, ⟨⟨1⟩, ⟨0⟩⟩, .privateFlag, none⟩) := by
  have hcoherent : belowReserved.Coherent := coherent_ofStore _ _ _
  have hbound : belowReserved.bound < maxLinks := by decide
  have harray : belowReserved.isArray ⟨31⟩ = false := by decide +kernel
  have hpolymorphic : ∀ c ∈ [ClassDef.ofClass ⟨31⟩ (some ⟨30⟩), reserved],
      belowReserved.polymorphic? c ⟨1⟩ = none := by decide +kernel
  have hmatch := (resolveOnClass_eq hcoherent hbound harray
    (c := ClassDef.ofClass ⟨31⟩ (some ⟨30⟩)) rfl rfl ⟨⟨1⟩, ⟨0⟩⟩).1
      [ClassDef.ofClass ⟨31⟩ (some ⟨30⟩)] reserved [] (by decide) ?_
  · have hnamed := polymorphic?_eq_none_iff.1 (hpolymorphic reserved (by simp))
    exact ⟨hcoherent, hbound, harray, (hmatch.2 _ hnamed rfl).1 ⟨by decide, by decide⟩⟩
  · intro e he
    obtain rfl := List.mem_singleton.1 he
    exact ⟨polymorphic?_eq_none_iff.1 (hpolymorphic _ List.mem_cons_self), rfl⟩

end View

end Linkage
