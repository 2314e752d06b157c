import Linkage.Options.Reader
import Linkage.Proofs.ClassResolution
import Linkage.Query

/-!
# Counting Superclass Links

The climb along a superclass chain is cut off by the number of links that it has followed, and so it
looks at one class more than there are links to follow, on any hierarchy. The number is kept in 32
bits and is raised before it is compared with the bound. That is one too many where the bound is the
largest number of 32 bits: a chain that goes on that long, which only one that comes back to itself
does, makes the count overflow, and the climb is not cut off but breaks off.

This is the only way for it to break off, and the climb is the only walk that ever does.

## Main results

* `reads_climb_prefix`: the climb looks at the classes of the chain, in order.
* `climb_within_bound`: how many there are, what the climb finds, and when the count overflows.
* `run_ok_of_bound_lt`: under a smaller bound no query breaks off.
-/

namespace Linkage

namespace View

variable {v : View} {sig : MethodSig} {holder : TypeId} {c : ClassDef}

/-! ### The classes that the climb looks at -/

/-- **The climb reads the tables of the chain**, one after the other, of as many classes as there
are links left and of the one where it is. -/
theorem reads_climb_prefix (v : View) (sig : MethodSig) (holder : TypeId) (c : ClassDef)
    (links : Nat) :
    (v.climb sig holder c links).reads <+:
      (c :: v.superclasses (v.bound - links) c.superType).map ClassDef.type := by
  have hself (ts : List TypeId) : [c.type] <+: c.type :: ts :=
    List.cons_prefix_cons.2 ⟨rfl, List.nil_prefix⟩
  rw [List.map_cons]
  cases hp : v.polymorphic? c sig.name with
  | some m =>
      rw [climb_polymorphic hp]
      exact List.nil_prefix
  | none =>
      cases hm : (v.table c.type).method? sig with
      | some m =>
          rw [climb_declares hp hm]
          exact hself _
      | none =>
          cases hs : c.superType.bind v.definition with
          | none =>
              rw [climb_top hp hm hs]
              exact hself _
          | some d =>
              by_cases hl : links < v.bound
              · obtain ⟨k, hk⟩ : ∃ k, v.bound - links = k + 1 := ⟨v.bound - links - 1, by omega⟩
                have hrest := reads_climb_prefix v sig holder d (links + 1)
                rw [show v.bound - (links + 1) = k by omega] at hrest
                rw [climb_super hp hm hs hl, Walk.reads_bind, Walk.reads_read, hk,
                  superclasses_succ hs]
                exact List.cons_prefix_cons.2 ⟨rfl, hrest⟩
              · by_cases hcount : links = maxLinks
                · rw [hcount, climb_overflow hp hm hs]
                  exact hself _
                · rw [climb_cut hp hm hs (Nat.not_lt.1 hl) hcount]
                  exact hself _
termination_by v.bound - links

/-! ### When the count overflows -/

/-- **When a climb breaks off**: the bound is the largest number that can be counted, nothing is
found on any class within the bound, and the chain goes on beyond it. -/
def CountOverflows (v : View) (sig : MethodSig) (holder : TypeId) (c : ClassDef) : Prop :=
  v.bound = maxLinks ∧
    (∀ d ∈ c :: v.superclasses v.bound c.superType, v.findAt? holder sig d = none) ∧
    (v.superclasses (v.bound + 1) c.superType).length = v.bound + 1

/-- A climb breaks off exactly where the count overflows. -/
theorem value_climb_eq_error_iff {fault : WalkFault} :
    (v.climb sig holder c 0).value = .error fault ↔ v.CountOverflows sig holder c := by
  have hmax := v.bound_le_maxLinks
  have hlength := v.length_superclasses_le (v.bound + 1) c.superType
  cases fault
  rw [value_climb_eq v sig holder c (Nat.zero_le _), Nat.sub_zero, Nat.sub_zero, Nat.zero_add,
    CountOverflows, ← List.findSome?_eq_none_iff]
  cases (c :: v.superclasses v.bound c.superType).findSome? (v.findAt? holder sig) with
  | some r => simp
  | none =>
      by_cases hover : maxLinks < (v.superclasses (v.bound + 1) c.superType).length
      · simp only [if_pos hover, true_and, true_iff]
        omega
      · simp only [if_neg hover, reduceCtorEq, true_and, false_iff]
        omega

/-- **The climb stays within its bound**, on every hierarchy. The chain that it follows from a class
has at most one class more than links may be followed, and the climb reads the tables of these
classes in order. It ends, and returns the first that there is to find on them, or nothing if there
is nothing, unless the count overflows; and that it does under no bound but the largest. -/
theorem climb_within_bound (v : View) (sig : MethodSig) (holder : TypeId) (c : ClassDef) :
    (c :: v.superclasses v.bound c.superType).length ≤ v.bound + 1 ∧
    (v.climb sig holder c 0).reads <+:
      (c :: v.superclasses v.bound c.superType).map ClassDef.type ∧
    ((v.climb sig holder c 0).value =
        .ok ((c :: v.superclasses v.bound c.superType).findSome? (v.findAt? holder sig)) ↔
      ¬ v.CountOverflows sig holder c) ∧
    ((v.climb sig holder c 0).value = .error .linkOverflow ↔ v.CountOverflows sig holder c) := by
  have herror := @value_climb_eq_error_iff v sig holder c .linkOverflow
  refine ⟨?_, reads_climb_prefix v sig holder c 0, ?_, herror⟩
  · rw [List.length_cons]
    exact Nat.succ_le_succ (v.length_superclasses_le v.bound c.superType)
  · rw [← herror, value_climb_eq v sig holder c (Nat.zero_le _), Nat.sub_zero]
    cases (c :: v.superclasses v.bound c.superType).findSome? (v.findAt? holder sig) with
    | some r => simp
    | none =>
        dsimp only
        split <;> simp

/-! ### Queries that break off -/

/-- The classes where a climb for a signature breaks off. -/
def Overflows (v : View) (sig : MethodSig) : Prop := ∃ c, v.CountOverflows sig c.type c

variable {fault : WalkFault}

/-- A reference to a class breaks off if the climb from this class does. -/
theorem value_resolveOnClassDef_eq_error_iff :
    (v.resolveOnClassDef c sig).value = .error fault ↔ v.CountOverflows sig c.type c := by
  have hiff := @value_climb_eq_error_iff v sig c.type c fault
  rw [← hiff, resolveOnClassDef, Walk.value_bind]
  cases (v.climb sig c.type c 0).value with
  | error e => simp
  | ok r? => cases r? <;> simp

/-- A reference to a defined class breaks off only where a count overflows. -/
theorem overflows_of_resolveOnClassDef (h : (v.resolveOnClassDef c sig).value = .error fault) :
    v.Overflows sig :=
  ⟨c, value_resolveOnClassDef_eq_error_iff.1 h⟩

/-- A reference to a type that is not an array breaks off only where a count overflows. -/
theorem overflows_of_resolveOnPlainClass
    (h : (v.resolveOnPlainClass holder sig).value = .error fault) : v.Overflows sig := by
  rw [resolveOnPlainClass] at h
  split at h
  · cases h
  · split at h
    · cases h
    · exact overflows_of_resolveOnClassDef h

/-- A reference to an array type breaks off only where a count overflows. -/
theorem overflows_of_resolveOnArray (h : (v.resolveOnArray sig).value = .error fault) :
    v.Overflows sig := by
  rw [resolveOnArray] at h
  split at h
  · cases h
  · exact overflows_of_resolveOnPlainClass h

/-- A class reference breaks off only where a count overflows. -/
theorem overflows_of_resolveOnClass (h : (v.resolveOnClass holder sig).value = .error fault) :
    v.Overflows sig := by
  rw [resolveOnClass] at h
  split at h
  · exact overflows_of_resolveOnArray h
  · exact overflows_of_resolveOnPlainClass h

/-- References to interfaces are resolved without a climb. -/
theorem resolveOnInterface_ne_error (v : View) (holder : TypeId) (sig : MethodSig) :
    (v.resolveOnInterface holder sig).value ≠ .error fault := by
  intro h
  rw [resolveOnInterface] at h
  split at h
  · cases h
  · split at h
    · cases h
    · split at h <;> cases h

/-- A reference that follows the definition breaks off only where a count overflows. -/
theorem overflows_of_resolveStructural
    (h : (v.resolveStructural holder sig).value = .error fault) : v.Overflows sig := by
  rw [resolveStructural] at h
  split at h
  · exact overflows_of_resolveOnArray h
  · split at h
    · cases h
    · split at h
      · cases h
      · exact overflows_of_resolveOnClassDef h

/-- **The climb is the only walk that breaks off**: a query does so only where the count of a climb
for its signature overflows. -/
theorem overflows_of_run {q : Query} (h : (q.run v).value = .error fault) :
    ∃ sig, q.sig? = some sig ∧ v.Overflows sig := by
  have herror {w : Walk (Except WalkFault Resolution)}
      (hw : (Answer.ofResolution <$> w).value = .error fault) : w.value = .error fault := by
    rw [Walk.value_map] at hw
    cases hvalue : w.value with
    | error e => rfl  -- there is only one fault
    | ok r =>
        rw [hvalue] at hw
        cases hw
  cases q with
  | resolveOnClass holder sig => exact ⟨sig, rfl, overflows_of_resolveOnClass (herror h)⟩
  | resolveOnInterface holder sig =>
      exact absurd (herror h) (resolveOnInterface_ne_error v holder sig)
  | resolve holder sig isInterface =>
      have hvalue := herror h
      rw [View.resolve] at hvalue
      split at hvalue
      · exact absurd hvalue (resolveOnInterface_ne_error v holder sig)
      · exact ⟨sig, rfl, overflows_of_resolveOnClass hvalue⟩
  | resolveStructural holder sig => exact ⟨sig, rfl, overflows_of_resolveStructural (herror h)⟩
  | _ => cases h

/-- Under a bound that is not the largest every query ends. -/
theorem run_ok_of_bound_lt (hbound : v.bound < maxLinks) (q : Query) :
    ∃ a, (q.run v).value = .ok a := by
  cases hvalue : (q.run v).value with
  | ok a => exact ⟨a, rfl⟩
  | error fault =>
      obtain ⟨sig, -, c, hoverflow⟩ := overflows_of_run hvalue
      exact absurd hoverflow.1 (Nat.ne_of_lt hbound)

/-! ### A class that extends itself -/

/-- **A class that extends itself.** -/
structure Loops (v : View) (c : ClassDef) : Prop where
  defined : v.definition c.type = some c
  superType : c.superType = some c.type

namespace Loops

/-- Its chain goes on as long as it is followed. -/
theorem length_superclasses (h : v.Loops c) (n : Nat) :
    (v.superclasses n (some c.type)).length = n := by
  induction n with
  | zero => rfl
  | succ n ih =>
      rw [superclasses_succ (s := some c.type) h.defined, List.length_cons, h.superType, ih]

/-- Its chain consists of this one class. -/
theorem eq_of_mem_superclasses (h : v.Loops c) {n : Nat} {d : ClassDef}
    (hd : d ∈ v.superclasses n (some c.type)) : d = c := by
  induction n with
  | zero => cases hd
  | succ n ih =>
      rw [superclasses_succ (s := some c.type) h.defined, h.superType] at hd
      exact (List.mem_cons.1 hd).elim id ih

/-- Under the largest bound the count overflows, unless the class has what is looked for. -/
theorem countOverflows (h : v.Loops c) (hbound : v.bound = maxLinks)
    (hnone : v.findAt? holder sig c = none) : v.CountOverflows sig holder c := by
  refine ⟨hbound, fun d hd => ?_, ?_⟩
  · rw [h.superType] at hd
    rcases List.mem_cons.1 hd with rfl | hd
    · exact hnone
    · rw [h.eq_of_mem_superclasses hd, hnone]
  · rw [h.superType, h.length_superclasses]

end Loops

/-- A class without members that extends itself. -/
def ownSuperclass : ClassDef := .ofClass ⟨80⟩ (some ⟨80⟩)

/-- A view of this class, with the largest bound. -/
def boundless : View := .ofStore .fresh (ClassStore.empty.put ownSuperclass) 4294967295

/-- The bound can be set, and no class within it has the method that is looked for: the count
overflows, and a reference to the class is not resolved at all. -/
theorem resolveOnClass_boundless :
    Options.ofString "\x7b\"maxHierarchyDepth\": 4294967295\x7d" =
      .ok { maxDepth := 4294967295 } ∧ boundless.maxDepth = 4294967295 ∧
    boundless.Coherent ∧ boundless.definition ⟨80⟩ = some ownSuperclass ∧
    (boundless.climb ⟨⟨1⟩, ⟨0⟩⟩ ⟨80⟩ ownSuperclass 0).value = .error .linkOverflow ∧
    (boundless.resolveOnClass ⟨80⟩ ⟨⟨1⟩, ⟨0⟩⟩).value = .error .linkOverflow := by
  have hloops : boundless.Loops ownSuperclass := ⟨rfl, rfl⟩
  have hoverflow : boundless.CountOverflows ⟨⟨1⟩, ⟨0⟩⟩ ⟨80⟩ ownSuperclass :=
    hloops.countOverflows (by decide) (by decide +kernel)
  have harray : boundless.isArray ⟨80⟩ = false := by decide +kernel
  refine ⟨by decide +kernel, rfl, coherent_ofStore _ _ _, rfl,
    value_climb_eq_error_iff.2 hoverflow, ?_⟩
  rw [resolveOnClass, if_neg (by simp [harray])]
  exact value_resolveOnClassDef_eq_error_iff.2 hoverflow

end View

end Linkage
