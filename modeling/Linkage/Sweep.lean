import Linkage.View

/-!
# Sweeping the Superinterfaces

The search for the interfaces that declare a method, below which it stops, and above which it
goes on. A sweep works off a list of what is pending, first in, first out of the front: an
interface to look at, or a superclass whose interfaces come next. An interface that declares the
method for its heirs ends the search upwards from there. One that does not is expanded, that is,
its own superinterfaces and superclasses are put in front of what is pending; but only the first
time it is met.

Superclasses are entered up to the view's depth bound, and each expansion counts its superclass
links from zero again.

A sweep returns everything it sees, in order. What it reads, what it warns of and which
interfaces it expands can all be read off that list.

## Main definitions

* `sweep`: the search.
* `Sight`: what it sees.
-/

namespace Linkage

/-- What a sweep has yet to look at: an interface, or a superclass that `links` links lead to. -/
inductive Pending
  | interface (t : TypeId)
  | superclass (t : TypeId) (links : Nat)
deriving DecidableEq, Repr

/-- What a sweep sees: an interface that declares the method for its heirs, one that is expanded,
one that was expanded before, or a superclass beyond the depth bound. -/
inductive Sight
  | declares (t : TypeId) (c : ClassDef) (m : Method)
  | expands (t : TypeId)
  | passes (t : TypeId)
  | cut (t : TypeId)
deriving Repr

namespace Sight

/-- The interface whose table was read. -/
def read? : Sight → Option TypeId
  | .declares t _ _ => some t
  | .expands t => some t
  | .passes t => some t
  | .cut _ => none

/-- The interface that was expanded. -/
def expanded? : Sight → Option TypeId
  | .expands t => some t
  | _ => none

/-- The definition and the method that were found. -/
def declared? : Sight → Option (ClassDef × Method)
  | .declares _ c m => some (c, m)
  | _ => none

/-- The superclass that was not entered. -/
def cut? : Sight → Option TypeId
  | .cut t => some t
  | _ => none

end Sight

namespace ClassDef

/-- What a sweep goes on with above a class: its interfaces in order, then its superclass, to
which `links` links lead. -/
def ahead (c : ClassDef) (links : Nat) : List Pending :=
  c.interfaces.map .interface ++ (c.superType.map (.superclass · links)).toList

end ClassDef

namespace Pending

/-- What holds of interfaces and of a superclass holds of all that is pending there. -/
theorem forall_mem_iff {P : Pending → Prop} {superType : Option TypeId} {interfaces : List TypeId}
    {links : Nat} :
    (∀ p ∈ interfaces.map .interface ++ (superType.map (.superclass · links)).toList, P p) ↔
      (∀ i ∈ interfaces, P (.interface i)) ∧ ∀ s, superType = some s → P (.superclass s links) := by
  rw [List.forall_mem_append, List.forall_mem_map]
  cases superType <;> simp

end Pending

namespace View

/-- The links that pending superclasses may still be followed by. -/
def linksLeft (v : View) : List Pending → Nat
  | [] => 0
  | .interface _ :: rest => v.linksLeft rest
  | .superclass _ links :: rest => v.bound - links + v.linksLeft rest

/-- With nothing pending no links are left. -/
@[simp] theorem linksLeft_nil (v : View) : v.linksLeft [] = 0 := rfl

/-- An interface has no links to follow. -/
@[simp] theorem linksLeft_interface (v : View) (t : TypeId) (rest : List Pending) :
    v.linksLeft (.interface t :: rest) = v.linksLeft rest := rfl

/-- A superclass has those up to the bound. -/
@[simp] theorem linksLeft_superclass (v : View) (t : TypeId) (links : Nat)
    (rest : List Pending) :
    v.linksLeft (.superclass t links :: rest) = v.bound - links + v.linksLeft rest := rfl

/-- What is pending has its links one after the other. -/
@[simp] theorem linksLeft_append (v : View) (ps qs : List Pending) :
    v.linksLeft (ps ++ qs) = v.linksLeft ps + v.linksLeft qs := by
  induction ps with
  | nil => simp
  | cons p ps ih => cases p <;> simp [ih, Nat.add_assoc]

/-- Interfaces have no links to follow. -/
@[simp] theorem linksLeft_interfaces (v : View) (ts : List TypeId) :
    v.linksLeft (ts.map .interface) = 0 := by
  induction ts with
  | nil => rfl
  | cons t ts ih => exact ih

/-- A superclass, if there is one, has no more than those up to the bound. -/
theorem linksLeft_superType_le (v : View) (s : Option TypeId) (links : Nat) :
    v.linksLeft (s.map (Pending.superclass · links)).toList ≤ v.bound - links := by
  cases s <;> simp

/-- What is ahead of a class has no more either. -/
theorem linksLeft_ahead_le (v : View) (c : ClassDef) (links : Nat) :
    v.linksLeft (c.ahead links) ≤ v.bound - links := by
  rw [ClassDef.ahead, linksLeft_append, linksLeft_interfaces, Nat.zero_add]
  exact v.linksLeft_superType_le c.superType links

/-- The method that an interface declares for its heirs. -/
def heritable (v : View) (t : TypeId) (sig : MethodSig) : Option Method :=
  ((v.table t).method? sig).filter Method.isInheritable

/-- Looks at what is pending, and then at what comes up on the way. The interfaces in `seen` are
not expanded again.

Every step expands an interface for the first time, or follows a superclass link of the bounded
number, or leaves fewer things pending. -/
def sweep (v : View) (sig : MethodSig) (seen : List TypeId) : List Pending → List Sight
  | [] => []
  | .interface t :: rest =>
    match hc : v.definition t with
    | none => v.sweep sig seen rest
    | some c =>
      match v.heritable t sig with
      | some m => .declares t c m :: v.sweep sig seen rest
      | none =>
        if ht : t ∈ seen then .passes t :: v.sweep sig seen rest
        else
          have := View.outside_cons_lt hc ht
          .expands t :: v.sweep sig (t :: seen) (c.ahead 0 ++ rest)
  | .superclass t links :: rest =>
    if _ : v.bound ≤ links then .cut t :: v.sweep sig seen rest
    else
      match v.definition t with
      | none => v.sweep sig seen rest
      | some c => v.sweep sig seen (c.ahead (links + 1) ++ rest)
termination_by pending => (v.outside seen, v.linksLeft pending, pending.length)
decreasing_by
  · rw [linksLeft_interface]
    exact .right _ (.right _ (Nat.lt_succ_self _))
  · rw [linksLeft_interface]
    exact .right _ (.right _ (Nat.lt_succ_self _))
  · rw [linksLeft_interface]
    exact .right _ (.right _ (Nat.lt_succ_self _))
  · exact .left _ _ this
  · rw [linksLeft_superclass, Nat.sub_eq_zero_of_le ‹v.bound ≤ links›, Nat.zero_add]
    exact .right _ (.right _ (Nat.lt_succ_self _))
  · refine .right _ (.left _ _ ?_)
    rw [linksLeft_superclass]
    omega
  · refine .right _ (.left _ _ ?_)
    have hahead := v.linksLeft_ahead_le c (links + 1)
    rw [linksLeft_superclass, linksLeft_append]
    omega

/-! ### What a sweep sees -/

/-- With nothing pending nothing is seen. -/
@[simp] theorem sweep_nil (v : View) (sig : MethodSig) (seen : List TypeId) :
    v.sweep sig seen [] = [] := by
  rw [sweep]

/-- An interface that is not defined is ignored. -/
theorem sweep_interface_undefined {v : View} {t : TypeId} (hc : v.definition t = none)
    (sig : MethodSig) (seen : List TypeId) (rest : List Pending) :
    v.sweep sig seen (.interface t :: rest) = v.sweep sig seen rest := by
  rw [sweep]
  split
  · rfl
  · simp_all

/-- An interface that declares the method ends the search above it. -/
theorem sweep_interface_declares {v : View} {t : TypeId} {c : ClassDef} {sig : MethodSig}
    {m : Method} (hc : v.definition t = some c) (hm : v.heritable t sig = some m)
    (seen : List TypeId) (rest : List Pending) :
    v.sweep sig seen (.interface t :: rest) = .declares t c m :: v.sweep sig seen rest := by
  rw [sweep]
  split
  · simp_all
  · simp_all

/-- An interface that does not declare the method is expanded when it is met first. -/
theorem sweep_interface_expands {v : View} {t : TypeId} {c : ClassDef} {sig : MethodSig}
    (hc : v.definition t = some c) (hm : v.heritable t sig = none) {seen : List TypeId}
    (ht : t ∉ seen) (rest : List Pending) :
    v.sweep sig seen (.interface t :: rest) =
      .expands t :: v.sweep sig (t :: seen) (c.ahead 0 ++ rest) := by
  rw [sweep]
  split
  · simp_all
  · simp_all

/-- An interface that was expanded before is passed by. -/
theorem sweep_interface_passes {v : View} {t : TypeId} {c : ClassDef} {sig : MethodSig}
    (hc : v.definition t = some c) (hm : v.heritable t sig = none) {seen : List TypeId}
    (ht : t ∈ seen) (rest : List Pending) :
    v.sweep sig seen (.interface t :: rest) = .passes t :: v.sweep sig seen rest := by
  rw [sweep]
  split
  · simp_all
  · simp_all

/-- A superclass beyond the bound is not entered. -/
theorem sweep_superclass_cut {v : View} {links : Nat} (hl : v.bound ≤ links) (t : TypeId)
    (sig : MethodSig) (seen : List TypeId) (rest : List Pending) :
    v.sweep sig seen (.superclass t links :: rest) = .cut t :: v.sweep sig seen rest := by
  rw [sweep, dif_pos hl]

/-- A superclass that is not defined ends its chain. -/
theorem sweep_superclass_undefined {v : View} {t : TypeId} {links : Nat}
    (hl : links < v.bound) (hc : v.definition t = none) (sig : MethodSig)
    (seen : List TypeId) (rest : List Pending) :
    v.sweep sig seen (.superclass t links :: rest) = v.sweep sig seen rest := by
  rw [sweep, dif_neg (Nat.not_le.2 hl), hc]

/-- Above a superclass come its interfaces and its own superclass, one link further. -/
theorem sweep_superclass_enters {v : View} {t : TypeId} {c : ClassDef} {links : Nat}
    (hl : links < v.bound) (hc : v.definition t = some c) (sig : MethodSig)
    (seen : List TypeId) (rest : List Pending) :
    v.sweep sig seen (.superclass t links :: rest) =
      v.sweep sig seen (c.ahead (links + 1) ++ rest) := by
  rw [sweep, dif_neg (Nat.not_le.2 hl), hc]

end View

end Linkage
