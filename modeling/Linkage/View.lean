import Linkage.ClassStore
import Linkage.MemberTable
import Linkage.TypeTable
import Linkage.Walk

/-!
# Views of a Hierarchy

What resolution needs to know: which class a type is defined by, which members it declares, and
how far a walk may go. A view does not promise that its parts fit together, and a hierarchy does
not promise to be one: types may be missing, and the links between them may form cycles. Only
finitely many types are defined, which is what lets the walks end.

## Main definitions

* `View`: definitions and member tables by type, and a depth bound.
* `View.Coherent`: every definition is one of its own type, and every table is the definition's.
* `View.ofStore`: the view of a class store as it stands.
-/

namespace Linkage

/-- Definitions and member tables by type, and the number of links that a walk may follow. -/
structure View where
  types : TypeTable
  definition : TypeId → Option ClassDef
  table : TypeId → MemberTable
  maxDepth : UInt32
  domain : List TypeId
  mem_domain : ∀ {t : TypeId} {c : ClassDef}, definition t = some c → t ∈ domain

namespace View

/-- The number of links that a walk may follow. -/
def bound (v : View) : Nat := v.maxDepth.toNat

/-- Every definition is one of the type it is found under. -/
def Typed (v : View) : Prop :=
  ∀ {t : TypeId} {c : ClassDef}, v.definition t = some c → c.type = t

/-- Every definition is one of the type it is found under, and every table is built from the
definition of its type. -/
structure Coherent (v : View) : Prop where
  typed : v.Typed
  table_eq : ∀ t, v.table t = MemberTable.ofDefinition? (v.definition t)

/-- The view of a store as it stands, with tables built when they are read. -/
def ofStore (types : TypeTable) (store : ClassStore) (maxDepth : UInt32) : View where
  types := types
  definition := store.get?
  table t := MemberTable.ofDefinition? (store.get? t)
  maxDepth := maxDepth
  domain := store.classes.keys
  mem_domain := ClassStore.mem_keys_of_get?

/-- The tables of a store are those of its definitions, found under their own types. -/
theorem coherent_ofStore (types : TypeTable) (store : ClassStore) (maxDepth : UInt32) :
    (ofStore types store maxDepth).Coherent where
  typed := ClassStore.type_eq_of_get?
  table_eq _ := rfl

/-- The types that resolution has to recognise. -/
def wellKnown (v : View) : WellKnown := v.types.wellKnown

/-- Whether a type is an array type. -/
def isArray (v : View) (t : TypeId) : Bool := v.types.isArray t

/-- Reads the method that a type declares with the given signature. -/
def readMethod (v : View) (t : TypeId) (sig : MethodSig) : Walk (Option Method) := do
  Walk.read t
  return (v.table t).method? sig

/-- Reads the field that a type declares with the given signature. -/
def readField (v : View) (t : TypeId) (sig : FieldSig) : Walk (Option Field) := do
  Walk.read t
  return (v.table t).field? sig

/-- The method that is read is the one in the table. -/
@[simp] theorem value_readMethod (v : View) (t : TypeId) (sig : MethodSig) :
    (v.readMethod t sig).value = (v.table t).method? sig := rfl

/-- A method is looked up by one read. -/
@[simp] theorem reads_readMethod (v : View) (t : TypeId) (sig : MethodSig) :
    (v.readMethod t sig).reads = [t] := rfl

/-- The look-up of a method gives no warning. -/
@[simp] theorem warnings_readMethod (v : View) (t : TypeId) (sig : MethodSig) :
    (v.readMethod t sig).warnings = [] := rfl

/-- The field that is read is the one in the table. -/
@[simp] theorem value_readField (v : View) (t : TypeId) (sig : FieldSig) :
    (v.readField t sig).value = (v.table t).field? sig := rfl

/-! ### The types a walk has not entered yet -/

/-- A list has more members of one kind than of another if all of the second kind are of the
first, and one of the first is not of the second. -/
theorem countP_lt_countP {p q : TypeId → Bool} {ts : List TypeId} {t : TypeId}
    (himp : ∀ u, p u = true → q u = true) (hmem : t ∈ ts) (hp : p t = false)
    (hq : q t = true) : ts.countP p < ts.countP q := by
  induction ts with
  | nil => simp at hmem
  | cons u ts ih =>
    have hle : ts.countP p ≤ ts.countP q := List.countP_mono_left fun w _ => himp w
    by_cases hu : u = t
    · subst hu
      rw [List.countP_cons_of_neg (by simp [hp]), List.countP_cons_of_pos hq]
      omega
    · have ih := ih (by simpa [Ne.symm hu] using hmem)
      by_cases hpu : p u = true
      · rw [List.countP_cons_of_pos hpu, List.countP_cons_of_pos (himp u hpu)]
        omega
      · have hcons : ts.countP q ≤ (u :: ts).countP q := by
          rw [List.countP_cons]
          omega
        rw [List.countP_cons_of_neg hpu]
        omega

/-- The number of types that may be defined and are not in a list. -/
def outside (v : View) (seen : List TypeId) : Nat := v.domain.countP fun t => t ∉ seen

/-- One type more that was seen leaves no more outside. -/
theorem outside_cons_le (v : View) (t : TypeId) (seen : List TypeId) :
    v.outside (t :: seen) ≤ v.outside seen := by
  apply List.countP_mono_left
  intro u _ hu
  simp only [List.mem_cons, not_or, decide_eq_true_eq] at hu ⊢
  exact hu.2

/-- Entering a defined type for the first time leaves fewer to enter. -/
theorem outside_cons_lt {v : View} {t : TypeId} {c : ClassDef} {seen : List TypeId}
    (hdef : v.definition t = some c) (hnew : t ∉ seen) :
    v.outside (t :: seen) < v.outside seen := by
  refine countP_lt_countP ?_ (v.mem_domain hdef) (by simp) (by simpa using hnew)
  intro u hu
  simp only [List.mem_cons, not_or, decide_eq_true_eq] at hu ⊢
  exact hu.2

end View

end Linkage
