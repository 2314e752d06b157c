import Linkage.View

/-!
# Field Resolution

What a field reference means in a hierarchy, by the rules of JVMS §5.4.3.2: the type's own field
comes first, then what its direct superinterfaces offer, in order, then what its superclass
offers. The first field found wins.

The search goes at most as many links deep as the view allows, and it enters no type twice.

## Main definitions

* `View.searchField`: the search.
* `View.resolveField`: the field that a reference means.
-/

namespace Linkage

namespace ClassDef

/-- The direct supertypes in the order in which fields are looked for. -/
def supertypes (c : ClassDef) : List TypeId := c.interfaces ++ c.superType.toList

end ClassDef

namespace View

/-- Looks for a field in what is pending: types, each with the number of links that lead there.
The types in `searched` are not entered again. A type beyond the bound is refused with a warning,
whether it was searched or not. -/
def searchField (v : View) (sig : FieldSig) (searched : List TypeId) :
    List (TypeId × Nat) → Walk (Option Field)
  | [] => pure none
  | (t, depth) :: rest =>
    if v.bound < depth then do
      Walk.warn ⟨.fieldSearch, t, v.maxDepth⟩
      v.searchField sig searched rest
    else if ht : t ∈ searched then v.searchField sig searched rest
    else
      match hc : v.definition t with
      | none => v.searchField sig (t :: searched) rest
      | some c => do
        match ← v.readField t sig with
        | some f => return some f
        | none =>
          have := View.outside_cons_lt hc ht
          v.searchField sig (t :: searched) (c.supertypes.map (·, depth + 1) ++ rest)
termination_by pending => (v.outside searched, pending.length)
decreasing_by
  · exact .right _ (Nat.lt_succ_self _)
  · exact .right _ (Nat.lt_succ_self _)
  · rcases Nat.lt_or_eq_of_le (v.outside_cons_le t searched) with hlt | heq
    · exact .left _ _ hlt
    · rw [heq]
      exact .right _ (Nat.lt_succ_self _)
  · exact .left _ _ this

/-- The field that a reference to a type means. -/
def resolveField (v : View) (holder : TypeId) (sig : FieldSig) : Walk (Option Field) :=
  v.searchField sig [] [(holder, 0)]

/-! ### The search, type by type -/

/-- With no types left, nothing is found. -/
@[simp] theorem searchField_nil (v : View) (sig : FieldSig) (searched : List TypeId) :
    v.searchField sig searched [] = pure none := by
  rw [searchField]

/-- A type beyond the bound is refused. -/
theorem searchField_cut {v : View} {depth : Nat} (hd : v.bound < depth) (t : TypeId)
    (sig : FieldSig) (searched : List TypeId) (rest : List (TypeId × Nat)) :
    v.searchField sig searched ((t, depth) :: rest) = (do
      Walk.warn ⟨.fieldSearch, t, v.maxDepth⟩
      v.searchField sig searched rest) := by
  rw [searchField, if_pos hd]

/-- A type that was searched is not entered again. -/
theorem searchField_searched {v : View} {depth : Nat} (hd : depth ≤ v.bound) {t : TypeId}
    {searched : List TypeId} (ht : t ∈ searched) (sig : FieldSig)
    (rest : List (TypeId × Nat)) :
    v.searchField sig searched ((t, depth) :: rest) = v.searchField sig searched rest := by
  rw [searchField, if_neg (Nat.not_lt.2 hd), dif_pos ht]

/-- A type without a definition has no fields. -/
theorem searchField_undefined {v : View} {depth : Nat} (hd : depth ≤ v.bound) {t : TypeId}
    {searched : List TypeId} (ht : t ∉ searched) (hc : v.definition t = none) (sig : FieldSig)
    (rest : List (TypeId × Nat)) :
    v.searchField sig searched ((t, depth) :: rest) =
      v.searchField sig (t :: searched) rest := by
  rw [searchField, if_neg (Nat.not_lt.2 hd), dif_neg ht]
  split
  · rfl
  · simp_all

/-- The field that a type declares ends the search. -/
theorem searchField_declares {v : View} {depth : Nat} (hd : depth ≤ v.bound) {t : TypeId}
    {searched : List TypeId} (ht : t ∉ searched) {c : ClassDef} (hc : v.definition t = some c)
    {sig : FieldSig} {f : Field} (hf : (v.table t).field? sig = some f)
    (rest : List (TypeId × Nat)) :
    v.searchField sig searched ((t, depth) :: rest) = do
      Walk.read t
      return some f := by
  rw [searchField, if_neg (Nat.not_lt.2 hd), dif_neg ht]
  split
  · simp_all
  · simp only [readField, hf, bind_assoc, pure_bind]

/-- A type that does not declare the field gives way to its supertypes. -/
theorem searchField_expands {v : View} {depth : Nat} (hd : depth ≤ v.bound) {t : TypeId}
    {searched : List TypeId} (ht : t ∉ searched) {c : ClassDef} (hc : v.definition t = some c)
    {sig : FieldSig} (hf : (v.table t).field? sig = none) (rest : List (TypeId × Nat)) :
    v.searchField sig searched ((t, depth) :: rest) = (do
      Walk.read t
      v.searchField sig (t :: searched) (c.supertypes.map (·, depth + 1) ++ rest)) := by
  rw [searchField, if_neg (Nat.not_lt.2 hd), dif_neg ht]
  split
  · simp_all
  · next d hd' =>
    obtain rfl : d = c := Option.some.inj (hd'.symm.trans hc)
    simp only [readField, hf, bind_assoc, pure_bind]

end View

end Linkage
