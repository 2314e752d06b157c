import Linkage.ClassDef
import Linkage.OrderedMap

/-!
# Class Stores

Class definitions by type. A definition is always stored under its own type.

## Main results

* `type_eq_of_get?`: what is found under a type is a definition of this type.
* `get?_put`, `get?_erase`: what a look-up finds after a change.
-/

namespace Linkage

/-- Class definitions, each under its own type. -/
structure ClassStore where
  classes : OrderedMap TypeId ClassDef
  coherent : ∀ t c, classes.get? t = some c → c.type = t := by simp

namespace ClassStore

/-- The store without classes. -/
def empty : ClassStore where
  classes := .empty

instance : Inhabited ClassStore := ⟨empty⟩

/-- The definition of a type. -/
def get? (s : ClassStore) (t : TypeId) : Option ClassDef := s.classes.get? t

/-- Whether a type has a definition. -/
def contains (s : ClassStore) (t : TypeId) : Bool := s.classes.contains t

/-- The number of definitions. -/
def size (s : ClassStore) : Nat := s.classes.size

/-- Publishes a definition in place of what its type had before. -/
def put (s : ClassStore) (c : ClassDef) : ClassStore where
  classes := s.classes.insert c.type c
  coherent t d h := by
    rw [OrderedMap.get?_insert] at h
    split at h
    · next ht =>
      rw [← Option.some.inj h]
      exact ht
    · exact s.coherent t d h

/-- Takes the definition of a type away. -/
def erase (s : ClassStore) (t : TypeId) : ClassStore where
  classes := s.classes.erase t
  coherent u d h := by
    rw [OrderedMap.get?_erase] at h
    split at h
    · simp at h
    · exact s.coherent u d h

/-- Adds a definition for a type that has none; otherwise there is no store to return. -/
def insert? (s : ClassStore) (c : ClassDef) : Option ClassStore :=
  if s.contains c.type then none else some (s.put c)

/-- The definitions in the order of their types' numbers. -/
def listing (s : ClassStore) : List ClassDef :=
  s.classes.values.mergeSort fun c d => c.type.val ≤ d.type.val

/-! ### What a look-up finds -/

/-- An empty store defines nothing. -/
@[simp] theorem get?_empty (t : TypeId) : empty.get? t = none := rfl

/-- Classes are stored under their own types. -/
theorem type_eq_of_get? {s : ClassStore} {t : TypeId} {c : ClassDef} (h : s.get? t = some c) :
    c.type = t :=
  s.coherent t c h

/-- A class that is stored takes the place of the one that its type had. -/
theorem get?_put (s : ClassStore) (c : ClassDef) (t : TypeId) :
    (s.put c).get? t = if c.type = t then some c else s.get? t :=
  s.classes.get?_insert c.type t c

/-- A store of two classes has no other definitions. -/
theorem eq_of_get?_put_put {c d e : ClassDef} {t : TypeId}
    (h : ((empty.put c).put d).get? t = some e) : t = c.type ∧ e = c ∨ t = d.type ∧ e = d := by
  rw [get?_put, get?_put] at h
  split at h
  · next ht => exact .inr ⟨ht.symm, (Option.some.inj h).symm⟩
  · split at h
    · next ht => exact .inl ⟨ht.symm, (Option.some.inj h).symm⟩
    · simp at h

/-- Without the class of a type, the others are as they were. -/
theorem get?_erase (s : ClassStore) (t u : TypeId) :
    (s.erase t).get? u = if t = u then none else s.get? u :=
  s.classes.get?_erase t u

/-- A type is defined if its class is found. -/
theorem contains_eq (s : ClassStore) (t : TypeId) : s.contains t = (s.get? t).isSome := rfl

/-- A class can be added exactly when its type has no definition yet. -/
theorem insert?_eq_none_iff {s : ClassStore} {c : ClassDef} :
    s.insert? c = none ↔ s.contains c.type = true := by
  rw [insert?]
  split <;> simp_all

/-- Every type with a definition is among the keys. -/
theorem mem_keys_of_get? {s : ClassStore} {t : TypeId} {c : ClassDef} (h : s.get? t = some c) :
    t ∈ s.classes.keys := by
  rw [← OrderedMap.contains_iff_mem_keys, OrderedMap.contains]
  rw [get?] at h
  rw [h]
  rfl

end ClassStore

end Linkage
