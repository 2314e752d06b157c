import Linkage.Sweep

/-!
# Coherent Views

A member table holds of each signature the first member that its class declares, so in a coherent
view a look-up in a table is a look-up in the definition of the type. What is proved of coherent
views can therefore be said of definitions alone.

## Main results

* `MemberTable.get?_ofClass_method`, `MemberTable.get?_ofClass_field`: a table holds first
  declarations, methods and fields apart.
* `MemberTable.method?_ofClass`, `MemberTable.field?_ofClass`: the same of its look-ups.
* `Coherent.method?_table`, `Coherent.field?_table`, `Coherent.heritable_eq`: the same for the
  tables of a coherent view.
-/

namespace Linkage

namespace OrderedMap

/-- Storing a list of values under new keys only: what is found is what was there, or else the
first of the list with the key. -/
theorem get?_foldl_insertNew {α β κ : Type} [DecidableEq κ] (key : β → κ) (val : β → α)
    (xs : List β) (m : OrderedMap κ α) (k : κ) :
    (xs.foldl (fun m x => m.insertNew (key x) (val x)) m).get? k =
      (m.get? k).or ((xs.find? fun x => key x == k).map val) := by
  induction xs generalizing m with
  | nil => simp
  | cons x xs ih =>
      rw [List.foldl_cons, ih, get?_insertNew]
      by_cases hk : key x = k
      · rw [if_pos hk, List.find?_cons_of_pos (by simp [hk]), hk]
        cases m.get? k <;> rfl
      · rw [if_neg hk, List.find?_cons_of_neg (by simp [hk])]

end OrderedMap

namespace MemberTable

/-- What a table holds under a key: the first method that has it, or else the first field. -/
theorem get?_ofClass (c : ClassDef) (k : MemberKey) :
    (ofClass c).get? k =
      ((c.methods.find? fun m => .method m.sig == k).map Member.method).or
        ((c.fields.find? fun f => .field f.sig == k).map Member.field) := by
  rw [ofClass, OrderedMap.get?_foldl_insertNew (fun f : Field => MemberKey.field f.sig),
    OrderedMap.get?_foldl_insertNew (fun m : Method => MemberKey.method m.sig),
    OrderedMap.get?_empty, Option.none_or]

/-- Under the key of a method, a table holds the first method with the signature, -/
theorem get?_ofClass_method (c : ClassDef) (sig : MethodSig) :
    (ofClass c).get? (.method sig) = (c.method? sig).map .method := by
  have hfield : (c.fields.find? fun f => MemberKey.field f.sig == .method sig) = none := by
    rw [List.find?_eq_none]
    intro f _ h
    exact MemberKey.noConfusion (eq_of_beq h)
  have hmethod : (fun m : Method => MemberKey.method m.sig == .method sig) = (·.sig == sig) := by
    funext m
    rw [Bool.eq_iff_iff, beq_iff_eq, beq_iff_eq, MemberKey.method.injEq]
  rw [get?_ofClass, hfield, hmethod, ClassDef.method?, Option.map_none, Option.or_none]

/-- and under the key of a field the first field, whatever methods the class has. -/
theorem get?_ofClass_field (c : ClassDef) (sig : FieldSig) :
    (ofClass c).get? (.field sig) = (c.field? sig).map .field := by
  have hmethod : (c.methods.find? fun m => MemberKey.method m.sig == .field sig) = none := by
    rw [List.find?_eq_none]
    intro m _ h
    exact MemberKey.noConfusion (eq_of_beq h)
  have hfield : (fun f : Field => MemberKey.field f.sig == .field sig) = (·.sig == sig) := by
    funext f
    rw [Bool.eq_iff_iff, beq_iff_eq, beq_iff_eq, MemberKey.field.injEq]
  rw [get?_ofClass, hmethod, hfield, ClassDef.field?, Option.map_none, Option.none_or]

/-- **A table holds the first method of each signature.** -/
theorem method?_ofClass (c : ClassDef) (sig : MethodSig) :
    (ofClass c).method? sig = c.method? sig := by
  rw [method?, get?_ofClass_method]
  cases c.method? sig <;> rfl

/-- **A table holds the first field of each signature.** -/
theorem field?_ofClass (c : ClassDef) (sig : FieldSig) :
    (ofClass c).field? sig = c.field? sig := by
  rw [field?, get?_ofClass_field]
  cases c.field? sig <;> rfl

end MemberTable

namespace View.Coherent

variable {v : View}

/-- A method is found in a table if the type's definition declares it. -/
theorem method?_table (h : v.Coherent) (t : TypeId) (sig : MethodSig) :
    (v.table t).method? sig = (v.definition t).bind (·.method? sig) := by
  rw [h.table_eq]
  cases v.definition t with
  | none => rfl
  | some c => exact MemberTable.method?_ofClass c sig

/-- A field is found in a table if the type's definition declares it. -/
theorem field?_table (h : v.Coherent) (t : TypeId) (sig : FieldSig) :
    (v.table t).field? sig = (v.definition t).bind (·.field? sig) := by
  rw [h.table_eq]
  cases v.definition t with
  | none => rfl
  | some c => exact MemberTable.field?_ofClass c sig

/-- What a type declares for its heirs, by its definition. -/
theorem heritable_eq (h : v.Coherent) (t : TypeId) (sig : MethodSig) :
    v.heritable t sig =
      ((v.definition t).bind (·.method? sig)).filter Method.isInheritable := by
  rw [heritable, h.method?_table]

end View.Coherent

end Linkage
