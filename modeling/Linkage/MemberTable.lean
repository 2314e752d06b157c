import Linkage.ClassDef
import Linkage.OrderedMap

/-!
# Member Tables

The members that one type declares, by signature. Where a class declares a signature more than
once, the table holds the first declaration. A type without a definition has an empty table.

## Main definitions

* `MemberTable.ofClass`, `MemberTable.ofDefinition?`: the table of a class.
* `MemberTable.method?`, `MemberTable.field?`: what a signature is found to be.
-/

namespace Linkage

/-- Declared members by signature. -/
abbrev MemberTable := OrderedMap MemberKey Member

namespace MemberTable

/-- The table of a class: its methods, then its fields, and of each signature the first. -/
def ofClass (c : ClassDef) : MemberTable :=
  let methods := c.methods.foldl (fun t m => t.insertNew (.method m.sig) (.method m)) .empty
  c.fields.foldl (fun t f => t.insertNew (.field f.sig) (.field f)) methods

/-- The table of a type, which is empty if the type has no definition. -/
def ofDefinition? : Option ClassDef → MemberTable
  | some c => ofClass c
  | none => .empty

/-- The method with the given signature. -/
def method? (t : MemberTable) (sig : MethodSig) : Option Method :=
  (t.get? (.method sig)).bind Member.method?

/-- The field with the given signature. -/
def field? (t : MemberTable) (sig : FieldSig) : Option Field :=
  (t.get? (.field sig)).bind Member.field?

/-- The methods of the table. -/
def methods (t : MemberTable) : List Method := t.values.filterMap Member.method?

/-- The fields of the table. -/
def fields (t : MemberTable) : List Field := t.values.filterMap Member.field?

/-- An empty table has no methods. -/
@[simp] theorem method?_empty (sig : MethodSig) :
    method? (OrderedMap.empty : MemberTable) sig = none := rfl

/-- An empty table has no fields. -/
@[simp] theorem field?_empty (sig : FieldSig) :
    field? (OrderedMap.empty : MemberTable) sig = none := rfl

end MemberTable

end Linkage
