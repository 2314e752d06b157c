import Linkage.FieldSearch
import Linkage.MethodResolution

/-!
# Queries

Everything that can be asked of a hierarchy, as one type, and the answers. A query is asked of a
view, and its walk says which tables it read.

## Main definitions

* `Query.run`: the walk that answers a query.
* `Query.sig?`: the method signature that a query looks for in the tables it reads.
-/

namespace Linkage

/-- What can be asked of a hierarchy. -/
inductive Query
  | resolveOnClass (holder : TypeId) (sig : MethodSig)
  | resolveOnInterface (holder : TypeId) (sig : MethodSig)
  | resolve (holder : TypeId) (sig : MethodSig) (isInterface : Bool)
  | resolveStructural (holder : TypeId) (sig : MethodSig)
  | resolveField (holder : TypeId) (sig : FieldSig)
  | inheritedTarget (t : TypeId) (sig : MethodSig)
  | lambdaTarget (interfaces : List TypeId) (sig : MethodSig)
  | staticTarget (ref : MethodRef) (context : TypeId)
  | directTarget (ref : MethodRef) (context : TypeId)
  | definition (t : TypeId)
  | method (ref : MethodRef)
  | field (ref : FieldRef)
  | members (t : TypeId)
deriving DecidableEq, Repr

/-- What is answered. -/
inductive Answer
  | resolution (r : Resolution)
  | field (f : Option Field)
  | target (t : Option (TypeId × Method))
  | method (m : Option Method)
  | definition (c : Option ClassDef)
  | members (table : MemberTable)

namespace Answer

/-- What a method reference was found to mean, as an answer. -/
def ofResolution : Except WalkFault Resolution → Except WalkFault Answer
  | .ok r => .ok (.resolution r)
  | .error fault => .error fault

/-- Every method that an answer names after looking it up by signature. -/
def methods : Answer → List Method
  | .resolution r => r.methods
  | .target t => (t.map Prod.snd).toList
  | .method m => m.toList
  | _ => []

end Answer

namespace Query

/-- The walk that answers a query. -/
def run (v : View) : Query → Walk (Except WalkFault Answer)
  | .resolveOnClass holder sig => Answer.ofResolution <$> v.resolveOnClass holder sig
  | .resolveOnInterface holder sig => Answer.ofResolution <$> v.resolveOnInterface holder sig
  | .resolve holder sig isInterface => Answer.ofResolution <$> v.resolve holder sig isInterface
  | .resolveStructural holder sig => Answer.ofResolution <$> v.resolveStructural holder sig
  | .resolveField holder sig => (.ok ∘ .field) <$> v.resolveField holder sig
  | .inheritedTarget t sig => (.ok ∘ .target) <$> v.inheritedTarget t sig
  | .lambdaTarget interfaces sig => (.ok ∘ .target) <$> v.lambdaTarget interfaces sig
  | .staticTarget ref context => (.ok ∘ .method) <$> v.staticTarget ref context
  | .directTarget ref context => (.ok ∘ .method) <$> v.directTarget ref context
  | .definition t => pure (.ok (.definition (v.definition t)))
  | .method ref => (.ok ∘ .method) <$> v.readMethod ref.holder ref.sig
  | .field ref => (.ok ∘ .field) <$> v.readField ref.holder ref.sig
  | .members t => do
    Walk.read t
    return .ok (.members (v.table t))

/-- The method signature that a query looks for in every table it reads. Queries for fields, for
definitions and for whole tables look for none. -/
def sig? : Query → Option MethodSig
  | .resolveOnClass _ sig => some sig
  | .resolveOnInterface _ sig => some sig
  | .resolve _ sig _ => some sig
  | .resolveStructural _ sig => some sig
  | .inheritedTarget _ sig => some sig
  | .lambdaTarget _ sig => some sig
  | .staticTarget ref _ => some ref.sig
  | .directTarget ref _ => some ref.sig
  | .method ref => some ref.sig
  | .resolveField .. => none
  | .definition _ => none
  | .field _ => none
  | .members _ => none

/-- The type whose method reference is resolved; such queries are traced. -/
def resolvedOn? : Query → Option TypeId
  | .resolveOnClass holder _ => some holder
  | .resolveOnInterface holder _ => some holder
  | .resolve holder _ _ => some holder
  | .resolveStructural holder _ => some holder
  | _ => none

/-! ### Outcomes of method references -/

/-- An outcome is answered if it is what the reference resolves to. -/
theorem value_ofResolution_eq_iff {w : Walk (Except WalkFault Resolution)} {r : Resolution} :
    (Answer.ofResolution <$> w).value = .ok (.resolution r) ↔ w.value = .ok r := by
  rw [Walk.value_map]
  cases w.value <;> simp [Answer.ofResolution]

/-- **There are three ways to resolve a reference**: what holds of the outcomes of each of them
holds of every outcome that is answered. -/
theorem resolution_cases {v : View} {holder : TypeId} {sig : MethodSig} {P : Resolution → Prop}
    (onClass : ∀ {r}, (v.resolveOnClass holder sig).value = .ok r → P r)
    (onInterface : ∀ {r}, (v.resolveOnInterface holder sig).value = .ok r → P r)
    (structural : ∀ {r}, (v.resolveStructural holder sig).value = .ok r → P r)
    {q : Query} (hholder : q.resolvedOn? = some holder) (hsig : q.sig? = some sig)
    {r : Resolution} (h : (q.run v).value = .ok (.resolution r)) : P r := by
  cases q <;> simp only [resolvedOn?, reduceCtorEq, Option.some.injEq] at hholder <;>
    obtain rfl := Option.some.inj hsig <;> subst hholder
  case resolveOnClass => exact onClass (value_ofResolution_eq_iff.1 h)
  case resolveOnInterface => exact onInterface (value_ofResolution_eq_iff.1 h)
  case resolveStructural => exact structural (value_ofResolution_eq_iff.1 h)
  case resolve isInterface =>
    have hvalue := value_ofResolution_eq_iff.1 h
    rw [View.resolve] at hvalue
    split at hvalue
    · exact onInterface hvalue
    · exact onClass hvalue

end Query

end Linkage
