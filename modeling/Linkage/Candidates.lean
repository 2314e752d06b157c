import Linkage.Resolution
import Linkage.Sweep

/-!
# Maximally-Specific Methods

The methods that a class inherits from its superinterfaces, with those taken out that a more
specific interface overrides. Each interface that offers the method becomes a candidate, and at
that moment all its superinterfaces are shadowed: they are never candidates again, even if they
were before. Interfaces keep the order in which they were first recorded, so that a choice
between abstract methods is always made alike.

## Main definitions

* `Candidates.collect`: records what a sweep finds.
* `Candidates.select`: chooses among the candidates.
-/

namespace Linkage

/-- What is recorded for an interface: the method it offers, or that a subinterface offers one. -/
inductive Slot
  | candidate (m : Method)
  | shadowed
deriving DecidableEq, Repr

/-- The interfaces recorded so far, and those that have been expanded. -/
structure Candidates where
  slots : OrderedMap TypeId Slot
  expanded : List TypeId

/-- The choice among candidates. -/
inductive Selection
  | none
  | one (holder : TypeId) (m : Method)
  | conflict (ms : List Method)
deriving DecidableEq, Repr

namespace View

/-- The number of types that may be defined and are not shadowed. -/
def unshadowed (v : View) (slots : OrderedMap TypeId Slot) : Nat :=
  v.domain.countP fun t => slots.get? t ≠ some .shadowed

/-- Shadowing a defined type for the first time leaves fewer to shadow. -/
theorem unshadowed_insert_lt {v : View} {t : TypeId} {c : ClassDef}
    {slots : OrderedMap TypeId Slot} (hdef : v.definition t = some c)
    (hnew : slots.get? t ≠ some .shadowed) :
    v.unshadowed (slots.insert t .shadowed) < v.unshadowed slots := by
  refine countP_lt_countP ?_ (v.mem_domain hdef) (by simp) (by simpa using hnew)
  intro u hu
  rw [OrderedMap.get?_insert] at hu
  split at hu
  · simp at hu
  · exact hu

/-- Shadows the given types and everything that they extend. What is shadowed already is not
looked at again, and what is not defined is not recorded. -/
def shade (v : View) (slots : OrderedMap TypeId Slot) :
    List TypeId → OrderedMap TypeId Slot
  | [] => slots
  | t :: rest =>
    match hc : v.definition t with
    | none => v.shade slots rest
    | some c =>
      if hs : slots.get? t = some .shadowed then v.shade slots rest
      else
        have := View.unshadowed_insert_lt hc hs
        v.shade (slots.insert t .shadowed) (c.interfaces ++ rest)
termination_by ts => (v.unshadowed slots, ts.length)

end View

namespace Candidates

/-- Nothing is recorded yet. -/
def empty : Candidates := ⟨.empty, []⟩

instance : Inhabited Candidates := ⟨empty⟩

/-- Whether nothing is recorded. -/
def isEmpty (cs : Candidates) : Bool := cs.slots.entries.isEmpty

/-- Whether a type is a candidate. -/
def isCandidate (cs : Candidates) (t : TypeId) : Bool :=
  match cs.slots.get? t with
  | some (.candidate _) => true
  | _ => false

/-- Whether a type is shadowed. -/
def isShadowed (cs : Candidates) (t : TypeId) : Bool := cs.slots.get? t == some .shadowed

/-- The candidates with their methods, in the order in which their types were first recorded. -/
def offers (cs : Candidates) : List (TypeId × Method) :=
  cs.slots.entries.filterMap fun
    | (t, .candidate m) => some (t, m)
    | (_, .shadowed) => none

/-- The types of the candidates. -/
def holders (cs : Candidates) : List TypeId := cs.offers.map Prod.fst

/-- Records the method that a type offers, and shadows what the type extends. A type that is
recorded already stays as it is. -/
def add (v : View) (holder : ClassDef) (m : Method) (cs : Candidates) : Candidates :=
  if cs.slots.contains holder.type then cs
  else
    { cs with slots := v.shade (cs.slots.insert holder.type (.candidate m)) holder.interfaces }

/-- Records what a sweep has seen. -/
def record (v : View) (sights : List Sight) (cs : Candidates) : Candidates :=
  let found := (sights.filterMap Sight.declared?).foldl (fun cs d => cs.add v d.1 d.2) cs
  { found with expanded := found.expanded ++ sights.filterMap Sight.expanded? }

/-- Sweeps the given interfaces in order, and then those of a superclass and of the classes
above it, and records what is found. -/
def collect (v : View) (sig : MethodSig) (superType : Option TypeId) (interfaces : List TypeId)
    (cs : Candidates) : Walk Candidates :=
  let sights := v.sweep sig cs.expanded
    (interfaces.map .interface ++ (superType.map (.superclass · 0)).toList)
  { value := cs.record v sights
    reads := sights.filterMap Sight.read?
    warnings := (sights.filterMap Sight.cut?).map (⟨.interfaceSweep, ·, v.maxDepth⟩) }

/-- Sweeps the interfaces of a class and of its superclasses. -/
def collectFromClass (v : View) (sig : MethodSig) (c : ClassDef) (cs : Candidates) :
    Walk Candidates :=
  cs.collect v sig c.superType c.interfaces

/-- Chooses among the candidates. A single method with a body wins, and several are in conflict;
where there is none, the abstract methods are as good as one another and the first is taken. -/
def select (cs : Candidates) : Selection :=
  match cs.offers.filter (·.2.access.isConcreteVirtual), cs.offers with
  | [], [] => .none
  | [], (t, m) :: _ => .one t m
  | [(t, m)], _ => .one t m
  | several, _ => .conflict (several.map Prod.snd)

/-- The outcome for a reference to `initial`. -/
def resolve (initial : TypeId) (cs : Candidates) : Resolution :=
  match cs.select with
  | .none => .noSuchMethod
  | .one t m => .single initial t m
  | .conflict ms => .incompatibleClass ms

/-- The method chosen and the interface that declares it, if a single one is. -/
def target? (cs : Candidates) : Option (TypeId × Method) :=
  match cs.select with
  | .one t m => some (t, m)
  | _ => none

end Candidates

/-! ### Shadowing -/

namespace View

/-- With nothing left to shade, the record stays as it is. -/
@[simp] theorem shade_nil (v : View) (slots : OrderedMap TypeId Slot) :
    v.shade slots [] = slots := by
  rw [shade]

/-- A type without a definition is passed over. -/
theorem shade_undefined {v : View} {t : TypeId} (hc : v.definition t = none)
    (slots : OrderedMap TypeId Slot) (rest : List TypeId) :
    v.shade slots (t :: rest) = v.shade slots rest := by
  rw [shade]
  split <;> simp_all

/-- A type that is shadowed already is passed over, and so is what it extends. -/
theorem shade_shadowed {v : View} {t : TypeId} {slots : OrderedMap TypeId Slot}
    (hs : slots.get? t = some .shadowed) (rest : List TypeId) :
    v.shade slots (t :: rest) = v.shade slots rest := by
  rw [shade]
  split <;> simp_all

/-- Any other type is shadowed, and what it extends comes next. -/
theorem shade_fresh {v : View} {t : TypeId} {c : ClassDef} {slots : OrderedMap TypeId Slot}
    (hc : v.definition t = some c) (hs : slots.get? t ≠ some .shadowed) (rest : List TypeId) :
    v.shade slots (t :: rest) =
      v.shade (slots.insert t .shadowed) (c.interfaces ++ rest) := by
  rw [shade]
  split <;> simp_all

end View

namespace Candidates

/-- Recording never takes a type off the record. -/
theorem add_of_recorded {cs : Candidates} {holder : ClassDef}
    (h : cs.slots.contains holder.type = true) (v : View) (m : Method) :
    cs.add v holder m = cs := by
  rw [add, if_pos h]

end Candidates

end Linkage
