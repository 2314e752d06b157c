import Linkage.Signature

/-!
# Walks

A walk over a hierarchy answers a question and leaves a trail: the types whose member tables it
read, in order, and the warnings it gave when it was cut off. The answer never depends on the
trail. Whoever keeps the tables can follow the trail afterwards to find out what the walk did to
them, and so a walk needs no state of its own.

## Main results

* `value_bind`, `reads_bind`, `warnings_bind`: a walk in two parts.
-/

namespace Linkage

/-- The walks that are cut off at the depth bound. -/
inductive CutOff
  | classChain
  | fieldSearch
  | interfaceSweep
deriving DecidableEq, Repr

/-- A walk was cut off: which one, at which type, and by which bound. The type is the one the
walk started from for a class chain, and otherwise the one it refused to enter. -/
structure Warning where
  cutOff : CutOff
  type : TypeId
  maxDepth : UInt32
deriving DecidableEq, Repr

namespace Warning

/-- The text of a warning. -/
def message (w : Warning) : String :=
  match w.cutOff with
  | .classChain => "superclass walk exceeded max hierarchy depth"
  | .fieldSearch => "field resolution exceeded max hierarchy depth"
  | .interfaceSweep => "superclass walk exceeded max hierarchy depth"

end Warning

/-- An answer with the trail of the walk that found it. -/
structure Walk (α : Type) where
  value : α
  reads : List TypeId
  warnings : List Warning
deriving Repr

namespace Walk

variable {α β : Type}

instance : Monad Walk where
  pure a := ⟨a, [], []⟩
  bind w f :=
    let next := f w.value
    ⟨next.value, w.reads ++ next.reads, w.warnings ++ next.warnings⟩

/-- Reads the table of a type. -/
def read (t : TypeId) : Walk Unit := ⟨(), [t], []⟩

/-- Gives a warning. -/
def warn (w : Warning) : Walk Unit := ⟨(), [], [w]⟩

/-- An answer that is at hand is the value. -/
@[simp] theorem value_pure (a : α) : (pure a : Walk α).value = a := rfl

/-- An answer that is at hand takes no reads. -/
@[simp] theorem reads_pure (a : α) : (pure a : Walk α).reads = [] := rfl

/-- An answer that is at hand gives no warnings. -/
@[simp] theorem warnings_pure (a : α) : (pure a : Walk α).warnings = [] := rfl

/-- A walk that goes on has the value of its last part. -/
@[simp] theorem value_bind (w : Walk α) (f : α → Walk β) :
    (w >>= f).value = (f w.value).value := rfl

/-- What is done to an answer is done to the value. -/
@[simp] theorem value_map (f : α → β) (w : Walk α) : (f <$> w).value = f w.value := rfl

/-- The reads of a walk that goes on come one after the other. -/
@[simp] theorem reads_bind (w : Walk α) (f : α → Walk β) :
    (w >>= f).reads = w.reads ++ (f w.value).reads := rfl

/-- The warnings of a walk that goes on come one after the other. -/
@[simp] theorem warnings_bind (w : Walk α) (f : α → Walk β) :
    (w >>= f).warnings = w.warnings ++ (f w.value).warnings := rfl

/-- A read takes one read. -/
@[simp] theorem reads_read (t : TypeId) : (read t).reads = [t] := rfl

/-- A read gives no warning. -/
@[simp] theorem warnings_read (t : TypeId) : (read t).warnings = [] := rfl

/-- A warning takes no reads. -/
@[simp] theorem reads_warn (w : Warning) : (warn w).reads = [] := rfl

/-- A warning is one warning. -/
@[simp] theorem warnings_warn (w : Warning) : (warn w).warnings = [w] := rfl

instance : LawfulMonad Walk := by
  refine LawfulMonad.mk' Walk ?_ ?_ ?_
  · intro α w
    simp [Functor.map]
  · intro α β a f
    simp [bind, pure]
  · intro α β γ w f g
    simp [bind]

end Walk

end Linkage
