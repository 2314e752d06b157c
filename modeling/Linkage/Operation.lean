import Linkage.TypeTable.Request
import Linkage.Workspace

/-!
# Operations and Runs

Everything that can be done in a workspace, as one type, so that the history of a workspace is a
list of operations. An operation that is refused changes nothing, and the run goes on.

## Main definitions

* `Workspace.perform`: does one operation.
* `Workspace.after`: the workspace after a list of operations.
* `Workspace.eventsOf`: what a list of operations traces.
* `Workspace.Reachable`: the workspaces that come about.
-/

namespace Linkage

/-- What can be done in a workspace. -/
inductive Operation
  | intern (request : TypeTable.Request)
  | declare (ref : MethodRef) (access : Access) (code : Option UInt32)
  | markObsolete (m : Method)
  | openStore (classes : List ClassDef)
  | insertClass (store : Nat) (c : ClassDef)
  | replaceClass (store : Nat) (c : ClassDef)
  | removeClass (store : Nat) (t : TypeId)
  | openSnapshot (store : Nat) (options : Options)
  | derive (snapshot : Nat) (changed : List TypeId) (store? : Option Nat)
  | checkLive (snapshot : Nat)
  | invalidate (snapshot : Nat) (t : TypeId)
  | synthesize (snapshot : Nat) (c : ClassDef)
  | synthesizedClasses (snapshot : Nat)
  | storeClasses (snapshot : Nat)
  | ask (snapshot : Nat) (q : Query)
  | askStore (store : Nat) (maxDepth : UInt32) (q : Query)

namespace Operation

/-- What an operation returns. -/
@[reducible] def Result : Operation → Type
  | .intern request => request.Result
  | .declare .. => Method
  | .markObsolete _ => Unit
  | .openStore _ => Nat
  | .insertClass .. => Unit
  | .replaceClass .. => Option ClassDef
  | .removeClass .. => Option ClassDef
  | .openSnapshot .. => Nat
  | .derive .. => Nat
  | .checkLive _ => Unit
  | .invalidate .. => Bool
  | .synthesize .. => Unit
  | .synthesizedClasses _ => List ClassDef
  | .storeClasses _ => List ClassDef
  | .ask .. => Answer
  | .askStore .. => Answer

/-- The snapshot that an operation is addressed to. -/
def snapshot? : Operation → Option Nat
  | .derive i _ _ => some i
  | .checkLive i => some i
  | .invalidate i _ => some i
  | .synthesize i _ => some i
  | .synthesizedClasses i => some i
  | .storeClasses i => some i
  | .ask i _ => some i
  | _ => none

end Operation

namespace Workspace

/-- Does an operation. -/
def perform (w : Workspace) : (op : Operation) → Outcome op.Result
  | .intern request =>
    let (a, w) := w.intern (TypeTable.serve request)
    w.answer a
  | .declare ref access code =>
    let (m, w) := w.declare ref access code
    w.answer m
  | .markObsolete m => (w.markObsolete m).answer ()
  | .openStore classes => w.openStore classes
  | .insertClass store c => w.insertClass store c
  | .replaceClass store c => w.replaceClass store c
  | .removeClass store t => w.removeClass store t
  | .openSnapshot store options => w.openSnapshot store options
  | .derive snapshot changed store? => w.derive snapshot changed store?
  | .checkLive snapshot => w.checkLive snapshot
  | .invalidate snapshot t => w.invalidate snapshot t
  | .synthesize snapshot c => w.synthesize snapshot c
  | .synthesizedClasses snapshot => w.synthesizedClasses snapshot
  | .storeClasses snapshot => w.storeClasses snapshot
  | .ask snapshot q => w.ask snapshot q
  | .askStore store maxDepth q => w.askStore store maxDepth q

/-- The workspace after some operations, in order. -/
def after (w : Workspace) (ops : List Operation) : Workspace :=
  ops.foldl (fun w op => (w.perform op).workspace) w

/-- What some operations trace, in order. -/
def eventsOf (w : Workspace) : List Operation → List Event
  | [] => []
  | op :: ops => (w.perform op).events ++ (w.perform op).workspace.eventsOf ops

/-- Some operations lead to this workspace from one without stores and snapshots, whatever the
choice of shards is. -/
def Reachable (w : Workspace) : Prop :=
  ∃ shardOf tracing ops, (fresh (.freshWith shardOf) tracing).after ops = w

/-! ### Runs in parts -/

/-- A run without operations changes nothing. -/
@[simp] theorem after_nil (w : Workspace) : w.after [] = w := rfl

/-- A run goes on from where its first operation leads. -/
@[simp] theorem after_cons (w : Workspace) (op : Operation) (ops : List Operation) :
    w.after (op :: ops) = (w.perform op).workspace.after ops := rfl

/-- A run can be cut in two. -/
theorem after_append (w : Workspace) (ops more : List Operation) :
    w.after (ops ++ more) = (w.after ops).after more := List.foldl_append

/-- What is told of a run is told of its parts, in order. -/
theorem eventsOf_append (w : Workspace) (ops more : List Operation) :
    w.eventsOf (ops ++ more) = w.eventsOf ops ++ (w.after ops).eventsOf more := by
  induction ops generalizing w with
  | nil => rfl
  | cons op ops ih => simp [eventsOf, ih]

/-- What every operation keeps, every run keeps. -/
theorem after_induction {P : Workspace → Prop} {w : Workspace}
    (hstep : ∀ w op, P w → P (w.perform op).workspace) (h : P w) (ops : List Operation) :
    P (w.after ops) := by
  induction ops generalizing w with
  | nil => exact h
  | cons op ops ih => exact ih (hstep w op h)

/-- A run without operations leads to where it begins. -/
theorem reachable_fresh (shardOf : String → Fin Symbol.shardCount) (tracing : Bool) :
    Reachable (fresh (.freshWith shardOf) tracing) :=
  ⟨shardOf, tracing, [], rfl⟩

/-- Every operation leads from a workspace that comes about to another. -/
theorem Reachable.perform {w : Workspace} (h : w.Reachable) (op : Operation) :
    (w.perform op).workspace.Reachable := by
  obtain ⟨shardOf, tracing, ops, rfl⟩ := h
  exact ⟨shardOf, tracing, ops ++ [op], after_append ..⟩

end Workspace

end Linkage
