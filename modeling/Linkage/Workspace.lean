import Linkage.Event
import Linkage.Snapshot
import Linkage.TypeTable.Render

/-!
# Workspaces

Everything that snapshots share: the type table, the class stores, which may change under the
snapshots that use them, the generation counter of every lineage, and the markers of obsolete
methods. Stores, lineages and snapshots are known by their numbers.

Every operation on a snapshot first makes sure that the snapshot is live. One that is not is
left exactly as it was, and so is everything else.

## Main definitions

* `Workspace.ask`: a query on a snapshot.
* `Workspace.derive`: the successor of a snapshot, which makes its predecessor obsolete.
* `Workspace.synthesize`: a class that only a snapshot and its successors see.
-/

namespace Linkage

/-- Why an operation was refused, or broke off. -/
inductive Failure
  | superseded (generation current : Nat)
  | walk (fault : WalkFault)
  | duplicateClass (type : TypeId) (descriptor : String)
  | conflictingClass (type : TypeId) (descriptor : String)
  | endlessType
  | unknownStore
  | unknownSnapshot
deriving DecidableEq, Repr

namespace Failure

/-- The report on a failure. -/
def message : Failure → String
  | .superseded generation current =>
    "hierarchy snapshot of generation " ++ toString generation ++
      " queried after generation " ++ toString current ++ " superseded it"
  | .walk fault => fault.message
  | .duplicateClass type descriptor =>
    "class " ++ descriptor ++ " (type " ++ toString type.val ++ ") is already defined"
  | .conflictingClass type descriptor =>
    "a different definition of " ++ descriptor ++ " (type " ++ toString type.val ++
      ") was already synthesized"
  | .endlessType => "the descriptor of a type never ends"
  | .unknownStore => "no such store"
  | .unknownSnapshot => "no such snapshot"

/-- What a walk found, or the failure that it broke off. -/
def ofWalk {α : Type} : Except WalkFault α → Except Failure α
  | .ok a => .ok a
  | .error fault => .error (.walk fault)

end Failure

/-- What snapshots share, and the snapshots. -/
structure Workspace where
  types : TypeTable
  stores : List ClassStore
  generations : List Nat
  snapshots : List Snapshot
  marks : Marks
  nextStamp : Nat
  tracing : Bool
  queriesTraced : Nat

/-- What an operation returns, the workspace it leaves, and what was traced. -/
structure Outcome (α : Type) where
  result : Except Failure α
  workspace : Workspace
  events : List Event

namespace Workspace

/-- A workspace without stores and snapshots. -/
def fresh (types : TypeTable) (tracing : Bool) : Workspace where
  types := types
  stores := []
  generations := []
  snapshots := []
  marks := .empty
  nextStamp := 0
  tracing := tracing
  queriesTraced := 0

/-- An operation that fails changes nothing. -/
def fail {α : Type} (w : Workspace) (e : Failure) : Outcome α := ⟨.error e, w, []⟩

/-- An operation that only returns something. -/
def answer {α : Type} (w : Workspace) (a : α) : Outcome α := ⟨.ok a, w, []⟩

/-- Does something to the workspace in an interning computation. -/
def intern {α : Type} (w : Workspace) (f : TypeTable.Interning α) : α × Workspace :=
  let (a, types) := f w.types
  (a, { w with types := types })

/-! ### Methods and their markers -/

/-- A method with a stamp of its own. -/
def declare (w : Workspace) (ref : MethodRef) (access : Access) (code : Option UInt32) :
    Method × Workspace :=
  (⟨⟨w.nextStamp⟩, ref.holder, ref.sig, access, code⟩,
    { w with nextStamp := w.nextStamp + 1 })

/-- Marks a method obsolete wherever it is found. -/
def markObsolete (w : Workspace) (m : Method) : Workspace := { w with marks := w.marks.add m }

/-! ### Stores -/

/-- A report on a type, which names it by its descriptor. If the descriptor never ends, there will
be no report: the operation breaks off in writing it. -/
def reportOn (w : Workspace) (t : TypeId) (report : TypeId → String → Failure) : Failure :=
  match w.types.descriptor? t with
  | some descriptor => report t descriptor
  | none => .endlessType

/-- The report that a type has a definition already. -/
def duplicate (w : Workspace) (t : TypeId) : Failure := w.reportOn t .duplicateClass

/-- The report that a snapshot has another class of its own for a type. -/
def conflicting (w : Workspace) (t : TypeId) : Failure := w.reportOn t .conflictingClass

/-- Adds a class to a store that does not define its type. -/
def addTo (w : Workspace) (store : ClassStore) (c : ClassDef) : Except Failure ClassStore :=
  match store.insert? c with
  | some store => .ok store
  | none => .error (w.duplicate c.type)

/-- Opens a store with the given classes. -/
def openStore (w : Workspace) (classes : List ClassDef) : Outcome Nat :=
  match classes.foldlM w.addTo .empty with
  | .error e => w.fail e
  | .ok store =>
    ⟨.ok w.stores.length, { w with stores := w.stores ++ [store] }, []⟩

/-- Replaces a store by what it has become. -/
def setStore (w : Workspace) (i : Nat) (store : ClassStore) : Workspace :=
  { w with stores := w.stores.set i store }

/-- Adds a class to a store. -/
def insertClass (w : Workspace) (i : Nat) (c : ClassDef) : Outcome Unit :=
  match w.stores[i]? with
  | none => w.fail .unknownStore
  | some store =>
    match w.addTo store c with
    | .error e => w.fail e
    | .ok store => (w.setStore i store).answer ()

/-- Publishes a class in place of what its type had before, which is returned. -/
def replaceClass (w : Workspace) (i : Nat) (c : ClassDef) : Outcome (Option ClassDef) :=
  match w.stores[i]? with
  | none => w.fail .unknownStore
  | some store => (w.setStore i (store.put c)).answer (store.get? c.type)

/-- Takes a class away and returns it. -/
def removeClass (w : Workspace) (i : Nat) (t : TypeId) : Outcome (Option ClassDef) :=
  match w.stores[i]? with
  | none => w.fail .unknownStore
  | some store => (w.setStore i (store.erase t)).answer (store.get? t)

/-! ### Snapshots -/

/-- The generation that the lineage of a snapshot has come to. -/
def current (w : Workspace) (s : Snapshot) : Nat := w.generations[s.lineage]?.getD 0

/-- Whether a snapshot has no successor yet. -/
def isLive (w : Workspace) (s : Snapshot) : Bool := w.current s == s.generation

/-- A snapshot with its store, if it is live. -/
def live (w : Workspace) (i : Nat) : Except Failure (Snapshot × ClassStore) :=
  match w.snapshots[i]? with
  | none => .error .unknownSnapshot
  | some s =>
    if w.isLive s then
      match w.stores[s.store]? with
      | none => .error .unknownStore
      | some store => .ok (s, store)
    else .error (.superseded s.generation (w.current s))

/-- Replaces a snapshot by what it has become. -/
def setSnapshot (w : Workspace) (i : Nat) (s : Snapshot) : Workspace :=
  { w with snapshots := w.snapshots.set i s }

/-- Starts a lineage over a store. -/
def openSnapshot (w : Workspace) (store : Nat) (options : Options) : Outcome Nat :=
  match w.stores[store]? with
  | none => w.fail .unknownStore
  | some _ =>
    let s : Snapshot :=
      { lineage := w.generations.length
        generation := Snapshot.firstGeneration
        store := store
        synthesized := .empty
        cache := .empty
        options := options }
    ⟨.ok w.snapshots.length,
      { w with
        generations := w.generations ++ [Snapshot.firstGeneration]
        snapshots := w.snapshots ++ [s] }, []⟩

/-- The successor of a snapshot. It starts with the classes and tables of its predecessor, less
the tables of the types that have changed, and over another store if one is given. -/
def derive (w : Workspace) (i : Nat) (changed : List TypeId) (store? : Option Nat) :
    Outcome Nat :=
  match w.live i with
  | .error e => w.fail e
  | .ok (s, _) =>
    let store := store?.getD s.store
    match w.stores[store]? with
    | none => w.fail .unknownStore
    | some _ =>
      let next : Snapshot :=
        { s with
          generation := s.generation + 1
          store := store
          cache := s.cache.fork.invalidateAll changed }
      ⟨.ok w.snapshots.length,
        { w with
          generations := w.generations.set s.lineage next.generation
          snapshots := w.snapshots ++ [next] },
        if w.tracing && s.options.queryTracing then
          [.derived s.generation next.generation changed.length]
        else []⟩

/-- Makes sure that a snapshot is live. -/
def checkLive (w : Workspace) (i : Nat) : Outcome Unit :=
  match w.live i with
  | .error e => w.fail e
  | .ok _ => w.answer ()

/-- Evicts the table of a type. Tells whether there was one. -/
def invalidate (w : Workspace) (i : Nat) (t : TypeId) : Outcome Bool :=
  match w.live i with
  | .error e => w.fail e
  | .ok (s, _) =>
    (w.setSnapshot i { s with cache := s.cache.invalidate t }).answer (s.cache.contains t)

/-- Makes a class visible in a snapshot and its successors. The store must not define its type,
and a class of the snapshot's own must read alike; then nothing happens. -/
def synthesize (w : Workspace) (i : Nat) (c : ClassDef) : Outcome Unit :=
  match w.live i with
  | .error e => w.fail e
  | .ok (s, store) =>
    if store.contains c.type then w.fail (w.duplicate c.type)
    else
      match s.synthesized.get? c.type with
      | some d =>
        if d.sameAs c then w.answer ()
        else w.fail (w.conflicting c.type)
      | none =>
        (w.setSnapshot i
          { s with
            synthesized := s.synthesized.put c
            cache := s.cache.invalidate c.type }).answer ()

/-- Some classes in the order of the descriptors of their types, each of which is written once; or
nothing if one of them never ends. A class on its own is in order as it is. -/
def sortByDescriptor? (t : TypeTable) (classes : List ClassDef) : Option (List ClassDef) :=
  if classes.length < 2 then some classes
  else do
    let keyed ← classes.mapM fun c => do return (← t.descriptor? c.type, c)
    return (keyed.mergeSort fun x y => x.1 ≤ y.1).map Prod.snd

/-- The classes of a snapshot's own, in the order of their descriptors. -/
def synthesizedClasses (w : Workspace) (i : Nat) : Outcome (List ClassDef) :=
  match w.live i with
  | .error e => w.fail e
  | .ok (s, _) =>
    match sortByDescriptor? w.types s.synthesized.listing with
    | some classes => w.answer classes
    | none => w.fail .endlessType

/-- The classes of a snapshot's store, in the order of their types' numbers. -/
def storeClasses (w : Workspace) (i : Nat) : Outcome (List ClassDef) :=
  match w.live i with
  | .error e => w.fail e
  | .ok (_, store) => w.answer store.listing

/-! ### Queries -/

/-- The warnings of a walk, if anything is traced at all. -/
def traceWarnings (w : Workspace) (warnings : List Warning) : List Event :=
  if w.tracing then warnings.map .warning else []

/-- Asks a snapshot. -/
def ask (w : Workspace) (i : Nat) (q : Query) : Outcome Answer :=
  match w.live i with
  | .error e => w.fail e
  | .ok (s, store) =>
    let walk := q.run (s.view w.types store w.marks q.sig?)
    let after := s.afterReads store w.marks q.sig? walk.reads
    let result := Failure.ofWalk walk.value
    let warnings := w.traceWarnings walk.warnings
    let w' := w.setSnapshot i after
    match q.resolvedOn?.filter fun _ => w.tracing && s.options.queryTracing with
    | none => ⟨result, w', warnings⟩
    | some holder =>
      let id := w.queriesTraced + 1
      let misses := min (after.cache.misses - s.cache.misses) Event.maxMisses
      let finish :=
        match walk.value with
        | .ok (.resolution r) => [Event.queryEnd id q r misses]
        | _ => []
      ⟨result, { w' with queriesTraced := id },
        .queryStart id q holder s.generation :: (warnings ++ finish)⟩

/-- Asks a store as it stands, without a snapshot. -/
def askStore (w : Workspace) (i : Nat) (maxDepth : UInt32) (q : Query) : Outcome Answer :=
  match w.stores[i]? with
  | none => w.fail .unknownStore
  | some store =>
    let walk := q.run (View.ofStore w.types store maxDepth)
    ⟨Failure.ofWalk walk.value, w, w.traceWarnings walk.warnings⟩

end Workspace

end Linkage
