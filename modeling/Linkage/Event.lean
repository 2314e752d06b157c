import Linkage.Query

/-!
# Trace Events

What a workspace tells about its work while it is traced: the warnings of walks, the beginning
and end of every query that resolves a method reference, and the derivation of snapshots. An event
is written down as a record of named fields.
-/

namespace Linkage

/-- Something that was traced. -/
inductive Event
  | warning (w : Warning)
  | queryStart (id : Nat) (query : Query) (holder : TypeId) (generation : Nat)
  | queryEnd (id : Nat) (query : Query) (result : Resolution) (misses : Nat)
  | derived (source target changed : Nat)
deriving DecidableEq, Repr

namespace Query

/-- The name under which a query for a method reference is told about. -/
def operationName : Query → String
  | .resolveOnClass .. => "resolve_method_on_class"
  | .resolveOnInterface .. => "resolve_method_on_interface"
  | .resolve .. => "resolve_method"
  | .resolveStructural .. => "resolve_method_structural"
  | _ => ""

end Query

namespace Event

/-- The largest number of misses that is told. -/
def maxMisses : Nat := UInt32.size - 1

/-- What a field of an event holds. -/
inductive Value
  | text (s : String)
  | number (n : Nat)
  | flag (b : Bool)
deriving DecidableEq, Repr

/-- The fields of an event, in order. All events but warnings name the run that they are part of. -/
def fields (run : String) : Event → List (String × Value)
  | .warning w =>
    [("message", .text w.message), ("type_id", .number w.type.val),
      ("max_depth", .number w.maxDepth.toNat)]
  | .queryStart id q holder generation =>
    [("event", .text "query"), ("phase", .text "start"), ("run_id", .text run),
      ("query_id", .number id), ("op", .text q.operationName),
      ("holder_type_id", .number holder.val), ("generation", .number generation)]
  | .queryEnd id q r misses =>
    [("event", .text "query"), ("phase", .text "end"), ("run_id", .text run),
      ("query_id", .number id), ("op", .text q.operationName), ("result", .text r.kindName),
      ("cache_hit", .flag (misses == 0)), ("cache_misses", .number misses)]
  | .derived source target changed =>
    [("event", .text "snapshot"), ("run_id", .text run), ("from_generation", .number source),
      ("to_generation", .number target), ("changed", .number changed)]

end Event

end Linkage
