import Linkage.Json.Scan
import Linkage.Options.Record

/-!
# Reading Options

A reader of options, so that they can be read at all. Beside objects it takes a list of the two
values, in the order of the settings. The text is read from left to right, and the first thing that
is wrong decides how it is refused: a key that is not known counts before the rest of the text is
looked at.

Nothing is said of options by means of this reader alone: what is relied on is that it reads their
record, as any other reader does.

## Main definitions

* `readOptions`: the reader.
* `ofString`, `ofFile`: the options that a text and a file give.
-/

namespace Linkage

namespace Options

open Json (Fault skipBlanks readWord readString readNumber refuse)

/-- The members read so far. -/
structure Draft where
  maxDepth? : Option UInt32 := none
  queryTracing? : Option Bool := none
deriving DecidableEq, Repr

namespace Draft

/-- How many members may still come. -/
def room (d : Draft) : Nat :=
  (if d.maxDepth?.isNone then 1 else 0) + (if d.queryTracing?.isNone then 1 else 0)

/-- The options with defaults for what was not read. -/
def toOptions (d : Draft) : Options where
  maxDepth := d.maxDepth?.getD defaultMaxDepth
  queryTracing := d.queryTracing?.getD true

/-- There is room for the depth in a draft that has none, and the other setting stays. -/
theorem room_setDepth {d : Draft} (h : d.maxDepth? = none) (n : UInt32) :
    { d with maxDepth? := some n }.room < d.room := by
  simp [room, h]

/-- There is room for the tracing in a draft that has none, and the other setting stays. -/
theorem room_setTracing {d : Draft} (h : d.queryTracing? = none) (b : Bool) :
    { d with queryTracing? := some b }.room < d.room := by
  simp [room, h]

end Draft

/-- Reads a depth: a natural number of 32 bits. -/
def readDepth (cs : List Char) : Except Fault (UInt32 × List Char) :=
  match skipBlanks cs with
  | [] => .error .truncated
  | c :: rest =>
    if c = '-' ∨ (Json.digit? c).isSome then
      match readNumber (c :: rest) with
      | .error e => .error e
      | .ok (.natural n, rest) =>
        if n < UInt32.size then .ok (UInt32.ofNat n, rest) else .error .mismatch
      | .ok (.other, _) => .error .mismatch
    else .error (refuse (c :: rest))

/-- Reads a truth value. -/
def readFlag (cs : List Char) : Except Fault (Bool × List Char) :=
  match skipBlanks cs with
  | [] => .error .truncated
  | 't' :: rest =>
    match readWord ['r', 'u', 'e'] rest with
    | .error e => .error e
    | .ok rest => .ok (true, rest)
  | 'f' :: rest =>
    match readWord ['a', 'l', 's', 'e'] rest with
    | .error e => .error e
    | .ok rest => .ok (false, rest)
  | rest => .error (refuse rest)

/-- Reads the colon between a key and its value. -/
def readColon (cs : List Char) : Except Fault (List Char) :=
  match skipBlanks cs with
  | [] => .error .truncated
  | c :: rest => if c = ':' then .ok rest else .error .malformed

/-- Looks for the key of the next member: what follows its opening quote, or, if the object ends
here, what follows the closing brace. Only a member that is not the first has a comma before it,
and then the object cannot end. -/
def nextKey (first : Bool) (cs : List Char) : Except Fault (List Char ⊕ List Char) :=
  match skipBlanks cs with
  | [] => .error .truncated
  | '}' :: rest => .ok (.inr rest)
  | c :: rest =>
    if first then
      if c = '"' then .ok (.inl rest) else .error .malformed
    else if c = ',' then
      match skipBlanks rest with
      | [] => .error .truncated
      | '"' :: rest => .ok (.inl rest)
      | _ => .error .malformed
    else .error .malformed

/-- Reads the members of an object up to its closing brace. Each member fills a place of the
draft, so that there are never more than two. -/
def readMembers (first : Bool) (d : Draft) (cs : List Char) : Except Fault (Draft × List Char) :=
  match nextKey first cs with
  | .error e => .error e
  | .ok (.inr rest) => .ok (d, rest)
  | .ok (.inl rest) =>
    match readString rest with
    | .error e => .error e
    | .ok (key, rest) =>
      if key = "maxHierarchyDepth" then
        match h : d.maxDepth? with
        | some _ => .error .mismatch
        | none =>
          match readColon rest >>= readDepth with
          | .error e => .error e
          | .ok (n, rest) =>
            have := Draft.room_setDepth h n
            readMembers false { d with maxDepth? := some n } rest
      else if key = "queryTracing" then
        match h : d.queryTracing? with
        | some _ => .error .mismatch
        | none =>
          match readColon rest >>= readFlag with
          | .error e => .error e
          | .ok (b, rest) =>
            have := Draft.room_setTracing h b
            readMembers false { d with queryTracing? := some b } rest
      else .error .mismatch
termination_by d.room

/-- Looks for the next element of a list: the text from there on, or nothing if the list ends
here. -/
def nextElement (first : Bool) (cs : List Char) : Except Fault (Option (List Char)) :=
  match skipBlanks cs with
  | [] => .error .truncated
  | ']' :: _ => .ok none
  | c :: rest =>
    if first then .ok (some (c :: rest))
    else if c = ',' then
      match skipBlanks rest with
      | [] => .error .truncated
      | ']' :: _ => .error .malformed
      | rest => .ok (some rest)
    else .error .malformed

/-- Reads the closing bracket of a list. -/
def readListEnd (cs : List Char) : Except Fault (List Char) :=
  match skipBlanks cs with
  | [] => .error .truncated
  | c :: rest => if c = ']' then .ok rest else .error .malformed

/-- Reads the elements of a list and its closing bracket: at most a depth and a truth value. -/
def readElements (cs : List Char) : Except Fault (Draft × List Char) := do
  match ← nextElement true cs with
  | none => return ({}, ← readListEnd cs)
  | some rest =>
    let (n, rest) ← readDepth rest
    match ← nextElement false rest with
    | none => return ({ maxDepth? := some n }, ← readListEnd rest)
    | some rest =>
      let (b, rest) ← readFlag rest
      return ({ maxDepth? := some n, queryTracing? := some b }, ← readListEnd rest)

/-- Reads a whole text: an object or a list between blanks. -/
def readText (cs : List Char) : Except Fault Draft :=
  let whole (read : Except Fault (Draft × List Char)) : Except Fault Draft := do
    let (d, rest) ← read
    if skipBlanks rest = [] then .ok d else .error .malformed
  match skipBlanks cs with
  | '[' :: rest => whole (readElements rest)
  | '{' :: rest => whole (readMembers true {} rest)
  | rest => .error (refuse rest)

/-- The options that stand in a text, whether they allow a link or not. -/
def readOptions (text : String) : Except Fault Options :=
  (readText text.toList).map Draft.toOptions

/-- The options that a text gives. -/
def ofString (text : String) : Except OptionsError Options := ofText readOptions text

/-- The options that a file's bytes give. -/
def ofFile (content : Option ByteArray) : Except OptionsError Options := ofBytes readOptions content

end Options

end Linkage
