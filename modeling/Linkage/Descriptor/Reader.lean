import Linkage.Descriptor
import Linkage.Text.Utf8

/-!
# Reading Descriptors

A reader takes the characters that are still unread and returns what it read with the
characters that remain. A fault carries the characters that were unread where it was noticed;
only the report on the whole text turns that into a number of bytes.

## Main results

* `readFieldType_length_lt`: a field type takes at least one character, so that a list of them
  ends.
* `FieldDescriptor.ofString_eq_ok_iff`, `MethodDescriptor.ofString_eq_ok_iff`: a text is
  accepted exactly when the reader accepts its characters.
-/

namespace Linkage

namespace Descriptor

/-- A fault where what is unread marks the place. -/
abbrev Fault := DescriptorFault (List Char)

/-- Reads a primitive letter, or a class name with its `L` and its semicolon. The name goes up to
the first semicolon. -/
def readBase : List Char → Except Fault (BaseType × List Char)
  | [] => .error (.unexpectedChar [])
  | c :: rest =>
    if c = 'L' then
      match rest.dropWhile (· != ';'), rest.takeWhile (· != ';') with
      | [], _ => .error .unterminatedClassName
      | _ :: _, [] => .error (.unexpectedChar rest)
      | _ :: after, name => .ok (.object (String.ofList name), after)
    else
      match Primitive.ofLetter? c with
      | none => .error (.unexpectedChar (c :: rest))
      | some p => .ok (.primitive p, rest)

/-- Reads one field type, or a plain `V`, which the callers refuse where it does not belong. The
dimensions are counted before anything else is looked at. -/
def readFieldType (cs : List Char) : Except Fault (FieldDescriptor × List Char) :=
  let dimensions := (cs.takeWhile (· == '[')).length
  if maxArrayDimensions < dimensions then .error .tooManyDimensions
  else
    match readBase (cs.dropWhile (· == '[')) with
    | .error e => .error e
    | .ok (base, rest) =>
      if base = .primitive .void ∧ 0 < dimensions then .error .voidNotAllowed
      else .ok (⟨dimensions, base⟩, rest)

/-- What is left when characters are dropped is not longer. -/
theorem length_dropWhile_le (f : Char → Bool) (cs : List Char) :
    (cs.dropWhile f).length ≤ cs.length :=
  (List.dropWhile_sublist f).length_le

/-- Reading a base type takes at least one character. -/
theorem readBase_length_lt {cs rest : List Char} {b : BaseType}
    (h : readBase cs = .ok (b, rest)) : rest.length < cs.length := by
  cases cs with
  | nil => simp [readBase] at h
  | cons c tail =>
    have hname := length_dropWhile_le (· != ';') tail
    rw [readBase] at h
    split at h
    · split at h
      · simp at h
      · simp at h
      · next hafter _ =>
        rw [hafter, List.length_cons] at hname
        simp only [Except.ok.injEq, Prod.mk.injEq] at h
        rw [← h.2, List.length_cons]
        omega
    · split at h
      · simp at h
      · simp only [Except.ok.injEq, Prod.mk.injEq] at h
        rw [← h.2, List.length_cons]
        omega

/-- Reading a field type takes at least one character. -/
theorem readFieldType_length_lt {cs rest : List Char} {d : FieldDescriptor}
    (h : readFieldType cs = .ok (d, rest)) : rest.length < cs.length := by
  have hdrop := length_dropWhile_le (· == '[') cs
  simp only [readFieldType] at h
  split at h
  · simp at h
  · split at h
    · simp at h
    · next hbase =>
      have hlt := readBase_length_lt hbase
      split at h
      · simp at h
      · simp only [Except.ok.injEq, Prod.mk.injEq] at h
        rw [← h.2]
        omega

/-- Reads field types up to a closing parenthesis, and the parenthesis. -/
def readParams (cs : List Char) : Except Fault (List FieldDescriptor × List Char) :=
  match cs with
  | [] => .error .missingParameterList
  | c :: rest =>
    if c = ')' then .ok ([], rest)
    else
      match h : readFieldType (c :: rest) with
      | .error e => .error e
      | .ok (d, after) =>
        if d.isVoid then .error .voidNotAllowed
        else
          have := readFieldType_length_lt h
          match readParams after with
          | .error e => .error e
          | .ok (ds, remaining) => .ok (d :: ds, remaining)
termination_by cs.length
decreasing_by exact this

/-- Reads a whole text as a field type. -/
def readField (cs : List Char) : Except Fault FieldDescriptor :=
  match cs with
  | [] => .error .empty
  | _ :: _ =>
    match readFieldType cs with
    | .error e => .error e
    | .ok (d, rest) =>
      if d.isVoid then .error .voidNotAllowed
      else if rest = [] then .ok d
      else .error (.trailingInput rest)

/-- Reads a whole text as a method type. -/
def readMethod (cs : List Char) : Except Fault MethodDescriptor :=
  match cs with
  | [] => .error .empty
  | c :: rest =>
    if c = '(' then
      match readParams rest with
      | .error e => .error e
      | .ok (params, after) =>
        match readFieldType after with
        | .error e => .error e
        | .ok (ret, remaining) =>
          if remaining = [] then .ok ⟨params, ret⟩
          else .error (.trailingInput remaining)
    else .error .missingParameterList

/-- The report on a fault in a text: a place is given as the number of bytes before it. -/
def report (text : String) (e : Fault) : DescriptorError where
  descriptor := text
  fault := e.map fun unread => Text.utf8Length text.toList - Text.utf8Length unread

end Descriptor

namespace FieldDescriptor

/-- The field type that a text is. -/
def ofString (text : String) : Except DescriptorError FieldDescriptor :=
  match Descriptor.readField text.toList with
  | .ok d => .ok d
  | .error e => .error (Descriptor.report text e)

/-- The accepted texts are those that the reader accepts. -/
theorem ofString_eq_ok_iff {text : String} {d : FieldDescriptor} :
    ofString text = .ok d ↔ Descriptor.readField text.toList = .ok d := by
  rw [ofString]
  cases Descriptor.readField text.toList <;> simp

end FieldDescriptor

namespace MethodDescriptor

/-- The method type that a text is. -/
def ofString (text : String) : Except DescriptorError MethodDescriptor :=
  match Descriptor.readMethod text.toList with
  | .ok d => .ok d
  | .error e => .error (Descriptor.report text e)

/-- The accepted texts are those that the reader accepts. -/
theorem ofString_eq_ok_iff {text : String} {d : MethodDescriptor} :
    ofString text = .ok d ↔ Descriptor.readMethod text.toList = .ok d := by
  rw [ofString]
  cases Descriptor.readMethod text.toList <;> simp

end MethodDescriptor

end Linkage
