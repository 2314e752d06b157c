import Linkage.Descriptor
import Linkage.Text.Offsets

/-!
# Reading Descriptors by Offset

The readers once more, for a text that is looked at byte by byte. A reader is given the offset to
start at and returns the one that it got to. A class name is found by cutting the text after its `L`
and looking for a semicolon in what follows; asking for a cut where there is none breaks reading
off, which is told apart from a fault in the descriptor.

## Main definitions

* `fieldTypeAt`, `paramsAt`: the readers of the parts of a text.
* `FieldDescriptor.byOffset`, `MethodDescriptor.byOffset`: the readers of a whole text.
-/

namespace Linkage

namespace Descriptor

/-- Why reading by offsets ends early: a fault in the descriptor, or an offset at which the text
cannot be cut. -/
inductive Stop
  | fault (fault : DescriptorFault Nat)
  | noCut (offset : Nat)
deriving DecidableEq, Repr

/-- The primitive type that the byte of a letter stands for. -/
def primitiveOfByte? (b : UInt8) : Option Primitive :=
  Primitive.all.find? fun p => Text.asciiByte p.letter == b

/-- Where the brackets end that are at an offset. -/
def bracketsEnd (text : List Char) (offset : Nat) : Nat :=
  if h : Text.byteAt? offset text = some (Text.asciiByte '[') then bracketsEnd text (offset + 1)
  else offset
termination_by Text.utf8Length text - offset
decreasing_by
  have := Text.lt_of_byteAt? h
  omega

/-- The class between the `L` before an offset and the next semicolon, with the offset after it. -/
def classAt (text : List Char) (start : Nat) : Except Stop (BaseType × Nat) :=
  match Text.cut? start text with
  | none => .error (.noCut start)
  | some (_, tail) =>
    match Text.offsetOf? ';' tail with
    | none => .error (.fault .unterminatedClassName)
    | some length =>
      if length = 0 then .error (.fault (.unexpectedChar start))
      else
        match Text.slice? start (start + length) text with
        | none => .error (.noCut (start + length))
        | some name => .ok (.object (String.ofList name), start + length + 1)

/-- The base type at an offset, with the offset after it. -/
def baseAt (text : List Char) (offset : Nat) : Except Stop (BaseType × Nat) :=
  match Text.byteAt? offset text with
  | none => .error (.fault (.unexpectedChar offset))
  | some tag =>
    if tag = Text.asciiByte 'L' then classAt text (offset + 1)
    else
      match primitiveOfByte? tag with
      | none => .error (.fault (.unexpectedChar offset))
      | some p => .ok (.primitive p, offset + 1)

/-- The field type at an offset, or a plain `V`, with the offset after it. -/
def fieldTypeAt (text : List Char) (start : Nat) : Except Stop (FieldDescriptor × Nat) :=
  let offset := bracketsEnd text start
  let dimensions := offset - start
  if maxArrayDimensions < dimensions then .error (.fault .tooManyDimensions)
  else
    match baseAt text offset with
    | .error e => .error e
    | .ok (base, stop) =>
      if base = .primitive .void ∧ 0 < dimensions then .error (.fault .voidNotAllowed)
      else .ok (⟨dimensions, base⟩, stop)

/-- The brackets end no earlier than they begin. -/
theorem le_bracketsEnd (text : List Char) (offset : Nat) : offset ≤ bracketsEnd text offset := by
  fun_induction bracketsEnd text offset with
  | case1 offset _ ih => omega
  | case2 => exact Nat.le_refl _

/-- A class ends after the offset that its name starts at. -/
theorem lt_of_classAt {text : List Char} {start stop : Nat} {base : BaseType}
    (h : classAt text start = .ok (base, stop)) : start < stop := by
  rw [classAt] at h
  split at h
  · cases h
  · split at h
    · cases h
    · split at h
      · cases h
      · split at h
        · cases h
        · cases h
          omega

/-- A base type ends after the offset that it starts at. -/
theorem lt_of_baseAt {text : List Char} {offset stop : Nat} {base : BaseType}
    (h : baseAt text offset = .ok (base, stop)) : offset < stop := by
  rw [baseAt] at h
  split at h
  · cases h
  · split at h
    · exact Nat.lt_of_succ_lt (lt_of_classAt h)
    · split at h
      · cases h
      · cases h
        omega

/-- A field type ends after the offset that it starts at. -/
theorem lt_of_fieldTypeAt {text : List Char} {start stop : Nat} {d : FieldDescriptor}
    (h : fieldTypeAt text start = .ok (d, stop)) : start < stop := by
  have hle := le_bracketsEnd text start
  simp only [fieldTypeAt] at h
  split at h
  · cases h
  · split at h
    · cases h
    · next hbase =>
      have hlt := lt_of_baseAt hbase
      split at h
      · cases h
      · cases h
        omega

/-- The field types from an offset up to a closing parenthesis, with the offset after it. -/
def paramsAt (text : List Char) (offset : Nat) : Except Stop (List FieldDescriptor × Nat) :=
  match hbyte : Text.byteAt? offset text with
  | none => .error (.fault .missingParameterList)
  | some tag =>
    if tag = Text.asciiByte ')' then .ok ([], offset + 1)
    else
      match h : fieldTypeAt text offset with
      | .error e => .error e
      | .ok (d, next) =>
        if d.isVoid then .error (.fault .voidNotAllowed)
        else
          have := Text.lt_of_byteAt? hbyte
          have := lt_of_fieldTypeAt h
          match paramsAt text next with
          | .error e => .error e
          | .ok (ds, stop) => .ok (d :: ds, stop)
termination_by Text.utf8Length text - offset
decreasing_by omega

end Descriptor

open Descriptor

/-- Reads a whole text as a field type, by its bytes. -/
def FieldDescriptor.byOffset (text : List Char) : Except Stop FieldDescriptor :=
  if text = [] then .error (.fault .empty)
  else
    match fieldTypeAt text 0 with
    | .error e => .error e
    | .ok (d, stop) =>
      if d.isVoid then .error (.fault .voidNotAllowed)
      else if stop ≠ Text.utf8Length text then .error (.fault (.trailingInput stop))
      else .ok d

/-- Reads a whole text as a method type, by its bytes. -/
def MethodDescriptor.byOffset (text : List Char) : Except Stop MethodDescriptor :=
  if text = [] then .error (.fault .empty)
  else if text.head? ≠ some '(' then .error (.fault .missingParameterList)
  else
    match paramsAt text 1 with
    | .error e => .error e
    | .ok (params, offset) =>
      if Text.utf8Length text ≤ offset then .error (.fault (.unexpectedChar offset))
      else
        match fieldTypeAt text offset with
        | .error e => .error e
        | .ok (ret, stop) =>
          if stop ≠ Text.utf8Length text then .error (.fault (.trailingInput stop))
          else .ok ⟨params, ret⟩

end Linkage
