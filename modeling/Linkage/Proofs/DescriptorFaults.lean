import Mathlib.Control.Monad.Basic
import Linkage.Proofs.DescriptorOffsets

/-!
# Where a Descriptor Goes Wrong

The place in a report is the first one at which a descriptor is wrong. Up to an unexpected
character the text can still be completed to a descriptor, and with that character it cannot,
whatever follows; up to trailing input it is a descriptor already.

A reader decides as it goes: where it meets an unexpected character it has looked at nothing beyond.
So it goes wrong there with any other continuation, and this is carried from the base type up to the
whole text along with one way to complete what was read so far.

## Main definitions

* `GoesWrong`: at a place, a reader can be satisfied up to there but not past the next character.
* `Locates`: what the place in a report says of the text.

## Main results

* `readBase_unexpectedChar`, `readFieldType_unexpectedChar`, `readParams_unexpectedChar`: the
  readers of the parts of a text.
* `readField_unexpectedChar`, `readMethod_unexpectedChar`, `readField_trailingInput`,
  `readMethod_trailingInput`: the readers of a whole text.
* `reports_locate`: every report is right about its place, and no reader leaves the text.
-/

namespace Linkage

namespace Descriptor

variable {α : Type}

/-- After `done` a reader goes wrong at `rest`: what is done could have been completed to what is
written, and with the next character the reader stops there, whatever comes after it. -/
structure GoesWrong (read : List Char → Except Fault α) (written : List Char → Prop)
    (done rest : List Char) : Prop where
  viable : ∃ more, written (done ++ more)
  stops : ∀ c tail, rest = c :: tail → ∀ other,
    read (done ++ c :: other) = .error (.unexpectedChar (c :: other))

/-! ### The parts of a text -/

/-- The texts of base types other than `void`. -/
def IsBaseText (cs : List Char) : Prop :=
  ∃ b : BaseType, cs = b.render ∧ b.Writable ∧ b ≠ .primitive .void

/-- The texts of field types. -/
def IsFieldText (cs : List Char) : Prop := ∃ d : FieldDescriptor, cs = d.render ∧ d.IsFieldType

/-- The texts of lists of parameters, with the parenthesis that closes them. -/
def IsParamsText (cs : List Char) : Prop :=
  ∃ ds : List FieldDescriptor,
    cs = ds.flatMap FieldDescriptor.render ++ [')'] ∧ ∀ d ∈ ds, d.IsFieldType

/-- A primitive type is a text without brackets. -/
theorem isBaseText_int : IsBaseText ['I'] := ⟨.primitive .int, rfl, trivial, nofun⟩

/-- A class type is a text without brackets. -/
theorem isBaseText_class : IsBaseText ['L', 'a', ';'] :=
  ⟨.object "a", rfl, ⟨by decide, by decide⟩, nofun⟩

/-- Brackets before a base type make a field type. -/
theorem IsBaseText.brackets {cs : List Char} (h : IsBaseText cs) {n : Nat}
    (hn : n ≤ maxArrayDimensions) : IsFieldText (List.replicate n '[' ++ cs) := by
  obtain ⟨b, rfl, hwritable, hvoid⟩ := h
  refine ⟨⟨n, b⟩, rfl, hn, ?_⟩
  cases b with
  | primitive p =>
      rintro rfl
      exact hvoid rfl
  | object name => exact hwritable

/-- **A base type** goes wrong at its first character, or right after its `L`. -/
theorem readBase_unexpectedChar {cs rest : List Char}
    (h : readBase cs = .error (.unexpectedChar rest)) :
    ∃ done, cs = done ++ rest ∧ GoesWrong readBase IsBaseText done rest := by
  cases cs with
  | nil =>
      cases h
      exact ⟨[], rfl, ⟨_, isBaseText_int⟩, nofun⟩
  | cons c tail =>
      rw [readBase] at h
      split at h
      · next hL =>
        subst hL
        split at h
        · cases h
        · next semicolon after hafter hname =>
          cases h
          refine ⟨['L'], rfl, ⟨['a', ';'], isBaseText_class⟩, ?_⟩
          rintro c tail rfl other
          obtain rfl : c = ';' := by
            rw [List.takeWhile_cons] at hname
            split at hname
            · cases hname
            · next hc => simpa using hc
          rw [List.singleton_append, readBase, if_pos rfl,
            List.dropWhile_cons_of_neg (by simp), List.takeWhile_cons_of_neg (by simp)]
        · cases h
      · next hL =>
        split at h
        · next hp =>
          cases h
          refine ⟨[], rfl, ⟨_, isBaseText_int⟩, ?_⟩
          rintro c tail heq other
          cases heq
          rw [List.nil_append, readBase, if_neg hL, hp]
        · cases h

/-- What the first character of a text is does not depend on what comes after it. -/
theorem head?_append_cons (done : List Char) (c : Char) (tail other : List Char) :
    (done ++ c :: tail).head? = (done ++ c :: other).head? := by
  cases done <;> rfl

/-- Brackets are read up to the first other character. -/
theorem readFieldType_of_base_error {n : Nat} {cs : List Char} {e : Fault}
    (hn : n ≤ maxArrayDimensions) (hcs : cs.head? ≠ some '[') (h : readBase cs = .error e) :
    readFieldType (List.replicate n '[' ++ cs) = .error e := by
  have hbrackets : ∀ c ∈ List.replicate n '[', (c == '[') = true := by
    intro c hc
    rw [List.eq_of_mem_replicate hc, beq_self_eq_true]
  have hnone : cs.takeWhile (· == '[') = [] ∧ cs.dropWhile (· == '[') = cs := by
    cases cs with
    | nil => exact ⟨rfl, rfl⟩
    | cons c tail =>
        have hc : ¬ (c == '[') = true := by simpa using hcs
        exact ⟨List.takeWhile_cons_of_neg hc, List.dropWhile_cons_of_neg hc⟩
  simp only [readFieldType, List.takeWhile_append_of_pos hbrackets,
    List.dropWhile_append_of_pos hbrackets, hnone.1, hnone.2, List.append_nil,
    List.length_replicate, if_neg (Nat.not_lt.2 hn), h]

/-- **A field type** goes wrong where its base type does. -/
theorem readFieldType_unexpectedChar {cs rest : List Char}
    (h : readFieldType cs = .error (.unexpectedChar rest)) :
    ∃ done, cs = done ++ rest ∧ GoesWrong readFieldType IsFieldText done rest := by
  simp only [readFieldType] at h
  split at h
  · cases h
  · next hle =>
    have hn := Nat.not_lt.1 hle
    split at h
    · next hbase =>
      cases h
      obtain ⟨done, hsplit, ⟨more, hmore⟩, hstops⟩ := readBase_unexpectedChar hbase
      refine ⟨List.replicate (cs.takeWhile (· == '[')).length '[' ++ done, ?_, ⟨more, ?_⟩, ?_⟩
      · rw [List.append_assoc, ← hsplit, brackets_append]
      · rw [List.append_assoc]
        exact hmore.brackets hn
      · rintro c tail rfl other
        rw [List.append_assoc]
        refine readFieldType_of_base_error hn ?_ (hstops c tail rfl other)
        rw [head?_append_cons done c other tail, ← hsplit]
        have hhead := List.head?_dropWhile_not (· == '[') cs
        intro hbracket
        rw [hbracket] at hhead
        simp at hhead
    · split at h <;> cases h

/-- A parameter that cannot be read ends the list. -/
theorem readParams_of_error {c : Char} {tail : List Char} {e : Fault} (hc : c ≠ ')')
    (h : readFieldType (c :: tail) = .error e) : readParams (c :: tail) = .error e := by
  rw [readParams, if_neg hc]
  split
  · next heq =>
    cases heq.symm.trans h
    rfl
  · next heq => cases h.symm.trans heq

/-- **A list of parameters** goes wrong where one of them does. The induction is on the reader: the
parameters that are read already stay readable whatever comes after them. -/
theorem readParams_unexpectedChar {cs rest : List Char}
    (h : readParams cs = .error (.unexpectedChar rest)) :
    ∃ done, cs = done ++ rest ∧ GoesWrong readParams IsParamsText done rest := by
  fun_induction readParams cs with
  | case1 => cases h
  | case2 => cases h
  | case3 c after hc e hread =>
      cases h
      obtain ⟨done, hsplit, ⟨more, d, hd, htype⟩, hstops⟩ := readFieldType_unexpectedChar hread
      refine ⟨done, hsplit, ⟨more ++ [')'], [d], ?_, by simpa using htype⟩, ?_⟩
      · rw [← List.append_assoc, hd, List.flatMap_singleton]
      · rintro c' tail rfl other
        have hhead := head?_append_cons done c' other tail
        rw [← hsplit, List.head?_cons] at hhead
        have hother := hstops c' tail rfl other
        obtain ⟨after', htext⟩ := List.head?_eq_some_iff.1 hhead
        rw [htext] at hother ⊢
        exact readParams_of_error hc hother
  | case4 => cases h
  | case5 c after hc d after' hread hvoid _ e hparams ih =>
      cases h
      obtain ⟨done, hsplit, ⟨more, ds, hds, htypes⟩, hstops⟩ := ih hparams
      obtain ⟨htext, htype⟩ := readFieldType_eq_ok_iff.1 hread
      rw [FieldDescriptor.isVoid_iff] at hvoid
      have hd : d.IsFieldType := htype.resolve_right hvoid
      refine ⟨d.render ++ done, by rw [htext, hsplit, List.append_assoc],
        ⟨more, d :: ds, ?_, List.forall_mem_cons.2 ⟨hd, htypes⟩⟩, ?_⟩
      · rw [List.append_assoc, hds, List.flatMap_cons, List.append_assoc]
      · intro c' tail htail other
        rw [List.append_assoc, readParams_param hd, hstops c' tail htail other]
        rfl
  | case6 => cases h

/-! ### Trailing input -/

/-- The reader of a base type leaves what follows to its caller. -/
theorem readBase_ne_trailingInput {cs rest : List Char} :
    readBase cs ≠ .error (.trailingInput rest) := by
  intro h
  cases cs with
  | nil => cases h
  | cons c tail =>
      rw [readBase] at h
      split at h
      · split at h <;> cases h
      · split at h <;> cases h

/-- The reader of a field type leaves what follows to its caller. -/
theorem readFieldType_ne_trailingInput {cs rest : List Char} :
    readFieldType cs ≠ .error (.trailingInput rest) := by
  intro h
  simp only [readFieldType] at h
  split at h
  · cases h
  · split at h
    · next hbase =>
      cases h
      exact readBase_ne_trailingInput hbase
    · split at h <;> cases h

/-- The reader of parameters leaves what follows to its caller. -/
theorem readParams_ne_trailingInput {cs rest : List Char} :
    readParams cs ≠ .error (.trailingInput rest) := by
  intro h
  fun_induction readParams cs with
  | case1 => cases h
  | case2 => cases h
  | case3 c after hc e hread =>
      cases h
      exact readFieldType_ne_trailingInput hread
  | case4 => cases h
  | case5 c after hc d after' hread hvoid _ e hparams ih =>
      cases h
      exact ih hparams
  | case6 => cases h

/-! ### Whole texts -/

/-- A reader accepts a text. -/
def Accepts (read : List Char → Except Fault α) (cs : List Char) : Prop := ∃ a, read cs = .ok a

/-- The reader of field types accepts the texts of field types. -/
theorem accepts_readField {cs : List Char} : Accepts readField cs ↔ IsFieldText cs :=
  exists_congr fun _ => readField_eq_ok_iff

/-- **The text of a field type** goes wrong where the type does. -/
theorem readField_unexpectedChar {cs rest : List Char}
    (h : readField cs = .error (.unexpectedChar rest)) :
    ∃ done, cs = done ++ rest ∧ GoesWrong readField (Accepts readField) done rest := by
  cases cs with
  | nil => cases h
  | cons c tail =>
      rw [readField] at h
      split at h
      · next e hread =>
        cases h
        obtain ⟨done, hsplit, ⟨more, hmore⟩, hstops⟩ := readFieldType_unexpectedChar hread
        refine ⟨done, hsplit, ⟨more, accepts_readField.2 hmore⟩, ?_⟩
        intro c' tail' htail other
        have hother := hstops c' tail' htail other
        rw [readField.eq_def, hother]
        cases done <;> rfl
      · split at h
        · cases h
        · split at h <;> cases h

/-- **Trailing input** comes after a field type. -/
theorem readField_trailingInput {cs rest : List Char}
    (h : readField cs = .error (.trailingInput rest)) :
    ∃ done, cs = done ++ rest ∧ rest ≠ [] ∧ Accepts readField done := by
  cases cs with
  | nil => cases h
  | cons c tail =>
      rw [readField] at h
      split at h
      · next hread =>
        cases h
        exact absurd hread readFieldType_ne_trailingInput
      · next d after hread =>
        obtain ⟨htext, htype⟩ := readFieldType_eq_ok_iff.1 hread
        split at h
        · cases h
        · next hvoid =>
          rw [FieldDescriptor.isVoid_iff] at hvoid
          split at h
          · cases h
          · next hrest =>
            cases h
            exact ⟨d.render, htext, hrest,
              accepts_readField.2 ⟨d, rfl, htype.resolve_right hvoid⟩⟩

/-- After a complete list of parameters the return type is next. -/
theorem readMethod_ret {ds : List FieldDescriptor} (hds : ∀ d ∈ ds, d.IsFieldType)
    (after : List Char) :
    readMethod ('(' :: (ds.flatMap FieldDescriptor.render ++ ')' :: after)) =
      match readFieldType after with
      | .error e => .error e
      | .ok (ret, remaining) =>
        if remaining = [] then .ok ⟨ds, ret⟩ else .error (.trailingInput remaining) := by
  have hparams : readParams (ds.flatMap FieldDescriptor.render ++ ')' :: after) = .ok (ds, after) :=
    readParams_eq_ok_iff.2 ⟨rfl, hds⟩
  rw [readMethod, if_pos rfl]
  exact hparams ▸ rfl

/-- **The text of a method type** goes wrong in its parameters or in its return type. -/
theorem readMethod_unexpectedChar {cs rest : List Char}
    (h : readMethod cs = .error (.unexpectedChar rest)) :
    ∃ done, cs = done ++ rest ∧ GoesWrong readMethod (Accepts readMethod) done rest := by
  cases cs with
  | nil => cases h
  | cons c tail =>
      rw [readMethod] at h
      split at h
      · next hopen =>
        subst hopen
        split at h
        · next hparams =>
          cases h
          obtain ⟨done, rfl, ⟨more, ds, hds, htypes⟩, hstops⟩ := readParams_unexpectedChar hparams
          refine ⟨'(' :: done, rfl,
            ⟨more ++ ['V'], ⟨ds, .void⟩, readMethod_eq_ok_iff.2 ⟨?_, ?_⟩⟩, ?_⟩
          · rw [List.cons_append, ← List.append_assoc, hds, List.append_assoc]
            rfl
          · exact ⟨htypes, .inr rfl⟩
          · intro c' tail' htail other
            simp only [List.cons_append, readMethod, if_true, hstops c' tail' htail other]
        · next ds after hparams =>
          obtain ⟨rfl, htypes⟩ := readParams_eq_ok_iff.1 hparams
          split at h
          · next hret =>
            cases h
            obtain ⟨done, rfl, ⟨more, d, hd, htype⟩, hstops⟩ := readFieldType_unexpectedChar hret
            refine ⟨'(' :: (ds.flatMap FieldDescriptor.render ++ ')' :: done), ?_,
              ⟨more, ⟨ds, d⟩, readMethod_eq_ok_iff.2 ⟨?_, htypes, .inl htype⟩⟩, ?_⟩
            · simp only [List.cons_append, List.append_assoc]
            · simp only [List.cons_append, List.append_assoc, MethodDescriptor.render, hd]
            · intro c' tail' htail other
              simp only [List.cons_append, List.append_assoc, readMethod_ret htypes,
                hstops c' tail' htail other]
          · split at h <;> cases h
      · cases h

/-- **Trailing input** comes after a method type. -/
theorem readMethod_trailingInput {cs rest : List Char}
    (h : readMethod cs = .error (.trailingInput rest)) :
    ∃ done, cs = done ++ rest ∧ rest ≠ [] ∧ Accepts readMethod done := by
  cases cs with
  | nil => cases h
  | cons c tail =>
      rw [readMethod] at h
      split at h
      · next hopen =>
        subst hopen
        split at h
        · next hparams =>
          cases h
          exact absurd hparams readParams_ne_trailingInput
        · next ds after hparams =>
          obtain ⟨rfl, htypes⟩ := readParams_eq_ok_iff.1 hparams
          split at h
          · next hret =>
            cases h
            exact absurd hret readFieldType_ne_trailingInput
          · next ret remaining hret =>
            obtain ⟨rfl, htype⟩ := readFieldType_eq_ok_iff.1 hret
            split at h
            · cases h
            · next hrest =>
              cases h
              refine ⟨MethodDescriptor.render ⟨ds, ret⟩, ?_, hrest, ⟨ds, ret⟩,
                readMethod_eq_ok_iff.2 ⟨rfl, htypes, htype⟩⟩
              simp only [MethodDescriptor.render, List.cons_append, List.append_assoc]
      · cases h

/-! ### Reports -/

/-- A text that can be completed to an accepted one. -/
def Viable (accepts : String → Prop) (text : String) : Prop := ∃ more, accepts (text ++ more)

/-- What the place in a report says of the text. It is within the text and between two characters.
At trailing input, more follows an accepted text. At an unexpected character, what is before it is
viable, and no longer so with the next character, if there is one. -/
def Locates (accepts : String → Prop) (text : String) : DescriptorFault Nat → Prop
  | .unexpectedChar n =>
    n ≤ text.utf8ByteSize ∧ (⟨n⟩ : String.Pos.Raw).IsValid text ∧
      ∃ before after, text = before ++ after ∧ before.utf8ByteSize = n ∧ Viable accepts before ∧
        ∀ c more, after = String.singleton c ++ more →
          ¬ Viable accepts (before ++ String.singleton c)
  | .trailingInput n =>
    n < text.utf8ByteSize ∧ (⟨n⟩ : String.Pos.Raw).IsValid text ∧
      ∃ before after, text = before ++ after ∧ before.utf8ByteSize = n ∧ accepts before
  | _ => True

/-- The place where a text can be split into characters that are done and characters that are not.
-/
theorem place_spec {text : String} {done rest : List Char} (h : text.toList = done ++ rest) :
    text = String.ofList done ++ String.ofList rest ∧
      (String.ofList done).utf8ByteSize =
        Text.utf8Length text.toList - Text.utf8Length rest ∧
      (⟨Text.utf8Length text.toList - Text.utf8Length rest⟩ : String.Pos.Raw).IsValid text := by
  refine ⟨?_, ?_, ?_⟩
  · rw [← String.toList_inj, String.toList_append, String.toList_ofList, String.toList_ofList, h]
  · rw [h, utf8Length_append_sub, ← Text.utf8Length_toList, String.toList_ofList]
  · rw [← Text.isSome_cut?_iff, h, utf8Length_append_sub, Text.cut?_append]
    rfl

/-- A report is right about its place if the reader goes wrong there. -/
theorem locates_report {read : List Char → Except Fault α} {text : String} {e : Fault}
    (hchar : ∀ rest, e = .unexpectedChar rest →
      ∃ done, text.toList = done ++ rest ∧ GoesWrong read (Accepts read) done rest)
    (htrailing : ∀ rest, e = .trailingInput rest →
      ∃ done, text.toList = done ++ rest ∧ rest ≠ [] ∧ Accepts read done) :
    Locates (fun s => Accepts read s.toList) text (report text e).fault := by
  cases e with
  | unexpectedChar rest =>
      obtain ⟨done, hsplit, ⟨more, hmore⟩, hstops⟩ := hchar rest rfl
      obtain ⟨htext, hsize, hvalid⟩ := place_spec hsplit
      refine ⟨?_, hvalid, String.ofList done, String.ofList rest, htext, hsize,
        ⟨String.ofList more, ?_⟩, ?_⟩
      · rw [← Text.utf8Length_toList]
        exact Nat.sub_le _ _
      · simp only [String.toList_append, String.toList_ofList]
        exact hmore
      · rintro c tail htail ⟨other, a, hother⟩
        have hrest : rest = c :: tail.toList := by
          rw [← String.toList_inj, String.toList_ofList, String.toList_append,
            String.toList_singleton] at htail
          exact htail
        have hwrong := hstops c tail.toList hrest other.toList
        simp only [String.toList_append, String.toList_ofList, String.toList_singleton,
          List.append_assoc, List.singleton_append, hwrong] at hother
        cases hother
  | trailingInput rest =>
      obtain ⟨done, hsplit, hne, haccepts⟩ := htrailing rest rfl
      obtain ⟨htext, hsize, hvalid⟩ := place_spec hsplit
      refine ⟨?_, hvalid, String.ofList done, String.ofList rest, htext, hsize, ?_⟩
      · have hpos := mt Text.utf8Length_eq_zero_iff.1 hne
        change Text.utf8Length text.toList - Text.utf8Length rest < _
        rw [← Text.utf8Length_toList, hsplit, Text.utf8Length_append]
        omega
      · simp only [String.toList_ofList]
        exact haccepts
  | empty => exact trivial
  | unterminatedClassName => exact trivial
  | tooManyDimensions => exact trivial
  | voidNotAllowed => exact trivial
  | missingParameterList => exact trivial

/-- **Reports point at the first wrong place.** The place in a report on a field or a method type is
within the text and between two characters; what is before it is a descriptor if the fault is
trailing input, and else the beginning of one, but with the next character of none. The readers that
go by offsets agree with all this, and never cut a text where it cannot be cut. -/
theorem reports_locate (text : String) :
    (∀ e, FieldDescriptor.ofString text = .error e →
      Locates (fun s => ∃ d, FieldDescriptor.ofString s = .ok d) text e.fault ∧
        FieldDescriptor.byOffset text.toList = .error (.fault e.fault)) ∧
    (∀ e, MethodDescriptor.ofString text = .error e →
      Locates (fun s => ∃ d, MethodDescriptor.ofString s = .ok d) text e.fault ∧
        MethodDescriptor.byOffset text.toList = .error (.fault e.fault)) ∧
    (∀ n, FieldDescriptor.byOffset text.toList ≠ .error (.noCut n)) ∧
    ∀ n, MethodDescriptor.byOffset text.toList ≠ .error (.noCut n) := by
  refine ⟨fun e he => ⟨?_, ?_⟩, fun e he => ⟨?_, ?_⟩, fun n => ?_, fun n => ?_⟩
  · simp only [FieldDescriptor.ofString_eq_ok_iff]
    rw [FieldDescriptor.ofString] at he
    split at he
    · cases he
    · next fault hread =>
      cases he
      refine locates_report (fun rest h => ?_) fun rest h => ?_
      · exact readField_unexpectedChar (h ▸ hread)
      · exact readField_trailingInput (h ▸ hread)
  · rw [FieldDescriptor.byOffset_eq_ofString, he]
  · simp only [MethodDescriptor.ofString_eq_ok_iff]
    rw [MethodDescriptor.ofString] at he
    split at he
    · cases he
    · next fault hread =>
      cases he
      refine locates_report (fun rest h => ?_) fun rest h => ?_
      · exact readMethod_unexpectedChar (h ▸ hread)
      · exact readMethod_trailingInput (h ▸ hread)
  · rw [MethodDescriptor.byOffset_eq_ofString, he]
  · rw [FieldDescriptor.byOffset_eq_ofString]
    intro h
    split at h <;> cases h
  · rw [MethodDescriptor.byOffset_eq_ofString]
    intro h
    split at h <;> cases h

/-- A class name is empty behind one that takes more bytes than characters, and a primitive type has
something after it: both are found where they are. -/
theorem reports_locate_empty_name :
    MethodDescriptor.ofString "([Lé;[[L;)V" = .error ⟨"([Lé;[[L;)V", .unexpectedChar 9⟩ ∧
    Locates (fun s => ∃ d, MethodDescriptor.ofString s = .ok d) "([Lé;[[L;)V" (.unexpectedChar 9) ∧
    FieldDescriptor.ofString "[IV" = .error ⟨"[IV", .trailingInput 2⟩ ∧
    Locates (fun s => ∃ d, FieldDescriptor.ofString s = .ok d) "[IV" (.trailingInput 2) := by
  have hmethod : MethodDescriptor.ofString "([Lé;[[L;)V" =
      .error ⟨"([Lé;[[L;)V", .unexpectedChar 9⟩ := by decide +kernel
  have hfield : FieldDescriptor.ofString "[IV" = .error ⟨"[IV", .trailingInput 2⟩ := by
    decide +kernel
  exact ⟨hmethod, ((reports_locate _).2.1 _ hmethod).1, hfield, ((reports_locate _).1 _ hfield).1⟩

end Descriptor

end Linkage
