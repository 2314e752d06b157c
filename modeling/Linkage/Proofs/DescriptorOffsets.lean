import Linkage.Descriptor.ByOffset
import Linkage.Proofs.DescriptorGrammar

/-!
# Reading by Offset and by What Is Unread

The two readers of descriptors agree. Everywhere in a text, what is read at an offset is what is
read from the characters that follow there, and the offset that is returned is the number of bytes
before the characters that are left. So a text is cut only where it can be: right after an `L`, and
around characters up to a semicolon.

The text is given as what is done and what is to come, so that an offset is the length of what is
done; each step of a reader takes some characters over from one to the other.

## Main definitions

* `placed`: what a reader returns, with offsets in place of what is unread.

## Main results

* `fieldTypeAt_append`, `paramsAt_append`: the readers of the parts of a text agree.
* `FieldDescriptor.byOffset_eq_ofString`, `MethodDescriptor.byOffset_eq_ofString`: the readers of a
  whole text agree, and no cut is ever missed.
-/

namespace Linkage

namespace Descriptor

open Text (utf8Length)

variable {α : Type}

/-- What a reader returns, with the offset of what is unread in place of it. -/
def placed (text : List Char) : Except Fault (α × List Char) → Except Stop (α × Nat)
  | .ok (a, rest) => .ok (a, utf8Length text - utf8Length rest)
  | .error e => .error (.fault (e.map fun unread => utf8Length text - utf8Length unread))

/-- The offset of what is unread is the length of what is done. -/
theorem utf8Length_append_sub (done rest : List Char) :
    utf8Length (done ++ rest) - utf8Length rest = utf8Length done := by
  rw [Text.utf8Length_append]
  omega

/-- A character of one byte makes a text longer by one byte. -/
theorem utf8Length_append_singleton {c : Char} (hc : c.utf8Size = 1) (done : List Char) :
    utf8Length (done ++ [c]) = utf8Length done + 1 := by
  rw [Text.utf8Length_append, Text.utf8Length_cons, Text.utf8Length_nil, hc]

/-- One character more is done. -/
theorem append_cons_assoc (done : List Char) (c : Char) (rest : List Char) :
    done ++ c :: rest = (done ++ [c]) ++ rest := by
  rw [List.append_assoc, List.singleton_append]

/-- Brackets take one byte each. -/
theorem utf8Length_replicate (n : Nat) : utf8Length (List.replicate n '[') = n := by
  induction n with
  | zero => rfl
  | succ n ih =>
      rw [List.replicate_succ, Text.utf8Length_cons, ih, Nat.add_comm]
      rfl

/-! ### The parts of a text -/

/-- The brackets at an offset end after as many bytes as there are brackets. -/
theorem bracketsEnd_append (done rest : List Char) :
    bracketsEnd (done ++ rest) (utf8Length done) =
      utf8Length done + (rest.takeWhile (· == '[')).length := by
  induction rest generalizing done with
  | nil =>
      rw [bracketsEnd, dif_neg (by rw [Text.byteAt?_append_nil]; nofun)]
      rfl
  | cons c rest ih =>
      obtain ⟨b, hb, hbyte⟩ := Text.exists_byteAt? done c rest
      have hbracket := hbyte '[' (by decide)
      rw [bracketsEnd]
      simp only [hb, Option.some.injEq, hbracket]
      by_cases hc : c = '['
      · subst hc
        have hone := utf8Length_append_singleton (c := '[') rfl done
        rw [dif_pos rfl, append_cons_assoc, ← hone, ih, hone,
          List.takeWhile_cons_of_pos (by decide), List.length_cons]
        omega
      · rw [dif_neg hc, List.takeWhile_cons_of_neg (by simpa using hc)]
        rfl

/-- Where a name is cut out, its semicolon is the first one. -/
theorem classAt_append (done tail : List Char) :
    classAt (done ++ ['L'] ++ tail) (utf8Length (done ++ ['L'])) =
      placed (done ++ ['L'] ++ tail) (readBase ('L' :: tail)) := by
  have hsplit := List.takeWhile_append_dropWhile (p := (· != ';')) (l := tail)
  rw [classAt, Text.cut?_append, readBase, if_pos rfl]
  simp only [Text.offsetOf?_eq]
  cases hafter : tail.dropWhile (· != ';') with
  | nil =>
      have hnone : ';' ∉ tail := by
        rw [hafter, List.append_nil] at hsplit
        rw [← hsplit]
        intro hmem
        simpa using List.all_eq_true.1 List.all_takeWhile _ hmem
      rw [if_neg hnone]
      rfl
  | cons semicolon after =>
      have hhead := List.head?_dropWhile_not (· != ';') tail
      rw [hafter] at hhead hsplit
      obtain rfl : semicolon = ';' := by simpa using hhead
      have hmem : ';' ∈ tail := by
        rw [← hsplit]
        exact List.mem_append_right _ List.mem_cons_self
      rw [if_pos hmem]
      simp only [Text.utf8Length_eq_zero_iff]
      cases hname : tail.takeWhile (· != ';') with
      | nil =>
          rw [if_pos rfl]
          simp only [placed, DescriptorFault.map, utf8Length_append_sub]
      | cons c cs =>
          rw [hname] at hsplit
          have hslice := Text.slice?_append (done ++ ['L']) (c :: cs) (';' :: after)
          rw [hsplit] at hslice
          simp only [if_neg (List.cons_ne_nil c cs), hslice, placed]
          rw [← hsplit, append_cons_assoc (c :: cs), ← List.append_assoc, utf8Length_append_sub,
            ← List.append_assoc, utf8Length_append_singleton (c := ';') rfl,
            Text.utf8Length_append (done ++ ['L'])]

/-- The byte of a letter names what the letter names, and a byte of another character nothing. -/
theorem primitiveOfByte?_eq {b : UInt8} {c : Char}
    (h : ∀ a : Char, a.toNat < 128 → (b = Text.asciiByte a ↔ c = a)) :
    primitiveOfByte? b = Primitive.ofLetter? c := by
  rw [primitiveOfByte?, Primitive.ofLetter?]
  congr 1
  funext p
  have hletter : p.letter.toNat < 128 := by cases p <;> decide
  rw [Bool.eq_iff_iff, beq_iff_eq, beq_iff_eq, eq_comm, h p.letter hletter, eq_comm]

/-- **A base type is read alike**, wherever it is. -/
theorem baseAt_append (done rest : List Char) :
    baseAt (done ++ rest) (utf8Length done) = placed (done ++ rest) (readBase rest) := by
  cases rest with
  | nil =>
      rw [baseAt, Text.byteAt?_append_nil, readBase]
      simp only [placed, DescriptorFault.map, utf8Length_append_sub]
  | cons c rest =>
      obtain ⟨b, hb, hbyte⟩ := Text.exists_byteAt? done c rest
      simp only [baseAt, hb, hbyte 'L' (by decide), primitiveOfByte?_eq hbyte]
      by_cases hc : c = 'L'
      · subst hc
        rw [if_pos rfl, append_cons_assoc, ← utf8Length_append_singleton (c := 'L') rfl,
          classAt_append]
      · rw [if_neg hc, readBase, if_neg hc]
        cases hp : Primitive.ofLetter? c with
        | none => simp only [placed, DescriptorFault.map, utf8Length_append_sub]
        | some p =>
            have hsize : c.utf8Size = 1 := by
              rw [Primitive.ofLetter?_eq_some_iff.1 hp]
              cases p <;> rfl
            simp only [placed]
            rw [append_cons_assoc, utf8Length_append_sub, utf8Length_append_singleton hsize]

/-- **A field type is read alike**, wherever it is. -/
theorem fieldTypeAt_append (done rest : List Char) :
    fieldTypeAt (done ++ rest) (utf8Length done) = placed (done ++ rest) (readFieldType rest) := by
  have hbase := baseAt_append (done ++ List.replicate (rest.takeWhile (· == '[')).length '[')
    (rest.dropWhile (· == '['))
  rw [List.append_assoc, brackets_append, Text.utf8Length_append, utf8Length_replicate] at hbase
  simp only [fieldTypeAt, readFieldType, bracketsEnd_append, Nat.add_sub_cancel_left, hbase]
  split
  · rfl
  · cases readBase (rest.dropWhile (· == '[')) with
    | error e => rfl
    | ok p =>
        simp only [placed]
        split <;> rfl

/-- Where there is no parenthesis, a parameter is next. -/
theorem paramsAt_append_cons {c : Char} (hc : c ≠ ')') (done rest : List Char) :
    paramsAt (done ++ c :: rest) (utf8Length done) =
      (placed (done ++ c :: rest) (readFieldType (c :: rest))).bind fun param =>
        if param.1.isVoid then .error (.fault .voidNotAllowed)
        else
          (paramsAt (done ++ c :: rest) param.2).map fun params =>
            (param.1 :: params.1, params.2) := by
  obtain ⟨b, hb, hbyte⟩ := Text.exists_byteAt? done c rest
  rw [paramsAt]
  split
  · next hnone =>
    rw [hb] at hnone
    cases hnone
  · next tag htag =>
    obtain rfl : b = tag := Option.some.inj (hb.symm.trans htag)
    rw [if_neg (mt (hbyte ')' (by decide)).1 hc), ← fieldTypeAt_append]
    split
    · next hfield =>
      rw [hfield]
      rfl
    · next d next hfield =>
      simp only [hfield, Except.bind]
      cases paramsAt (done ++ c :: rest) next <;> rfl

/-- After a parameter the list goes on where the parameter ends. -/
theorem paramsAt_append_param {c : Char} {rest after : List Char} {d : FieldDescriptor}
    (hc : c ≠ ')') (hread : readFieldType (c :: rest) = .ok (d, after)) (hvoid : ¬ d.isVoid = true)
    (done : List Char) :
    paramsAt (done ++ c :: rest) (utf8Length done) =
      (paramsAt (done ++ d.render ++ after) (utf8Length (done ++ d.render))).map fun params =>
        (d :: params.1, params.2) := by
  have htext : done ++ c :: rest = done ++ d.render ++ after := by
    rw [(readFieldType_eq_ok_iff.1 hread).1, List.append_assoc]
  rw [paramsAt_append_cons hc, hread]
  simp only [placed, Except.bind, if_neg hvoid]
  rw [htext, utf8Length_append_sub]

/-- **A list of parameters is read alike**, wherever it is. The induction is on the reader, which
takes over one parameter after the other. -/
theorem paramsAt_append (done rest : List Char) :
    paramsAt (done ++ rest) (utf8Length done) = placed (done ++ rest) (readParams rest) := by
  fun_induction readParams rest generalizing done with
  | case1 =>
      rw [paramsAt]
      split
      · rfl
      · next hbyte =>
        rw [Text.byteAt?_append_nil] at hbyte
        cases hbyte
  | case2 rest =>
      obtain ⟨b, hb, hbyte⟩ := Text.exists_byteAt? done ')' rest
      rw [paramsAt]
      split
      · next hnone =>
        rw [hb] at hnone
        cases hnone
      · next tag htag =>
        obtain rfl : b = tag := Option.some.inj (hb.symm.trans htag)
        rw [if_pos ((hbyte ')' (by decide)).2 rfl), placed, append_cons_assoc,
          utf8Length_append_sub, utf8Length_append_singleton (c := ')') rfl]
  | case3 c rest hc e hread =>
      rw [paramsAt_append_cons hc, hread]
      rfl
  | case4 c rest hc d after hread hvoid =>
      rw [paramsAt_append_cons hc, hread]
      simp only [placed, Except.bind, if_pos hvoid, DescriptorFault.map]
  | case5 c rest hc d after hread hvoid _ e hparams ih =>
      rw [paramsAt_append_param hc hread hvoid, ih, hparams,
        (readFieldType_eq_ok_iff.1 hread).1, ← List.append_assoc]
      rfl
  | case6 c rest hc d after hread hvoid _ ds remaining hparams ih =>
      rw [paramsAt_append_param hc hread hvoid, ih, hparams,
        (readFieldType_eq_ok_iff.1 hread).1, ← List.append_assoc]
      rfl

/-! ### Whole texts -/

/-- Nothing is unread exactly at the end of a text. -/
theorem sub_ne_utf8Length_iff {text done rest : List Char} (h : text = done ++ rest) :
    utf8Length text - utf8Length rest ≠ utf8Length text ↔ rest ≠ [] := by
  rw [Ne, Ne, ← Text.utf8Length_eq_zero_iff, h, Text.utf8Length_append]
  omega

/-- What a reader of a whole text returns, told apart from a cut that is missed. -/
def settled : Except Fault α → Nat → Except Stop α
  | .ok a, _ => .ok a
  | .error e, length => .error (.fault (e.map fun unread => length - utf8Length unread))

/-- What stands last in a text has to end it. -/
theorem settled_last {text done rest : List Char} (h : text = done ++ rest) (a : α) :
    (if utf8Length text - utf8Length rest ≠ utf8Length text then
        .error (.fault (.trailingInput (utf8Length text - utf8Length rest)))
      else .ok a) =
      settled (if rest = [] then .ok a else .error (.trailingInput rest)) (utf8Length text) := by
  simp only [sub_ne_utf8Length_iff h]
  by_cases hrest : rest = []
  · rw [if_neg (not_not_intro hrest), if_pos hrest]
    rfl
  · rw [if_pos hrest, if_neg hrest]
    rfl

/-- **Read by offsets, a field descriptor is what it is** read character by character. -/
theorem fieldByOffset_eq (text : List Char) :
    FieldDescriptor.byOffset text = settled (readField text) (utf8Length text) := by
  cases text with
  | nil => rfl
  | cons c tail =>
      have hread := fieldTypeAt_append [] (c :: tail)
      rw [List.nil_append] at hread
      change fieldTypeAt (c :: tail) 0 = _ at hread
      rw [FieldDescriptor.byOffset, if_neg (List.cons_ne_nil c tail), readField, hread]
      cases hfield : readFieldType (c :: tail) with
      | error e => rfl
      | ok p =>
          simp only [placed]
          split
          · rfl
          · exact settled_last (readFieldType_eq_ok_iff.1 hfield).1 p.1

/-- The list of parameters ends at the end of the text exactly if nothing is unread then. -/
theorem utf8Length_le_sub_iff {text done rest : List Char} (hdone : done ≠ [])
    (h : text = done ++ rest) :
    utf8Length text ≤ utf8Length text - utf8Length rest ↔ rest = [] := by
  have hpos : utf8Length done ≠ 0 := mt Text.utf8Length_eq_zero_iff.1 hdone
  rw [← Text.utf8Length_eq_zero_iff, h, Text.utf8Length_append]
  omega

/-- The parameters begin behind the parenthesis. -/
theorem paramsAt_one (tail : List Char) :
    paramsAt ('(' :: tail) 1 = placed ('(' :: tail) (readParams tail) :=
  paramsAt_append ['('] tail

/-- Behind a list of parameters the return type is read alike. -/
theorem methodByOffset_of_params {tail after : List Char} {params : List FieldDescriptor}
    (hread : readParams tail = .ok (params, after)) :
    MethodDescriptor.byOffset ('(' :: tail) =
      settled (readMethod ('(' :: tail)) (utf8Length ('(' :: tail)) := by
  have htext : '(' :: tail =
      ('(' :: (params.flatMap FieldDescriptor.render ++ [')'])) ++ after := by
    rw [(readParams_eq_ok_iff.1 hread).1, append_cons_assoc, List.cons_append]
  have hret := fieldTypeAt_append ('(' :: (params.flatMap FieldDescriptor.render ++ [')'])) after
  rw [← htext, ← utf8Length_append_sub _ after, ← htext] at hret
  rw [MethodDescriptor.byOffset, if_neg (List.cons_ne_nil _ _), List.head?_cons,
    if_neg (not_not_intro rfl), readMethod, if_pos rfl, paramsAt_one, hread]
  simp only [placed, utf8Length_le_sub_iff (List.cons_ne_nil _ _) htext, hret]
  cases after with
  | nil => rfl
  | cons c after =>
      rw [if_neg (List.cons_ne_nil c after)]
      cases hfield : readFieldType (c :: after) with
      | error e => rfl
      | ok q =>
          rw [(readFieldType_eq_ok_iff.1 hfield).1, ← List.append_assoc] at htext
          exact settled_last htext (MethodDescriptor.mk params q.1)

/-- **Read by offsets, a method descriptor is what it is** read character by character. -/
theorem methodByOffset_eq (text : List Char) :
    MethodDescriptor.byOffset text = settled (readMethod text) (utf8Length text) := by
  cases text with
  | nil => rfl
  | cons c tail =>
      by_cases hc : c = '('
      · subst hc
        cases hread : readParams tail with
        | error e =>
            rw [MethodDescriptor.byOffset, if_neg (List.cons_ne_nil _ _), List.head?_cons,
              if_neg (not_not_intro rfl), readMethod, if_pos rfl, paramsAt_one, hread]
            rfl
        | ok p => exact methodByOffset_of_params hread
      · rw [MethodDescriptor.byOffset, if_neg (List.cons_ne_nil c tail), readMethod,
          List.head?_cons, if_pos (by simpa using hc), if_neg hc]
        rfl

end Descriptor

/-- **A field type is read alike from its bytes**: no cut is ever missed. -/
theorem FieldDescriptor.byOffset_eq_ofString (text : String) :
    byOffset text.toList =
      match ofString text with
      | .ok d => .ok d
      | .error e => .error (.fault e.fault) := by
  rw [Descriptor.fieldByOffset_eq, ofString]
  cases Descriptor.readField text.toList <;> rfl

/-- **A method type is read alike from its bytes**: no cut is ever missed. -/
theorem MethodDescriptor.byOffset_eq_ofString (text : String) :
    byOffset text.toList =
      match ofString text with
      | .ok d => .ok d
      | .error e => .error (.fault e.fault) := by
  rw [Descriptor.methodByOffset_eq, ofString]
  cases Descriptor.readMethod text.toList <;> rfl

end Linkage
