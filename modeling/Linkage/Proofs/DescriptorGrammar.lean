import Linkage.Descriptor.Reader

/-!
# The Grammar of Descriptors

What the readers accept, stated against how descriptors are written. A reader is given the text that
is still unread and leaves what it has not used, so that reading is compared with writing at any
place of a text: something is read exactly if the unread text starts with the way it is written.

A class name may hold any character but a semicolon, brackets and parentheses among them. Nothing is
gained by looking for these characters ahead of reading: each reader is settled in turn, from the
base type up to the whole text.

## Main results

* `readBase_eq_ok_iff`, `readFieldType_eq_ok_iff`, `readParams_eq_ok_iff`: what the readers of the
  parts of a text accept.
* `readField_eq_ok_iff`, `readMethod_eq_ok_iff`: what the readers of a whole text accept.
* `accepts_iff_written`: the accepted texts are those that write the type of a field or a method.
-/

namespace Linkage

/-! ### How types are written -/

namespace BaseType

/-- A base type that can be told from its text: a class name is not empty and ends where its
semicolon is. -/
def Writable : BaseType → Prop
  | .primitive _ => True
  | .object name => name ≠ "" ∧ ';' ∉ name.toList

/-- A base type starts with a letter of its own, never with the sign of an array or a parenthesis.
-/
theorem exists_render_eq_cons (b : BaseType) :
    ∃ c tail, b.render = c :: tail ∧ c ≠ '[' ∧ c ≠ ')' := by
  cases b with
  | primitive p =>
      exact ⟨p.letter, [], rfl, p.letter_ne_of_mem (by decide), p.letter_ne_of_mem (by decide)⟩
  | object name => exact ⟨'L', _, rfl, by decide, by decide⟩

end BaseType

namespace FieldDescriptor

/-- Only one descriptor is that of `void`. -/
theorem isVoid_iff {d : FieldDescriptor} : d.isVoid = true ↔ d = void := by
  rw [isVoid, beq_iff_eq]

/-- `void` is not the type of a field. -/
theorem not_isFieldType_void : ¬ void.IsFieldType := by decide

/-- What a return type may be: anything writable that is not an array of `void`. -/
theorem isFieldType_or_eq_void_iff {d : FieldDescriptor} :
    d.IsFieldType ∨ d = void ↔ d.dimensions ≤ maxArrayDimensions ∧ d.base.Writable ∧
      ¬ (d.base = .primitive .void ∧ 0 < d.dimensions) := by
  obtain ⟨n, base⟩ := d
  cases base with
  | object name => simp [IsFieldType, BaseType.Writable, void]
  | primitive p =>
      by_cases hp : p = .void
      · have hle : n = 0 → n ≤ maxArrayDimensions := by
          rintro rfl
          exact Nat.zero_le _
        simpa [IsFieldType, BaseType.Writable, void, hp] using hle
      · simp [IsFieldType, BaseType.Writable, void, hp]

/-- The type of a field is one of those that a method may return, but not `void`. -/
theorem isFieldType_iff {d : FieldDescriptor} :
    d.IsFieldType ↔ (d.IsFieldType ∨ d = void) ∧ d ≠ void := by
  constructor
  · intro h
    refine ⟨.inl h, ?_⟩
    rintro rfl
    exact not_isFieldType_void h
  · rintro ⟨h, hne⟩
    exact h.resolve_right hne

/-- A type's text is not empty and does not close a list of parameters. -/
theorem exists_render_eq_cons (d : FieldDescriptor) : ∃ c tail, d.render = c :: tail ∧ c ≠ ')' := by
  obtain ⟨n, base⟩ := d
  cases n with
  | zero =>
      obtain ⟨c, tail, hbase, -, hc⟩ := base.exists_render_eq_cons
      exact ⟨c, tail, hbase, hc⟩
  | succ n => exact ⟨'[', _, rfl, by decide⟩

end FieldDescriptor

namespace Descriptor

/-! ### Reading a type at any place of a text -/

/-- A class name is the text up to the first semicolon. -/
theorem readBase_object {name : List Char} (hne : name ≠ []) (hname : ';' ∉ name)
    (rest : List Char) :
    readBase ('L' :: (name ++ ';' :: rest)) = .ok (.object (String.ofList name), rest) := by
  have hkeep : ∀ c ∈ name, (c != ';') = true := by
    intro c hc
    rw [bne_iff_ne]
    rintro rfl
    exact hname hc
  rw [readBase, if_pos rfl, List.dropWhile_append_of_pos hkeep, List.takeWhile_append_of_pos hkeep,
    List.dropWhile_cons_of_neg (by simp), List.takeWhile_cons_of_neg (by simp), List.append_nil]
  cases name with
  | nil => exact absurd rfl hne
  | cons c cs => rfl

/-- **A base type is read** exactly where the unread text starts with it. -/
theorem readBase_eq_ok_iff {cs rest : List Char} {b : BaseType} :
    readBase cs = .ok (b, rest) ↔ cs = b.render ++ rest ∧ b.Writable := by
  constructor
  · intro h
    cases cs with
    | nil => simp [readBase] at h
    | cons c tail =>
        rw [readBase] at h
        split at h
        · next hL =>
          have hsplit := List.takeWhile_append_dropWhile (p := (· != ';')) (l := tail)
          split at h
          · simp at h
          · simp at h
          · next semicolon after hafter hname =>
            simp only [Except.ok.injEq, Prod.mk.injEq] at h
            obtain ⟨rfl, rfl⟩ := h
            have hend : semicolon = ';' := by
              have hhead := List.head?_dropWhile_not (· != ';') tail
              rw [hafter] at hhead
              simpa using hhead
            refine ⟨?_, ?_, ?_⟩
            · rw [hafter, hend] at hsplit
              simp [BaseType.render, hL, hsplit]
            · rw [Ne, ← String.toList_inj, String.toList_ofList]
              exact hname
            · rw [String.toList_ofList]
              intro hmem
              simpa using List.all_eq_true.1 List.all_takeWhile _ hmem
        · split at h
          · simp at h
          · next p hp =>
            simp only [Except.ok.injEq, Prod.mk.injEq] at h
            obtain ⟨rfl, rfl⟩ := h
            rw [Primitive.ofLetter?_eq_some_iff.1 hp]
            exact ⟨rfl, trivial⟩
  · rintro ⟨rfl, hb⟩
    cases b with
    | primitive p =>
        have hL : p.letter ≠ 'L' := p.letter_ne_of_mem (by decide)
        rw [BaseType.render, List.singleton_append, readBase, if_neg hL,
          Primitive.ofLetter?_eq_some_iff.2 rfl]
    | object name =>
        have hne : name.toList ≠ [] := fun h => hb.1 (String.toList_inj.1 h)
        have hread := readBase_object hne hb.2 rest
        rw [String.ofList_toList] at hread
        rw [BaseType.render, List.cons_append, List.append_assoc]
        exact hread

/-- Where a base type follows, the brackets before it are told from it. -/
theorem takeWhile_dropWhile_brackets (n : Nat) (b : BaseType) (rest : List Char) :
    (List.replicate n '[' ++ (b.render ++ rest)).takeWhile (· == '[') = List.replicate n '[' ∧
      (List.replicate n '[' ++ (b.render ++ rest)).dropWhile (· == '[') = b.render ++ rest := by
  obtain ⟨c, tail, hb, hc, -⟩ := b.exists_render_eq_cons
  have hbrackets : ∀ c ∈ List.replicate n '[', (c == '[') = true := by
    intro c hc
    rw [List.eq_of_mem_replicate hc, beq_self_eq_true]
  rw [List.takeWhile_append_of_pos hbrackets, List.dropWhile_append_of_pos hbrackets, hb]
  simp [hc]

/-- The brackets that a text starts with, counted and written again. -/
theorem brackets_append (cs : List Char) :
    List.replicate (cs.takeWhile (· == '[')).length '[' ++ cs.dropWhile (· == '[') = cs := by
  have hbrackets : cs.takeWhile (· == '[') =
      List.replicate (cs.takeWhile (· == '[')).length '[' := by
    rw [List.eq_replicate_iff]
    exact ⟨rfl, fun c hc => by simpa using List.all_eq_true.1 List.all_takeWhile _ hc⟩
  rw [← hbrackets, List.takeWhile_append_dropWhile]

/-- **A type is read** exactly where the unread text starts with it, a plain `V` included. -/
theorem readFieldType_eq_ok_iff {cs rest : List Char} {d : FieldDescriptor} :
    readFieldType cs = .ok (d, rest) ↔
      cs = d.render ++ rest ∧ (d.IsFieldType ∨ d = .void) := by
  rw [FieldDescriptor.isFieldType_or_eq_void_iff]
  constructor
  · intro h
    simp only [readFieldType] at h
    split at h
    · simp at h
    · next hle =>
      split at h
      · simp at h
      · next base after hbase =>
        obtain ⟨hcs, hwritable⟩ := readBase_eq_ok_iff.1 hbase
        split at h
        · simp at h
        · next hvoid =>
          simp only [Except.ok.injEq, Prod.mk.injEq] at h
          obtain ⟨rfl, rfl⟩ := h
          refine ⟨?_, Nat.not_lt.1 hle, hwritable, hvoid⟩
          rw [FieldDescriptor.render, List.append_assoc, ← hcs, brackets_append]
  · rintro ⟨rfl, hle, hwritable, hvoid⟩
    obtain ⟨htake, hdrop⟩ := takeWhile_dropWhile_brackets d.dimensions d.base rest
    simp only [readFieldType, FieldDescriptor.render, List.append_assoc, htake, hdrop,
      List.length_replicate, if_neg (Nat.not_lt.2 hle), readBase_eq_ok_iff.2 ⟨rfl, hwritable⟩,
      if_neg hvoid]

/-! ### Reading whole texts -/

/-- A parenthesis closes the list of parameters. -/
theorem readParams_close (rest : List Char) : readParams (')' :: rest) = .ok ([], rest) := by
  rw [readParams, if_pos rfl]

/-- Where a type is written, it is the next parameter. -/
theorem readParams_param {d : FieldDescriptor} (h : d.IsFieldType) (after : List Char) :
    readParams (d.render ++ after) =
      (readParams after).map fun p => (d :: p.1, p.2) := by
  have hread : readFieldType (d.render ++ after) = .ok (d, after) :=
    readFieldType_eq_ok_iff.2 ⟨rfl, .inl h⟩
  have hvoid : ¬ d.isVoid = true := by
    rw [FieldDescriptor.isVoid_iff]
    exact (FieldDescriptor.isFieldType_iff.1 h).2
  obtain ⟨c, tail, hd, hc⟩ := d.exists_render_eq_cons
  rw [hd, List.cons_append] at hread ⊢
  rw [readParams, if_neg hc]
  split
  · next heq =>
    rw [hread] at heq
    simp at heq
  · next heq =>
    rw [hread] at heq
    simp only [Except.ok.injEq, Prod.mk.injEq] at heq
    obtain ⟨rfl, rfl⟩ := heq
    rw [if_neg hvoid]
    cases readParams after <;> rfl

/-- **Parameters are read** exactly where the unread text starts with their types and a closing
parenthesis. Both ways go parameter by parameter: one along the reader, one along the list. -/
theorem readParams_eq_ok_iff {cs rest : List Char} {ds : List FieldDescriptor} :
    readParams cs = .ok (ds, rest) ↔
      cs = ds.flatMap FieldDescriptor.render ++ ')' :: rest ∧ ∀ d ∈ ds, d.IsFieldType := by
  constructor
  · intro h
    fun_induction readParams cs generalizing ds with
    | case1 => simp at h
    | case2 after =>
        simp only [Except.ok.injEq, Prod.mk.injEq] at h
        obtain ⟨rfl, rfl⟩ := h
        exact ⟨rfl, by simp⟩
    | case3 => simp at h
    | case4 => simp at h
    | case5 => simp at h
    | case6 c tail hc d after hread hvoid _ ds' after' hparams ih =>
        simp only [Except.ok.injEq, Prod.mk.injEq] at h
        obtain ⟨rfl, rfl⟩ := h
        obtain ⟨hcs, hd⟩ := readFieldType_eq_ok_iff.1 hread
        obtain ⟨hafter, hds⟩ := ih hparams
        rw [FieldDescriptor.isVoid_iff] at hvoid
        rw [hcs, hafter, List.flatMap_cons, List.append_assoc, List.forall_mem_cons]
        exact ⟨rfl, hd.resolve_right hvoid, hds⟩
  · rintro ⟨rfl, hds⟩
    induction ds with
    | nil => exact readParams_close rest
    | cons d ds ih =>
        rw [List.flatMap_cons, List.append_assoc, readParams_param (hds d List.mem_cons_self),
          ih fun e he => hds e (List.mem_cons_of_mem _ he)]
        rfl

/-- **A field type is read** from the texts that write one. -/
theorem readField_eq_ok_iff {cs : List Char} {d : FieldDescriptor} :
    readField cs = .ok d ↔ cs = d.render ∧ d.IsFieldType := by
  constructor
  · intro h
    cases cs with
    | nil => simp [readField] at h
    | cons c tail =>
        rw [readField] at h
        split at h
        · simp at h
        · next hread =>
          obtain ⟨hcs, hd⟩ := readFieldType_eq_ok_iff.1 hread
          split at h
          · simp at h
          · next hvoid =>
            split at h
            · next hrest =>
              rw [Except.ok.injEq] at h
              subst h
              rw [FieldDescriptor.isVoid_iff] at hvoid
              rw [hcs, hrest, List.append_nil]
              exact ⟨rfl, hd.resolve_right hvoid⟩
            · simp at h
  · rintro ⟨rfl, hd⟩
    obtain ⟨c, tail, hrender, -⟩ := d.exists_render_eq_cons
    have hread : readFieldType d.render = .ok (d, []) :=
      readFieldType_eq_ok_iff.2 ⟨(List.append_nil _).symm, .inl hd⟩
    have hvoid : ¬ d.isVoid = true := by
      rw [FieldDescriptor.isVoid_iff]
      exact (FieldDescriptor.isFieldType_iff.1 hd).2
    rw [hrender] at hread ⊢
    simp only [readField, hread, if_neg hvoid, if_true]

/-- **A method type is read** from the texts that write one. -/
theorem readMethod_eq_ok_iff {cs : List Char} {d : MethodDescriptor} :
    readMethod cs = .ok d ↔ cs = d.render ∧ d.IsMethodType := by
  constructor
  · intro h
    cases cs with
    | nil => simp [readMethod] at h
    | cons c tail =>
        rw [readMethod] at h
        split at h
        · next hopen =>
          split at h
          · simp at h
          · next params after hparams =>
            obtain ⟨htail, hds⟩ := readParams_eq_ok_iff.1 hparams
            split at h
            · simp at h
            · next ret remaining hret =>
              obtain ⟨hafter, hr⟩ := readFieldType_eq_ok_iff.1 hret
              split at h
              · next hremaining =>
                rw [Except.ok.injEq] at h
                subst h
                rw [hopen, htail, hafter, hremaining, List.append_nil]
                exact ⟨rfl, hds, hr⟩
              · simp at h
        · simp at h
  · rintro ⟨rfl, hds, hr⟩
    have hparams : readParams (d.params.flatMap FieldDescriptor.render ++ ')' :: d.ret.render) =
        .ok (d.params, d.ret.render) := readParams_eq_ok_iff.2 ⟨rfl, hds⟩
    have hret : readFieldType d.ret.render = .ok (d.ret, []) :=
      readFieldType_eq_ok_iff.2 ⟨(List.append_nil _).symm, hr⟩
    simp only [MethodDescriptor.render, readMethod, if_true, hparams, hret]

end Descriptor

/-! ### Texts and their readings -/

namespace FieldDescriptor

/-- The accepted texts are those that write the type of a field. -/
theorem ofString_eq_ok_iff_render {text : String} {d : FieldDescriptor} :
    ofString text = .ok d ↔ text = String.ofList d.render ∧ d.IsFieldType := by
  rw [ofString_eq_ok_iff, Descriptor.readField_eq_ok_iff, ← String.toList_inj,
    String.toList_ofList]

/-- A field type reads back from the way it is written. -/
theorem ofString_render {d : FieldDescriptor} (h : d.IsFieldType) :
    ofString (String.ofList d.render) = .ok d :=
  ofString_eq_ok_iff_render.2 ⟨rfl, h⟩

/-- Two accepted texts describe one type exactly if they are equal. -/
theorem ofString_inj {text text' : String} {d d' : FieldDescriptor} (h : ofString text = .ok d)
    (h' : ofString text' = .ok d') : d = d' ↔ text = text' := by
  constructor
  · rintro rfl
    rw [(ofString_eq_ok_iff_render.1 h).1, (ofString_eq_ok_iff_render.1 h').1]
  · rintro rfl
    exact Except.ok.inj (h.symm.trans h')

/-- The type of a field has elements. -/
theorem IsFieldType.base_ne_void {d : FieldDescriptor} (h : d.IsFieldType) :
    d.base ≠ .primitive .void := by
  obtain ⟨n, base⟩ := d
  rintro rfl
  exact h.2 rfl

end FieldDescriptor

namespace MethodDescriptor

/-- The accepted texts are those that write the type of a method. -/
theorem ofString_eq_ok_iff_render {text : String} {d : MethodDescriptor} :
    ofString text = .ok d ↔ text = String.ofList d.render ∧ d.IsMethodType := by
  rw [ofString_eq_ok_iff, Descriptor.readMethod_eq_ok_iff, ← String.toList_inj,
    String.toList_ofList]

/-- A method type reads back from the way it is written. -/
theorem ofString_render {d : MethodDescriptor} (h : d.IsMethodType) :
    ofString (String.ofList d.render) = .ok d :=
  ofString_eq_ok_iff_render.2 ⟨rfl, h⟩

/-- Two accepted texts describe one type exactly if they are equal. -/
theorem ofString_inj {text text' : String} {d d' : MethodDescriptor} (h : ofString text = .ok d)
    (h' : ofString text' = .ok d') : d = d' ↔ text = text' := by
  constructor
  · rintro rfl
    rw [(ofString_eq_ok_iff_render.1 h).1, (ofString_eq_ok_iff_render.1 h').1]
  · rintro rfl
    exact Except.ok.inj (h.symm.trans h')

end MethodDescriptor

namespace Descriptor

/-- What is read has few enough dimensions to be counted in a byte. -/
theorem toUInt8_dimensions {cs rest : List Char} {d : FieldDescriptor}
    (h : readFieldType cs = .ok (d, rest)) : (UInt8.ofNat d.dimensions).toNat = d.dimensions := by
  have hd := (readFieldType_eq_ok_iff.1 h).2
  have hle : d.dimensions ≤ 255 := (FieldDescriptor.isFieldType_or_eq_void_iff.1 hd).1
  rw [UInt8.toNat_ofNat']
  omega

/-- **What the readers accept.** A text is accepted as a field type, and read as `d`, exactly if it
is how `d` is written and `d` is the type of a field; the same holds of methods. So no two types are
written alike, `void` is accepted as a return type only and never as what an array is of, and a
reader anywhere in a text finds no more dimensions than a byte can count. -/
theorem accepts_iff_written :
    (∀ (text : String) (d : FieldDescriptor),
      FieldDescriptor.ofString text = .ok d ↔ text = String.ofList d.render ∧ d.IsFieldType) ∧
    (∀ (text : String) (d : MethodDescriptor),
      MethodDescriptor.ofString text = .ok d ↔ text = String.ofList d.render ∧ d.IsMethodType) ∧
    (∀ d e : FieldDescriptor, d.IsFieldType → e.IsFieldType → d.render = e.render → d = e) ∧
    (∀ d e : MethodDescriptor, d.IsMethodType → e.IsMethodType → d.render = e.render → d = e) ∧
    (∀ (text : String) (d : FieldDescriptor),
      FieldDescriptor.ofString text = .ok d → d.base ≠ .primitive .void) ∧
    (∀ (text : String) (d : MethodDescriptor), MethodDescriptor.ofString text = .ok d →
      (∀ p ∈ d.params, p.base ≠ .primitive .void) ∧
      (d.ret.base = .primitive .void → d.ret.dimensions = 0)) ∧
    ∀ (cs rest : List Char) (d : FieldDescriptor), readFieldType cs = .ok (d, rest) →
      (UInt8.ofNat d.dimensions).toNat = d.dimensions := by
  refine ⟨fun _ _ => FieldDescriptor.ofString_eq_ok_iff_render,
    fun _ _ => MethodDescriptor.ofString_eq_ok_iff_render, fun d e hd he hrender => ?_,
    fun d e hd he hrender => ?_, fun text d h => ?_, fun text d h => ?_,
    fun cs rest d h => toUInt8_dimensions h⟩
  · have hread := FieldDescriptor.ofString_render hd
    rw [hrender, FieldDescriptor.ofString_render he] at hread
    exact (Except.ok.inj hread).symm
  · have hread := MethodDescriptor.ofString_render hd
    rw [hrender, MethodDescriptor.ofString_render he] at hread
    exact (Except.ok.inj hread).symm
  · exact (FieldDescriptor.ofString_eq_ok_iff_render.1 h).2.base_ne_void
  · obtain ⟨-, hparams, hret⟩ := MethodDescriptor.ofString_eq_ok_iff_render.1 h
    refine ⟨fun p hp => (hparams p hp).base_ne_void, fun hbase => ?_⟩
    rcases hret with hret | hret
    · exact absurd hbase hret.base_ne_void
    · rw [hret]
      rfl

/-! ### A class whose name looks like a descriptor -/

/-- The type of a method that takes a matrix of the class `(V)[` and an `int`. -/
def bracketed : MethodDescriptor := ⟨[⟨2, .object "(V)["⟩, ⟨0, .primitive .int⟩], .void⟩

/-- Brackets and parentheses in a class name mislead no reader. -/
theorem accepts_bracketed :
    MethodDescriptor.ofString "([[L(V)[;I)V" = .ok bracketed ∧
    (∀ d : MethodDescriptor, d.IsMethodType → bracketed.render = d.render → bracketed = d) ∧
    (∀ p ∈ bracketed.params, p.base ≠ .primitive .void) ∧
    readFieldType "[[L(V)[;I)V".toList = .ok (⟨2, .object "(V)["⟩, "I)V".toList) ∧
    (UInt8.ofNat 2).toNat = 2 := by
  obtain ⟨-, haccepts, -, hunique, -, hvoid, hbyte⟩ := accepts_iff_written
  have htype : bracketed.IsMethodType := by decide
  have hread := (haccepts "([[L(V)[;I)V" bracketed).2 ⟨by decide, htype⟩
  have hfirst : readFieldType "[[L(V)[;I)V".toList = .ok (⟨2, .object "(V)["⟩, "I)V".toList) :=
    readFieldType_eq_ok_iff.2 ⟨by decide, .inl (by decide)⟩
  exact ⟨hread, fun d hd => hunique bracketed d htype hd, (hvoid _ _ hread).1, hfirst,
    hbyte _ _ _ hfirst⟩

end Descriptor

end Linkage
