import Linkage.Text.Utf8

/-!
# Places in a Text

A text read by its bytes: the byte at an offset, the two parts that a text is cut into at an offset,
and the offset of a character. A text cannot be cut beyond its end, nor within a character; whoever
reads by offsets has to see to it that this is never asked for.

## Main results

* `cut?_eq_some_iff`: where a text can be cut, and into what.
* `isSome_cut?_iff`: these are the places that core calls valid.
* `exists_byteAt?`: the byte at an offset tells which ASCII character is there.
-/

namespace Linkage.Text

/-- The bytes of a text in UTF-8. -/
def bytes (cs : List Char) : List UInt8 := cs.flatMap String.utf8EncodeChar

/-- The byte at an offset, if the text has so many. -/
def byteAt? (offset : Nat) (cs : List Char) : Option UInt8 := (bytes cs)[offset]?

/-- The byte of an ASCII character. -/
def asciiByte (c : Char) : UInt8 := UInt8.ofNat c.toNat

/-- Cuts a text at an offset, unless it is beyond the end or within a character. -/
def cut? : Nat → List Char → Option (List Char × List Char)
  | 0, cs => some ([], cs)
  | _ + 1, [] => none
  | n + 1, c :: cs =>
    if c.utf8Size ≤ n + 1 then
      (cut? (n + 1 - c.utf8Size) cs).map fun parts => (c :: parts.1, parts.2)
    else none

/-- The part of a text between two offsets, if it can be cut at both. -/
def slice? (start stop : Nat) (cs : List Char) : Option (List Char) :=
  (cut? stop cs).bind fun parts => (cut? start parts.1).map Prod.snd

/-- The offset of the first `c`. -/
def offsetOf? (c : Char) : List Char → Option Nat
  | [] => none
  | d :: ds => if d = c then some 0 else (offsetOf? c ds).map (d.utf8Size + ·)

/-! ### Bytes -/

/-- No characters are no bytes. -/
@[simp] theorem bytes_nil : bytes [] = [] := rfl

/-- The bytes of a text are those of its characters, in order. -/
@[simp] theorem bytes_cons (c : Char) (cs : List Char) :
    bytes (c :: cs) = String.utf8EncodeChar c ++ bytes cs := List.flatMap_cons

/-- The bytes of a text are those of its parts, in order. -/
@[simp] theorem bytes_append (cs ds : List Char) : bytes (cs ++ ds) = bytes cs ++ bytes ds :=
  List.flatMap_append

/-- A text has as many bytes as are counted. -/
theorem length_bytes (cs : List Char) : (bytes cs).length = utf8Length cs := by
  induction cs with
  | nil => rfl
  | cons c cs ih => simp [ih, String.length_utf8EncodeChar]

/-- A byte is read within the text only. -/
theorem lt_of_byteAt? {offset : Nat} {cs : List Char} {b : UInt8}
    (h : byteAt? offset cs = some b) : offset < utf8Length cs := by
  rw [← length_bytes]
  exact (List.getElem?_eq_some_iff.1 h).1

/-- Only the empty text has no bytes. -/
theorem utf8Length_eq_zero_iff {cs : List Char} : utf8Length cs = 0 ↔ cs = [] := by
  cases cs with
  | nil => simp
  | cons c cs =>
    have := c.utf8Size_pos
    simp
    omega

/-- Core's count of the bytes of a string. -/
theorem utf8Length_toList (s : String) : utf8Length s.toList = s.utf8ByteSize := by
  have hall : ∀ cs : List Char, (String.ofList cs).utf8ByteSize = utf8Length cs := by
    intro cs
    induction cs with
    | nil => rfl
    | cons c cs ih =>
      rw [← List.singleton_append, String.ofList_append, String.utf8ByteSize_append, ih]
      change (String.singleton c).utf8ByteSize + _ = _
      rw [String.utf8ByteSize_singleton]
      rfl
  rw [← hall, String.ofList_toList]

/-- The first byte of a character is a byte of ASCII exactly if the character is one, and then it
is the character's number. -/
theorem head?_utf8EncodeChar (c : Char) :
    ∃ b, (String.utf8EncodeChar c).head? = some b ∧
      (c.toNat < 128 → b.toNat = c.toNat) ∧ (128 ≤ c.toNat → 128 ≤ b.toNat) := by
  have hval : c.val.toNat = c.toNat := rfl
  have hmax : c.toNat < 1114112 := by
    have hvalid := c.valid
    rw [UInt32.isValidChar, Nat.isValidChar, hval] at hvalid
    omega
  rw [String.utf8EncodeChar]
  simp only [hval]
  split
  · exact ⟨_, rfl, fun _ => by rw [UInt8.toNat_ofNat']; omega, fun _ => by omega⟩
  · split
    · exact ⟨_, rfl, fun _ => by omega, fun _ => by rw [UInt8.toNat_ofNat']; omega⟩
    · split
      · exact ⟨_, rfl, fun _ => by omega, fun _ => by rw [UInt8.toNat_ofNat']; omega⟩
      · exact ⟨_, rfl, fun _ => by omega, fun _ => by rw [UInt8.toNat_ofNat']; omega⟩

/-- What is to be read after some text has been read is at the offset of its length. -/
theorem byteAt?_append (done rest : List Char) :
    byteAt? (utf8Length done) (done ++ rest) = (bytes rest).head? := by
  rw [byteAt?, bytes_append, ← length_bytes,
    List.getElem?_append_right (Nat.le_refl _), Nat.sub_self, List.head?_eq_getElem?]

/-- There is no byte at the end of a text. -/
theorem byteAt?_append_nil (done : List Char) : byteAt? (utf8Length done) (done ++ []) = none := by
  rw [byteAt?_append]
  rfl

/-- A character below 128 is its own byte. -/
theorem toNat_asciiByte {c : Char} (hc : c.toNat < 128) : (asciiByte c).toNat = c.toNat := by
  rw [asciiByte, UInt8.toNat_ofNat']
  omega

/-- The byte at an offset tells which ASCII character is there, if any. -/
theorem exists_byteAt? (done : List Char) (c : Char) (rest : List Char) :
    ∃ b, byteAt? (utf8Length done) (done ++ c :: rest) = some b ∧
      ∀ a : Char, a.toNat < 128 → (b = asciiByte a ↔ c = a) := by
  obtain ⟨b, hb, hascii, hother⟩ := head?_utf8EncodeChar c
  refine ⟨b, by rw [byteAt?_append, bytes_cons, List.head?_append, hb]; rfl, fun a ha => ?_⟩
  rw [← UInt8.toNat_inj, toNat_asciiByte ha]
  constructor
  · intro h
    have hc : c.toNat = a.toNat := by
      by_cases hc : c.toNat < 128
      · exact (hascii hc).symm.trans h
      · have := hother (by omega)
        omega
    rw [← Char.ofNat_toNat c, hc, Char.ofNat_toNat]
  · rintro rfl
    exact hascii ha

/-! ### Cutting -/

/-- A text can be cut after any of its characters. -/
theorem cut?_append (done rest : List Char) :
    cut? (utf8Length done) (done ++ rest) = some (done, rest) := by
  induction done with
  | nil => cases rest <;> rfl
  | cons c done ih =>
    obtain ⟨k, hk⟩ : ∃ k, c.utf8Size + utf8Length done = k + 1 :=
      ⟨c.utf8Size + utf8Length done - 1, by have := c.utf8Size_pos; omega⟩
    rw [utf8Length_cons, List.cons_append, hk, cut?, if_pos (by omega), ← hk,
      Nat.add_sub_cancel_left, ih]
    rfl

/-- Where a text can be cut, and into what. -/
theorem cut?_eq_some_iff {n : Nat} {cs done rest : List Char} :
    cut? n cs = some (done, rest) ↔ cs = done ++ rest ∧ utf8Length done = n := by
  constructor
  · intro h
    fun_induction cut? n cs generalizing done rest with
    | case1 cs =>
      obtain ⟨rfl, rfl⟩ := Prod.mk.inj (Option.some.inj h)
      exact ⟨rfl, rfl⟩
    | case2 => cases h
    | case3 n c cs hle ih =>
      obtain ⟨parts, hcut, heq⟩ := Option.map_eq_some_iff.1 h
      obtain ⟨rfl, rfl⟩ := Prod.mk.inj heq
      obtain ⟨hcs, hlength⟩ := ih hcut
      refine ⟨by rw [hcs, List.cons_append], ?_⟩
      rw [utf8Length_cons, hlength]
      omega
    | case4 => cases h
  · rintro ⟨rfl, rfl⟩
    exact cut?_append done rest

/-- The places where a text can be cut are those that core calls valid. -/
theorem isSome_cut?_iff {s : String} {n : Nat} :
    (cut? n s.toList).isSome ↔ (⟨n⟩ : String.Pos.Raw).IsValid s := by
  rw [Option.isSome_iff_exists, String.Pos.Raw.isValid_iff_exists_append]
  constructor
  · rintro ⟨⟨done, rest⟩, hcut⟩
    obtain ⟨hs, rfl⟩ := cut?_eq_some_iff.1 hcut
    refine ⟨String.ofList done, String.ofList rest, ?_, ?_⟩
    · rw [← String.toList_inj, String.toList_append, String.toList_ofList, String.toList_ofList, hs]
    · rw [String.Pos.Raw.ext_iff]
      change utf8Length done = (String.ofList done).utf8ByteSize
      rw [← utf8Length_toList, String.toList_ofList]
  · rintro ⟨done, rest, rfl, hn⟩
    have hlength : n = utf8Length done.toList := by
      rw [utf8Length_toList]
      exact congrArg String.Pos.Raw.byteIdx hn
    exact ⟨(done.toList, rest.toList), by rw [hlength, String.toList_append, cut?_append]⟩

/-- The part of a text between two offsets is read back. -/
theorem slice?_append (done part rest : List Char) :
    slice? (utf8Length done) (utf8Length done + utf8Length part) (done ++ (part ++ rest)) =
      some part := by
  rw [slice?, ← utf8Length_append, ← List.append_assoc, cut?_append, Option.bind_some, cut?_append]
  rfl

/-! ### Finding a character -/

/-- The offset of a character is the length of what is before it. -/
theorem offsetOf?_eq (c : Char) (cs : List Char) :
    offsetOf? c cs =
      if c ∈ cs then some (utf8Length (cs.takeWhile (· != c))) else none := by
  induction cs with
  | nil => rfl
  | cons d ds ih =>
    rw [offsetOf?]
    by_cases hd : d = c
    · simp [hd]
    · rw [if_neg hd, ih]
      by_cases hmem : c ∈ ds <;> simp [hd, hmem, Ne.symm hd]

end Linkage.Text
