import Linkage.Text.Offsets

/-!
# The Order of Texts and of Their Bytes

Texts are compared by their characters here, and may be compared by their bytes elsewhere. In UTF-8
this is the same: a character with a greater number has a greater first byte, or as many bytes and a
greater one at the first place where they differ, so that nothing that follows makes a difference.

## Main results

* `utf8EncodeChar_append_lt`: the first character that differs decides on the order of the bytes.
* `toUTF8_lt_iff`: the bytes of two texts are ordered as the texts are.
-/

namespace Linkage.Text

/-- Of two numbers the smaller one is smaller without its last digit, or in it. -/
theorem div_lt_or_mod_lt {m n : Nat} (h : m < n) (base : Nat) :
    m / base < n / base ∨ m / base = n / base ∧ m % base < n % base := by
  rcases Nat.lt_or_eq_of_le (Nat.div_le_div_right (c := base) (Nat.le_of_lt h)) with hlt | heq
  · exact .inl hlt
  · have hm := Nat.div_add_mod m base
    have hn := Nat.div_add_mod n base
    rw [heq] at hm
    exact .inr ⟨heq, by omega⟩

/-- **The first character that differs decides**, whatever follows. -/
theorem utf8EncodeChar_append_lt {c d : Char} (h : c < d) (bs cs : List UInt8) :
    String.utf8EncodeChar c ++ bs < String.utf8EncodeChar d ++ cs := by
  have hlt : c.toNat < d.toNat := h
  have hmax : d.toNat < 1114112 := by
    have hvalid := d.valid
    rw [UInt32.isValidChar, Nat.isValidChar] at hvalid
    change d.toNat < 55296 ∨ 57343 < d.toNat ∧ d.toNat < 1114112 at hvalid
    omega
  have hc : c.val.toNat = c.toNat := rfl
  have hd : d.val.toNat = d.toNat := rfl
  simp only [String.utf8EncodeChar, hc, hd]
  -- the leading bytes of characters of different lengths are in different ranges, and otherwise the
  -- digits to the base of 64 are compared
  have hlast := div_lt_or_mod_lt hlt 64
  have hthird := div_lt_or_mod_lt hlt 4096
  have hfirst := div_lt_or_mod_lt hlt 262144
  repeat' split
  all_goals
    simp (disch := omega) only [List.cons_append, List.nil_append, List.cons_lt_cons_iff,
      UInt8.lt_iff_toNat_lt, ← UInt8.toNat_inj, UInt8.toNat_ofNat', Nat.mod_eq_of_lt]
    omega

/-- Texts in the order of their characters are in the order of their bytes. -/
theorem bytes_lt_of_lt {cs ds : List Char} (h : cs < ds) : bytes cs < bytes ds := by
  induction h with
  | @nil d ds =>
      obtain ⟨b, hb, -⟩ := head?_utf8EncodeChar d
      rw [bytes_nil, bytes_cons]
      cases henc : String.utf8EncodeChar d with
      | nil =>
          rw [henc] at hb
          cases hb
      | cons b bs => exact List.nil_lt_cons b _
  | @rel c cs d ds hlt =>
      rw [bytes_cons, bytes_cons]
      exact utf8EncodeChar_append_lt hlt _ _
  | @cons c cs ds _ ih =>
      rw [bytes_cons, bytes_cons]
      induction String.utf8EncodeChar c with
      | nil => exact ih
      | cons b bs ih' => exact List.cons_lt_cons_iff.2 (.inr ⟨rfl, ih'⟩)

/-- The bytes of a text are what core encodes it as. -/
theorem toUTF8_eq_bytes (s : String) : s.toUTF8.data.toList = bytes s.toList := by
  rw [String.toUTF8_eq_toByteArray, ← String.ofList_toList (s := s), String.toByteArray_ofList,
    String.toList_ofList, List.utf8Encode, List.data_toByteArray]
  rfl

/-- **Bytes are ordered as texts are.** -/
theorem toUTF8_lt_iff {s t : String} : s.toUTF8.data.toList < t.toUTF8.data.toList ↔ s < t := by
  rw [toUTF8_eq_bytes, toUTF8_eq_bytes, String.lt_iff]
  constructor
  · intro h
    rcases Std.lt_trichotomy s.toList t.toList with hlt | heq | hgt
    · exact hlt
    · rw [heq] at h
      exact absurd h (List.lt_irrefl _)
    · exact absurd h (List.lt_asymm (bytes_lt_of_lt hgt))
  · exact bytes_lt_of_lt

end Linkage.Text
