import Linkage.Json.Record
import Linkage.Text.Utf8

/-!
# Scanning JSON Text

The parts of JSON text that have to be read before a value can be taken or refused: blanks,
words, numbers and strings. A scanner takes the characters that are still unread and returns
what it read with those that remain, or says which of three things went wrong first: the text is
no JSON, it ended too early, or it is JSON but not what was asked for.

A number is refused as no JSON when it is too large for a double-precision float. The test is
exact: of the digits, those that fit 64 bits count, and both they and the power of ten are
rounded to 53 bits before they are multiplied.

## Main definitions

* `readWord`, `readString`, `readNumber`: the scanners.
* `refuse`: what is wrong with a value of an unwanted kind.
-/

namespace Linkage.Json

/-- The four blanks of JSON. -/
def isBlank (c : Char) : Bool := c == ' ' || c == '\n' || c == '\t' || c == '\r'

/-- Drops the blanks that a text begins with. -/
def skipBlanks (cs : List Char) : List Char := cs.dropWhile isBlank

/-- Reads exactly the given characters. -/
def readWord : List Char → List Char → Except Fault (List Char)
  | [], cs => .ok cs
  | _ :: _, [] => .error .truncated
  | w :: ws, c :: cs => if c = w then readWord ws cs else .error .malformed

/-! ### Strings -/

/-- The value of a hexadecimal digit. -/
def hexDigit? (c : Char) : Option Nat :=
  if '0' ≤ c ∧ c ≤ '9' then some (c.toNat - '0'.toNat)
  else if 'a' ≤ c ∧ c ≤ 'f' then some (c.toNat - 'a'.toNat + 10)
  else if 'A' ≤ c ∧ c ≤ 'F' then some (c.toNat - 'A'.toNat + 10)
  else none

/-- Reads four hexadecimal digits. Only a text with less than four bytes left counts as ended. -/
def readHex (cs : List Char) : Except Fault (Nat × List Char) :=
  if Text.utf8Length cs < 4 then .error .truncated
  else
    match cs with
    | a :: b :: c :: d :: rest =>
      match hexDigit? a, hexDigit? b, hexDigit? c, hexDigit? d with
      | some a, some b, some c, some d => .ok (((a * 16 + b) * 16 + c) * 16 + d, rest)
      | _, _, _, _ => .error .malformed
    | _ => .error .malformed

/-- Whether a code unit is the first half of a surrogate pair. -/
def isLeading (n : Nat) : Bool := 0xd800 ≤ n && n ≤ 0xdbff

/-- Whether a code unit is the second half of a surrogate pair. -/
def isTrailing (n : Nat) : Bool := 0xdc00 ≤ n && n ≤ 0xdfff

/-- Reads what follows `\u`: one code unit, or a surrogate pair written as two escapes. -/
def readUnicode (cs : List Char) : Except Fault (Char × List Char) := do
  let (n, rest) ← readHex cs
  if isTrailing n then .error .malformed
  else if isLeading n then
    let rest ← readWord ['\\', 'u'] rest
    let (m, rest) ← readHex rest
    if isTrailing m then
      .ok (Char.ofNat (0x10000 + (n - 0xd800) * 0x400 + (m - 0xdc00)), rest)
    else .error .malformed
  else .ok (Char.ofNat n, rest)

/-- Reads what follows a backslash. -/
def readEscape : List Char → Except Fault (Char × List Char)
  | [] => .error .truncated
  | '"' :: rest => .ok ('"', rest)
  | '\\' :: rest => .ok ('\\', rest)
  | '/' :: rest => .ok ('/', rest)
  | 'b' :: rest => .ok ('\x08', rest)
  | 'f' :: rest => .ok ('\x0c', rest)
  | 'n' :: rest => .ok ('\n', rest)
  | 'r' :: rest => .ok ('\r', rest)
  | 't' :: rest => .ok ('\t', rest)
  | 'u' :: rest => readUnicode rest
  | _ => .error .malformed

/-- Reading a word leaves no more than there was. -/
theorem readWord_length_le {ws cs rest : List Char} (h : readWord ws cs = .ok rest) :
    rest.length ≤ cs.length := by
  induction ws generalizing cs with
  | nil =>
    simp only [readWord, Except.ok.injEq] at h
    simp [h]
  | cons w ws ih =>
    cases cs with
    | nil => simp [readWord] at h
    | cons c cs =>
      rw [readWord] at h
      split at h
      · exact Nat.le_succ_of_le (ih h)
      · simp at h

/-- Reading hexadecimal digits leaves no more than there was. -/
theorem readHex_length_le {cs rest : List Char} {n : Nat} (h : readHex cs = .ok (n, rest)) :
    rest.length ≤ cs.length := by
  rw [readHex.eq_def] at h
  split at h
  · simp at h
  · split at h
    · split at h
      · simp only [Except.ok.injEq, Prod.mk.injEq] at h
        simp [← h.2]
        omega
      · simp at h
    · simp at h

/-- Reading an escaped code unit leaves no more than there was. -/
theorem readUnicode_length_le {cs rest : List Char} {c : Char}
    (h : readUnicode cs = .ok (c, rest)) : rest.length ≤ cs.length := by
  rw [readUnicode] at h
  cases h1 : readHex cs with
  | error e => simp [h1, bind, Except.bind] at h
  | ok p =>
    have hp : p.2.length ≤ cs.length := readHex_length_le h1
    simp only [h1, bind, Except.bind] at h
    split at h
    · simp at h
    · split at h
      · cases h2 : readWord ['\\', 'u'] p.2 with
        | error e => simp [h2] at h
        | ok q =>
          have hq := readWord_length_le h2
          cases h3 : readHex q with
          | error e => simp [h2, h3] at h
          | ok r =>
            have hr : r.2.length ≤ q.length := readHex_length_le h3
            simp only [h2, h3] at h
            split at h
            · simp only [Except.ok.injEq, Prod.mk.injEq] at h
              rw [← h.2]
              omega
            · simp at h
      · simp only [Except.ok.injEq, Prod.mk.injEq] at h
        rw [← h.2]
        exact hp

/-- Reading an escape takes at least one character. -/
theorem readEscape_length_lt {cs rest : List Char} {c : Char}
    (h : readEscape cs = .ok (c, rest)) : rest.length < cs.length := by
  rw [readEscape.eq_def] at h
  split at h
  case h_10 => exact Nat.lt_succ_of_le (readUnicode_length_le h)
  all_goals simp_all

/-- Reads the characters of a string up to its closing quote, and the quote. -/
def readChars (cs : List Char) : Except Fault (List Char × List Char) :=
  match cs with
  | [] => .error .truncated
  | c :: rest =>
    if c = '"' then .ok ([], rest)
    else if c = '\\' then
      match h : readEscape rest with
      | .error e => .error e
      | .ok (c, rest) =>
        have := Nat.lt_succ_of_lt (readEscape_length_lt h)
        match readChars rest with
        | .error e => .error e
        | .ok (s, rest) => .ok (c :: s, rest)
    else if c.toNat < 0x20 then .error .malformed
    else
      match readChars rest with
      | .error e => .error e
      | .ok (s, rest) => .ok (c :: s, rest)
termination_by cs.length
decreasing_by
  · exact this
  · exact Nat.lt_succ_self _

/-- Reads what follows the opening quote of a string. -/
def readString (cs : List Char) : Except Fault (String × List Char) :=
  match readChars cs with
  | .error e => .error e
  | .ok (s, rest) => .ok (String.ofList s, rest)

/-! ### Numbers -/

/-- The value of a decimal digit. -/
def digit? (c : Char) : Option Nat :=
  if '0' ≤ c ∧ c ≤ '9' then some (c.toNat - '0'.toNat) else none

/-- The digits that a text begins with, and what follows them. -/
def spanDigits : List Char → List Nat × List Char
  | [] => ([], [])
  | c :: cs =>
    match digit? c with
    | some d => (d :: (spanDigits cs).1, (spanDigits cs).2)
    | none => ([], c :: cs)

/-- The number that decimal digits write. -/
def digitsValue (ds : List Nat) : Nat := ds.foldl (fun n d => n * 10 + d) 0

/-- The largest number of 64 bits. -/
def maxSignificand : Nat := UInt64.size - 1

/-- Appends digits to a number for as long as it fits 64 bits, and counts those left out. -/
def absorb (n : Nat) : List Nat → Nat × Nat
  | [] => (n, 0)
  | d :: ds =>
    if maxSignificand < n * 10 + d then (n, ds.length + 1) else absorb (n * 10 + d) ds

/-- The nearest number that has at most 53 significant bits; a tie goes to the even one. -/
def round53 (n : Nat) : Nat :=
  let shift := n.log2 - 52
  let unit := Nat.pow 2 shift
  let low := n % unit * 2
  let high := n / unit
  if low > unit ∨ (low = unit ∧ high % 2 = 1) then (high + 1) * unit else high * unit

/-- Whether `n · 10 ^ exponent` is too large for a double-precision float. Beyond the largest
power of ten that such a float holds nothing but zero is small enough. -/
def tooLarge (n : Nat) (exponent : Int) : Bool :=
  if exponent < 0 ∨ n = 0 then false
  else if 308 < exponent then true
  else Nat.pow 2 1024 - Nat.pow 2 970 ≤ round53 n * round53 (Nat.pow 10 exponent.toNat)

/-- A number in JSON text: a natural number of 64 bits, or one of any other kind. -/
inductive Number
  | natural (n : Nat)
  | other
deriving DecidableEq, Repr

/-- Reads the exponent of a number after its `e`. -/
def readExponent (n : Nat) (exponent : Int) (cs : List Char) : Except Fault (Number × List Char) :=
  let (negative, rest) :=
    match cs with
    | '+' :: rest => (false, rest)
    | '-' :: rest => (true, rest)
    | _ => (false, cs)
  match spanDigits rest with
  | ([], []) => .error .truncated
  | ([], _) => .error .malformed
  | (ds, rest) =>
    let e : Int := (digitsValue ds : Nat)
    if tooLarge n (if negative then exponent - e else exponent + e) then .error .malformed
    else .ok (.other, rest)

/-- Reads what may follow the digits of a fraction, or a whole number that left 64 bits. -/
def readScale (n : Nat) (exponent : Int) (cs : List Char) : Except Fault (Number × List Char) :=
  match cs with
  | 'e' :: rest => readExponent n exponent rest
  | 'E' :: rest => readExponent n exponent rest
  | _ => if tooLarge n exponent then .error .malformed else .ok (.other, cs)

/-- Reads the fraction of a number after its point: at least one digit. -/
def readFraction (n : Nat) (exponent : Int) (cs : List Char) : Except Fault (Number × List Char) :=
  match spanDigits cs with
  | ([], []) => .error .truncated
  | ([], _) => .error .malformed
  | (ds, rest) =>
    let (n, left) := absorb n ds
    readScale n (exponent - (ds.length - left : Nat)) rest

/-- Reads a number without its sign. A zero is not followed by another digit. -/
def readUnsigned (cs : List Char) : Except Fault (Number × List Char) :=
  match spanDigits cs with
  | ([], []) => .error .truncated
  | ([], _) => .error .malformed
  | (d :: ds, rest) =>
    if d = 0 ∧ ds ≠ [] then .error .malformed
    else
      let (n, left) := absorb d ds
      match rest with
      | '.' :: rest => readFraction n left rest
      | 'e' :: rest => readExponent n left rest
      | 'E' :: rest => readExponent n left rest
      | _ => if left = 0 then .ok (.natural n, rest) else readScale n left rest

/-- Reads a number. With a minus sign it is never a natural one, not even `-0`. -/
def readNumber : List Char → Except Fault (Number × List Char)
  | '-' :: cs => do
    let (_, rest) ← readUnsigned cs
    .ok (.other, rest)
  | cs => readUnsigned cs

/-! ### Values of an unwanted kind -/

/-- Says what is wrong with a value that is not of the kind asked for. A word, a number or a
string is read to its end, and a fault in it counts first; of a list or an object only the
opening bracket is looked at. -/
def refuse (cs : List Char) : Fault :=
  let afterwards {α : Type} (read : Except Fault α) : Fault :=
    match read with
    | .error e => e
    | .ok _ => .mismatch
  match cs with
  | [] => .truncated
  | 'n' :: rest => afterwards (readWord ['u', 'l', 'l'] rest)
  | 't' :: rest => afterwards (readWord ['r', 'u', 'e'] rest)
  | 'f' :: rest => afterwards (readWord ['a', 'l', 's', 'e'] rest)
  | '"' :: rest => afterwards (readString rest)
  | '[' :: _ => .mismatch
  | '{' :: _ => .mismatch
  | c :: _ =>
    if c = '-' ∨ (digit? c).isSome then afterwards (readNumber cs) else .malformed

/-! ### Small facts -/

/-- A word is read off the text that begins with it. -/
@[simp] theorem readWord_self (ws rest : List Char) : readWord ws (ws ++ rest) = .ok rest := by
  induction ws with
  | nil => rfl
  | cons w ws ih => simp [readWord, ih]

end Linkage.Json
