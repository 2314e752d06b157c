/-!
# JSON Texts

What a JSON text looks like, and which syntax tree it writes. A tree keeps the bodies of strings and
the digits of numbers as they are written. What a body stands for is said apart from this: a string
has many spellings, since any of its characters can be escaped, and a body with half of a surrogate
pair in it is a string by the grammar and stands for none.

## Main definitions

* `Spells`: what a string looks like between its quotes.
* `IsBody`, `IsNumber`: what strings and numbers are by the grammar.
* `Tree`: the syntax trees.
* `Writes`, `IsText`: the texts of a tree.
-/

namespace Linkage.Json

/-! ### Blanks -/

/-- Nothing but blanks. -/
def IsBlanks (cs : List Char) : Prop := ∀ c ∈ cs, c ∈ [' ', '\n', '\t', '\r']

/-! ### Strings -/

/-- A hexadecimal digit, small or capital, and what it stands for. -/
def IsHex (c : Char) (n : Nat) : Prop :=
  "0123456789abcdef".toList[n]? = some c ∨ "0123456789ABCDEF".toList[n]? = some c

/-- Four hexadecimal digits, and the code unit that they are. -/
inductive WritesUnit : List Char → Nat → Prop
  | intro {a b c d : Char} {i j k l : Nat} (ha : IsHex a i) (hb : IsHex b j) (hc : IsHex c k)
      (hd : IsHex d l) : WritesUnit [a, b, c, d] (((i * 16 + j) * 16 + k) * 16 + l)

/-- What a letter stands for after a backslash. -/
def escaped? : Char → Option Char
  | '"' => some '"'
  | '\\' => some '\\'
  | '/' => some '/'
  | 'b' => some '\x08'
  | 'f' => some '\x0c'
  | 'n' => some '\n'
  | 'r' => some '\r'
  | 't' => some '\t'
  | _ => none

/-- What can stand for itself in a string. -/
structure IsPlain (c : Char) : Prop where
  ne_quote : c ≠ '"'
  ne_backslash : c ≠ '\\'
  not_control : 0x20 ≤ c.toNat

/-- Whether a character stands for itself can be computed. -/
instance (c : Char) : Decidable (IsPlain c) :=
  decidable_of_iff (c ≠ '"' ∧ c ≠ '\\' ∧ 0x20 ≤ c.toNat)
    ⟨fun ⟨hquote, hslash, hcontrol⟩ => ⟨hquote, hslash, hcontrol⟩,
      fun h => ⟨h.ne_quote, h.ne_backslash, h.not_control⟩⟩

/-- **A spelling of a string**, as it stands between the quotes. Characters beyond the first 65536
are two code units when they are escaped. -/
inductive Spells : List Char → List Char → Prop
  | nil : Spells [] []
  | plain {c : Char} {body s : List Char} (hc : IsPlain c) (h : Spells body s) :
      Spells (c :: body) (c :: s)
  | letter {e c : Char} {body s : List Char} (he : escaped? e = some c) (h : Spells body s) :
      Spells ('\\' :: e :: body) (c :: s)
  | unit {ds body s : List Char} {n : Nat} (hn : WritesUnit ds n)
      (hchar : n < 0xd800 ∨ 0xdfff < n) (h : Spells body s) :
      Spells ('\\' :: 'u' :: (ds ++ body)) (Char.ofNat n :: s)
  | pair {ds es body s : List Char} {n m : Nat} (hn : WritesUnit ds n)
      (hlead : 0xd800 ≤ n ∧ n ≤ 0xdbff) (hm : WritesUnit es m) (htrail : 0xdc00 ≤ m ∧ m ≤ 0xdfff)
      (h : Spells body s) :
      Spells ('\\' :: 'u' :: (ds ++ '\\' :: 'u' :: (es ++ body)))
        (Char.ofNat (0x10000 + (n - 0xd800) * 0x400 + (m - 0xdc00)) :: s)

/-- **What may stand between quotes**, where half of a surrogate pair is as good as any other code
unit. -/
inductive IsBody : List Char → Prop
  | nil : IsBody []
  | plain {c : Char} {body : List Char} (hc : IsPlain c) (h : IsBody body) : IsBody (c :: body)
  | letter {e c : Char} {body : List Char} (he : escaped? e = some c) (h : IsBody body) :
      IsBody ('\\' :: e :: body)
  | unit {ds body : List Char} {n : Nat} (hn : WritesUnit ds n) (h : IsBody body) :
      IsBody ('\\' :: 'u' :: (ds ++ body))

/-! ### Numbers and truth values -/

/-- Nothing but decimal digits. -/
def IsDigits (cs : List Char) : Prop := ∀ c ∈ cs, c.isDigit = true

/-- The digits before the point: no zero stands before others. -/
inductive IsWhole : List Char → Prop
  | zero : IsWhole ['0']
  | digits {c : Char} {cs : List Char} (hc : c.isDigit = true) (hzero : c ≠ '0')
      (hcs : IsDigits cs) : IsWhole (c :: cs)

/-- The point and the digits behind it, which may be left out together. -/
inductive IsFraction : List Char → Prop
  | none : IsFraction []
  | digits {cs : List Char} (hcs : IsDigits cs) (hne : cs ≠ []) : IsFraction ('.' :: cs)

/-- The power of ten, which may be left out. -/
inductive IsExponent : List Char → Prop
  | none : IsExponent []
  | unsigned {e : Char} {cs : List Char} (he : e ∈ ['e', 'E']) (hcs : IsDigits cs) (hne : cs ≠ []) :
      IsExponent (e :: cs)
  | signed {e sign : Char} {cs : List Char} (he : e ∈ ['e', 'E']) (hsign : sign ∈ ['+', '-'])
      (hcs : IsDigits cs) (hne : cs ≠ []) : IsExponent (e :: sign :: cs)

/-- **A number.** -/
inductive IsNumber : List Char → Prop
  | plain {whole fraction exponent : List Char} (hwhole : IsWhole whole)
      (hfraction : IsFraction fraction) (hexponent : IsExponent exponent) :
      IsNumber (whole ++ (fraction ++ exponent))
  | negative {whole fraction exponent : List Char} (hwhole : IsWhole whole)
      (hfraction : IsFraction fraction) (hexponent : IsExponent exponent) :
      IsNumber ('-' :: (whole ++ (fraction ++ exponent)))

/-- A truth value as it is written. -/
def flagText : Bool → List Char
  | true => ['t', 'r', 'u', 'e']
  | false => ['f', 'a', 'l', 's', 'e']

/-! ### Trees -/

/-- The syntax tree of a text. -/
inductive Tree
  | null
  | flag (b : Bool)
  | number (digits : List Char)
  | string (body : List Char)
  | list (items : List Tree)
  | object (members : List (List Char × Tree))

/-- Things that stand one after the other, with commas between them and blanks around each. -/
inductive Separated {α : Type} (R : α → List Char → Prop) : List α → List Char → Prop
  | last {a : α} {before text after : List Char} (hbefore : IsBlanks before) (h : R a text)
      (hafter : IsBlanks after) : Separated R [a] (before ++ (text ++ after))
  | cons {a : α} {as : List α} {before text after rest : List Char} (hbefore : IsBlanks before)
      (h : R a text) (hafter : IsBlanks after) (hrest : Separated R as rest) :
      Separated R (a :: as) (before ++ (text ++ (after ++ ',' :: rest)))

/-- What stands between two brackets: nothing but blanks, or things that are separated. -/
inductive Listed {α : Type} (R : α → List Char → Prop) : List α → List Char → Prop
  | nothing {text : List Char} (h : IsBlanks text) : Listed R [] text
  | things {as : List α} {text : List Char} (h : Separated R as text) : Listed R as text

/-- A member of an object: a key, a colon and a value. -/
inductive WritesMember (R : Tree → List Char → Prop) : List Char × Tree → List Char → Prop
  | intro {key afterKey beforeValue text : List Char} {value : Tree} (hkey : IsBody key)
      (hafterKey : IsBlanks afterKey) (hbeforeValue : IsBlanks beforeValue) (h : R value text) :
      WritesMember R (key, value)
        ('"' :: (key ++ '"' :: (afterKey ++ ':' :: (beforeValue ++ text))))

/-- **A text of a tree**, without blanks around it. -/
inductive Writes : Tree → List Char → Prop
  | null : Writes .null ['n', 'u', 'l', 'l']
  | flag (b : Bool) : Writes (.flag b) (flagText b)
  | number {digits : List Char} (h : IsNumber digits) : Writes (.number digits) digits
  | string {body : List Char} (h : IsBody body) : Writes (.string body) ('"' :: (body ++ ['"']))
  | list {items : List Tree} {text : List Char} (h : Listed Writes items text) :
      Writes (.list items) ('[' :: (text ++ [']']))
  | object {members : List (List Char × Tree)} {text : List Char}
      (h : Listed (WritesMember Writes) members text) :
      Writes (.object members) ('{' :: (text ++ ['}']))

/-- **A text of a tree**, with blanks around it. -/
def IsText (tree : Tree) (text : String) : Prop :=
  ∃ lead body trail, IsBlanks lead ∧ Writes tree body ∧ IsBlanks trail ∧
    text = String.ofList (lead ++ (body ++ trail))

end Linkage.Json
