import Linkage.Json.Tree

/-!
# Records in JSON

A program that describes a record, by the names of its fields and how they are kept in text, leaves
it to a library to read the record from a JSON text. What the library is relied on for is stated
here for any record, as its documentation has it; how it goes about this is not. A reader is thus
whatever does what `Record.Reads` says:

* an object that gives some fields, each once and in any order, is read as the record that has these
  values, and its defaults elsewhere;
* a member that is none of the record's is an error, where the description asks for it;
* a key that comes twice is an error.

## Main definitions

* `RecordField`, `Record`: how a record is described.
* `Record.Gives`: the members of an object that give a record.
* `Record.Reads`: what a reader is relied on for.
-/

namespace Linkage.Json

/-- What went wrong first. -/
inductive Fault
  | malformed
  | truncated
  | mismatch
deriving DecidableEq, Repr, Inhabited

/-! ### Descriptions -/

/-- Words that were joined by underscores, each with a capital. -/
def joinWords : Bool → List Char → List Char
  | _, [] => []
  | capital, c :: cs =>
    if c = '_' then joinWords true cs
    else (if capital then c.toUpper else c) :: joinWords false cs

/-- A name of words that were joined by underscores, each with a capital but the first. -/
def camelCase (name : String) : String :=
  match joinWords true name.toList with
  | [] => ""
  | c :: cs => String.ofList (c.toLower :: cs)

/-- A natural number as it is written. -/
def Tree.natural (n : Nat) : Tree := .number (toString n).toList

/-- A field of a record: what it is called in the program, its value, and how this is written. -/
structure RecordField (σ : Type) where
  name : String
  Value : Type
  get : σ → Value
  written : Value → Tree

/-- How a record is kept in text. -/
structure Record (σ : Type) where
  fields : List (RecordField σ)
  /-- What a field is called in text. -/
  rename : String → String
  /-- Where the values of fields are taken from that are left out, if these may be. -/
  default? : Option σ
  /-- Whether it is an error that a member is none of the fields. -/
  denyUnknown : Bool

/-! ### Reading -/

/-- The members of an object. -/
abbrev Members := List (List Char × Tree)

/-- Whether two members have one key, however it is spelled in each. -/
def SameKey (m m' : List Char × Tree) : Prop := ∃ s, Spells m.1 s ∧ Spells m'.1 s

namespace Record

variable {σ : Type}

/-- Whether a member is a certain field of a record, however its key is spelled. -/
def Names (r : Record σ) (m : List Char × Tree) (f : RecordField σ) : Prop :=
  Spells m.1 (r.rename f.name).toList

/-- **The members that give a record**: values of its fields, no field twice. A field that is left
out has its default. -/
structure Gives (r : Record σ) (members : Members) (o : σ) : Prop where
  known : ∀ m ∈ members, ∃ f ∈ r.fields, r.Names m f ∧ m.2 = f.written (f.get o)
  once : members.Pairwise fun m m' => ¬ SameKey m m'
  defaulted : ∀ f ∈ r.fields, (∀ m ∈ members, ¬ r.Names m f) →
    ∃ d, r.default? = some d ∧ f.get o = f.get d

/-- **What a reader of a record is relied on for.** -/
structure Reads (r : Record σ) (read : String → Except Fault σ) : Prop where
  given {members : Members} {text : String} {o : σ} (htext : IsText (.object members) text)
    (h : r.Gives members o) : read text = .ok o
  unknown {members : Members} {text : String} {m : List Char × Tree}
    (htext : IsText (.object members) text) (hdeny : r.denyUnknown = true) (hm : m ∈ members)
    (h : ∀ f ∈ r.fields, ¬ r.Names m f) : ∃ e, read text = .error e
  repeated {members : Members} {text : String} (htext : IsText (.object members) text)
    (h : ¬ members.Pairwise fun m m' => ¬ SameKey m m') : ∃ e, read text = .error e

end Record

end Linkage.Json
