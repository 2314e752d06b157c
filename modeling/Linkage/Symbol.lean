import Linkage.Pool

/-!
# Symbols

Names and descriptors are replaced by numbers once, and compared as numbers ever after. A
symbol's number carries the shard its text was filed in (the low six bits) and the place of the
text in that shard, so that each shard numbers its own texts. Which shard a text belongs to is
for the caller to say: nothing that can be asked of a table depends on it, except the numbers
themselves.

The empty text is symbol 0 in every table.
-/

namespace Linkage

/-- The number that stands for a text. -/
structure Symbol where
  raw : Nat
deriving DecidableEq, Repr, Inhabited

namespace Symbol

/-- How many shards a table has. -/
def shardCount : Nat := 64

/-- The symbol of the empty text. -/
def none : Symbol := ⟨0⟩

/-- Whether this is the symbol of the empty text. -/
def isNone (a : Symbol) : Bool := a.raw == 0

/-- The symbol of the text at a place of a shard. -/
def ofParts (shard place : Nat) : Symbol := ⟨place * shardCount + shard⟩

/-- The shard that a symbol was filed in. -/
def shard (a : Symbol) : Nat := a.raw % shardCount

/-- The place of a symbol in its shard. -/
def place (a : Symbol) : Nat := a.raw / shardCount

/-- A symbol says what shard it was filed in. -/
theorem shard_ofParts {s : Nat} (h : s < shardCount) (n : Nat) : (ofParts s n).shard = s := by
  simp only [ofParts, shard, shardCount] at *
  omega

/-- A symbol says what place it has there. -/
theorem place_ofParts {s : Nat} (h : s < shardCount) (n : Nat) : (ofParts s n).place = n := by
  simp only [ofParts, place, shardCount] at *
  omega

/-- A symbol is its shard and its place there. -/
theorem ofParts_shard_place (a : Symbol) : ofParts a.shard a.place = a := by
  cases a with
  | mk raw =>
    simp only [ofParts, shard, place, shardCount, mk.injEq]
    omega

end Symbol

/-- Texts filed by shard, and the rule that chooses a text's shard. -/
structure SymbolTable where
  shardOf : String → Fin Symbol.shardCount
  shards : Vector (Pool String) Symbol.shardCount

namespace SymbolTable

/-- Adds the bytes of a text. Similar names differ in at least one byte, so that they spread
over the shards. -/
def byteSum (s : String) : Fin Symbol.shardCount :=
  ⟨s.toUTF8.foldl (fun n b => n + b.toNat) 0 % Symbol.shardCount, Nat.mod_lt _ (by decide)⟩

/-- The table that knows only the empty text. -/
def fresh (shardOf : String → Fin Symbol.shardCount) : SymbolTable where
  shardOf := shardOf
  shards := (Vector.replicate Symbol.shardCount Pool.empty).set 0 (Pool.empty.add "")
    (by decide)

/-- The text that a symbol stands for, if the table handed that symbol out. -/
def text? (t : SymbolTable) (a : Symbol) : Option String :=
  if h : a.shard < Symbol.shardCount then t.shards[a.shard].get? a.place else none

/-- The text that a symbol stands for; a symbol that was never handed out reads as empty. -/
def text (t : SymbolTable) (a : Symbol) : String := (t.text? a).getD ""

/-- The symbol of a text that was filed before. Asking files nothing. -/
def find? (t : SymbolTable) (s : String) : Option Symbol :=
  if s = "" then some .none
  else (t.shards[t.shardOf s].find? s).map (Symbol.ofParts (t.shardOf s))

/-- The symbol of a text, and the table in which the text is filed. Every text gets a symbol here;
how a shard that has no place left refuses one is said where requests are. -/
def intern (t : SymbolTable) (s : String) : Symbol × SymbolTable :=
  if s = "" then (.none, t)
  else
    let shard := t.shards[t.shardOf s]
    (.ofParts (t.shardOf s) (shard.numberOf s),
      { t with shards := t.shards.set (t.shardOf s) (shard.add s) })

/-- Files several texts, in order. -/
def internAll (t : SymbolTable) (texts : List String) : SymbolTable :=
  texts.foldl (fun t s => (t.intern s).2) t

/-- How many texts are filed, the empty one included. -/
def size (t : SymbolTable) : Nat := t.shards.toList.foldr (fun shard n => shard.size + n) 0

/-- Whether no text but the empty one is filed. -/
def isEmpty (t : SymbolTable) : Bool := t.size ≤ 1

/-- Names and descriptors that nearly every program mentions. -/
def commonTexts : List String :=
  ["<init>", "<clinit>", "clone", "equals", "hashCode", "toString", "finalize", "getClass",
    "notify", "notifyAll", "wait", "invoke", "invokeExact", "valueOf", "values", "ordinal",
    "name", "length", "get", "set", "run", "call", "apply", "accept", "compareTo", "iterator",
    "close", "V", "Z", "B", "C", "S", "I", "J", "F", "D", "Ljava/lang/Object;",
    "Ljava/lang/String;", "Ljava/lang/Class;", "Ljava/lang/Cloneable;",
    "Ljava/io/Serializable;", "Ljava/lang/Enum;", "Ljava/lang/Record;", "Ljava/lang/Runnable;",
    "Ljava/lang/invoke/MethodHandle;", "Ljava/lang/invoke/VarHandle;", "[Ljava/lang/Object;"]

/-- Files the common texts. -/
def internCommon (t : SymbolTable) : SymbolTable := t.internAll commonTexts

/-! ### Small facts -/

/-- The empty text needs no filing. -/
@[simp] theorem intern_empty (t : SymbolTable) : t.intern "" = (.none, t) := rfl

/-- The empty text is always found. -/
@[simp] theorem find?_empty (t : SymbolTable) : t.find? "" = some .none := rfl

/-- Filing a text leaves the choice of shards as it is. -/
@[simp] theorem shardOf_intern (t : SymbolTable) (s : String) :
    (t.intern s).2.shardOf = t.shardOf := by
  rw [intern]
  split <;> rfl

/-- A text that is filed reads back from its symbol. -/
theorem text?_intern {t : SymbolTable} {s : String} (h : s ≠ "") :
    (t.intern s).2.text? (t.intern s).1 = some s := by
  have hlt : (t.shardOf s).val < Symbol.shardCount := (t.shardOf s).isLt
  simp only [intern, if_neg h, text?, Symbol.shard_ofParts hlt, Symbol.place_ofParts hlt, hlt,
    dif_pos]
  simp only [Fin.getElem_fin, Vector.getElem_set_self]
  exact Pool.get?_numberOf _ _

end SymbolTable

end Linkage
