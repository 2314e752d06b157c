/-!
# Access Flags

The sixteen flag bits of a class, a method or a field. Fifteen bits have names; the sixteenth is
kept as it comes, so that flags survive a round trip, but no test asks for it.

Two bits mean one thing on a class and another on a method; the names here are those for
methods, which are what resolution looks at.
-/

namespace Linkage

/-- A set of access flags. -/
structure Access where
  bits : UInt16
deriving DecidableEq, Repr, Inhabited

namespace Access

/-- Visible outside its package. -/
def publicFlag : Access := ⟨0x0001⟩

/-- Usable only where it is declared. -/
def privateFlag : Access := ⟨0x0002⟩

/-- Belongs to the type, not to its instances. -/
def staticFlag : Access := ⟨0x0008⟩

/-- Takes any number of arguments. -/
def varargsFlag : Access := ⟨0x0080⟩

/-- Has its body outside the program. -/
def nativeFlag : Access := ⟨0x0100⟩

/-- Marks an interface. -/
def interfaceFlag : Access := ⟨0x0200⟩

/-- Has no body. -/
def abstractFlag : Access := ⟨0x0400⟩

/-- The named flags, in ascending order of their bits. -/
def names : List (Access × String) :=
  [(⟨0x0001⟩, "PUBLIC"), (⟨0x0002⟩, "PRIVATE"), (⟨0x0004⟩, "PROTECTED"), (⟨0x0008⟩, "STATIC"),
    (⟨0x0010⟩, "FINAL"), (⟨0x0020⟩, "SYNCHRONIZED"), (⟨0x0040⟩, "BRIDGE"),
    (⟨0x0080⟩, "VARARGS"), (⟨0x0100⟩, "NATIVE"), (⟨0x0200⟩, "INTERFACE"),
    (⟨0x0400⟩, "ABSTRACT"), (⟨0x0800⟩, "STRICT"), (⟨0x1000⟩, "SYNTHETIC"),
    (⟨0x2000⟩, "ANNOTATION"), (⟨0x4000⟩, "ENUM")]

/-- All named flags. -/
def named : Access := ⟨0x7fff⟩

/-- The flags in one set or the other. -/
def union (a b : Access) : Access := ⟨a.bits ||| b.bits⟩

/-- The flags in both sets. -/
def inter (a b : Access) : Access := ⟨a.bits &&& b.bits⟩

/-- The flags of the first set that the second does not have. -/
def diff (a b : Access) : Access := ⟨a.bits &&& ~~~b.bits⟩

/-- The flags in exactly one of the sets. -/
def symmDiff (a b : Access) : Access := ⟨a.bits ^^^ b.bits⟩

/-- The named flags that are not set. -/
def compl (a : Access) : Access := named.diff a

/-- The flags without the bit that has no name. -/
def truncate (a : Access) : Access := a.inter named

/-- Whether every flag of `b` is set in `a`. -/
def contains (a b : Access) : Bool := a.inter b == b

/-- Whether some flag is set in both. -/
def intersects (a b : Access) : Bool := a.inter b != ⟨0⟩

/-- The flags, if only named ones are set. -/
def strict? (a : Access) : Option Access := if named.contains a then some a else none

/-- The names of the flags that are set, in ascending order of their bits. -/
def setNames (a : Access) : List String :=
  (names.filter fun f => a.contains f.1).map Prod.snd

/-- Whether the public flag is set. -/
def isPublic (a : Access) : Bool := a.contains publicFlag

/-- Whether the private flag is set. -/
def isPrivate (a : Access) : Bool := a.contains privateFlag

/-- Whether the static flag is set. -/
def isStatic (a : Access) : Bool := a.contains staticFlag

/-- Whether the abstract flag is set. -/
def isAbstract (a : Access) : Bool := a.contains abstractFlag

/-- Whether the interface flag is set. -/
def isInterface (a : Access) : Bool := a.contains interfaceFlag

/-- Native with any number of arguments: the shape reserved for signature-polymorphic methods. -/
def isVarargsNative (a : Access) : Bool := a.contains (varargsFlag.union nativeFlag)

/-- A method with a body that takes part in virtual dispatch: neither abstract nor static nor
private. -/
def isConcreteVirtual (a : Access) : Bool :=
  !a.intersects ((abstractFlag.union staticFlag).union privateFlag)

/-- The named flags are all different bits, and together all bits but the last. -/
example : names.foldl (fun a f => a.union f.1) ⟨0⟩ = named := by decide

/-! ### Flags of a union -/

/-- Flags intersect if they share a bit. -/
theorem intersects_eq (a b : Access) : a.intersects b = (a.bits &&& b.bits != 0) := by
  rw [intersects, inter, Bool.eq_iff_iff, bne_iff_ne, bne_iff_ne, Ne, Ne, mk.injEq]

/-- Some flag of a union is set if some flag of one of the two sets is. -/
theorem intersects_union (a b c : Access) :
    a.intersects (b.union c) = (a.intersects b || a.intersects c) := by
  have hand : a.bits &&& (b.bits ||| c.bits) = a.bits &&& b.bits ||| a.bits &&& c.bits := by
    rw [← UInt16.toBitVec_inj]
    exact BitVec.and_or_distrib_left
  rw [intersects_eq, intersects_eq, intersects_eq, union, hand, Bool.eq_iff_iff, Bool.or_eq_true,
    bne_iff_ne, bne_iff_ne, bne_iff_ne, Ne, UInt16.or_eq_zero_iff,
    Decidable.not_and_iff_not_or_not]

/-- A flag of a single bit is set in whole or not at all. -/
theorem intersects_bit (a : Access) {f : Access} {i : Nat}
    (hf : f.bits.toBitVec = BitVec.twoPow 16 i) (hi : i < 16) :
    a.intersects f = a.contains f := by
  have hne : BitVec.twoPow 16 i ≠ 0#16 := by
    intro h
    simpa [hi] using congrArg (BitVec.getLsbD · i) h
  have hand := BitVec.and_twoPow a.bits.toBitVec i
  obtain ⟨f⟩ := f
  rw [intersects_eq, contains, inter, Bool.eq_iff_iff, bne_iff_ne, beq_iff_eq, Ne, mk.injEq,
    ← UInt16.toBitVec_inj, ← UInt16.toBitVec_inj, UInt16.toBitVec_and, hf, hand]
  split
  · simp [hne]
  · simp [hne.symm]

/-- A method with a body that takes part in dispatch is neither abstract nor static nor
private. -/
theorem isConcreteVirtual_eq (a : Access) :
    a.isConcreteVirtual = (!a.isAbstract && !a.isStatic && !a.isPrivate) := by
  have habstract : a.intersects abstractFlag = a.isAbstract :=
    a.intersects_bit (i := 10) rfl (by omega)
  have hstatic : a.intersects staticFlag = a.isStatic := a.intersects_bit (i := 3) rfl (by omega)
  have hprivate : a.intersects privateFlag = a.isPrivate :=
    a.intersects_bit (i := 1) rfl (by omega)
  rw [isConcreteVirtual, intersects_union, intersects_union, habstract, hstatic, hprivate,
    Bool.not_or, Bool.not_or]

end Access

/-- Where a class definition comes from. Program classes may be rewritten; the others are only
looked at. -/
inductive Origin
  | program
  | classpath
  | library
deriving DecidableEq, Repr, Inhabited

namespace Origin

/-- Whether the class may be rewritten. -/
def isProgram (o : Origin) : Bool := o == .program

/-- The word for an origin. -/
def word : Origin → String
  | .program => "program"
  | .classpath => "classpath"
  | .library => "library"

/-- The origin that a word names. -/
def ofWord? : String → Option Origin
  | "program" => some .program
  | "classpath" => some .classpath
  | "library" => some .library
  | _ => none

/-- An origin is read back from its word. -/
theorem ofWord?_word (o : Origin) : ofWord? o.word = some o := by
  cases o <;> decide

end Origin

end Linkage
