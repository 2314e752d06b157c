/-!
# Deduplicating Pools

A pool numbers values: the first value added gets number 0, the next new one number 1, and a
value that is added again keeps its number. Numbers are therefore as good as values for telling
two values apart.

## Main results

* `get?_eq_some_iff`: a number stands for a value exactly when the value has that number.
* `numberOf_inj`: two values in the pool with one number are equal.
* `get?_add_of_get?`: what a number stands for never changes.
-/

namespace Linkage

/-- Values by number, each value once. -/
structure Pool (α : Type) where
  values : List α
  nodup : values.Nodup := by simp

namespace Pool

variable {α : Type}

/-- The pool without values. -/
def empty : Pool α where
  values := []

instance : Inhabited (Pool α) := ⟨empty⟩

/-- The number of values, which is the number that the next new value gets. -/
def size (p : Pool α) : Nat := p.values.length

/-- The value with number `n`. -/
def get? (p : Pool α) (n : Nat) : Option α := p.values[n]?

/-- An empty pool has no values. -/
@[simp] theorem size_empty : (empty : Pool α).size = 0 := rfl

/-- An empty pool hands out no numbers. -/
@[simp] theorem get?_empty (n : Nat) : (empty : Pool α).get? n = none := rfl

/-- The numbers handed out are those below the size. -/
theorem lt_size_of_get? {p : Pool α} {n : Nat} {a : α} (h : p.get? n = some a) : n < p.size :=
  (List.getElem?_eq_some_iff.1 h).1

/-- A number that was not handed out is at least the size. -/
theorem get?_eq_none_iff {p : Pool α} {n : Nat} : p.get? n = none ↔ p.size ≤ n :=
  List.getElem?_eq_none_iff

variable [DecidableEq α]

/-- The place of the first `a` in a list. -/
def place (a : α) : List α → Option Nat
  | [] => none
  | b :: rest => if b = a then some 0 else (place a rest).map (· + 1)

/-- A value that is not in a list has no place there. -/
theorem place_eq_none_iff {a : α} {as : List α} : place a as = none ↔ a ∉ as := by
  induction as with
  | nil => simp [place]
  | cons b as ih =>
    by_cases h : b = a
    · simp [place, h]
    · simp [place, h, ih, Ne.symm h]

/-- The place of a value is where it stands, if no value occurs twice. -/
theorem place_eq_some_iff {a : α} {as : List α} (h : as.Nodup) {n : Nat} :
    place a as = some n ↔ as[n]? = some a := by
  induction as generalizing n with
  | nil => simp [place]
  | cons b as ih =>
    have ⟨hb, has⟩ := List.nodup_cons.1 h
    by_cases hba : b = a
    · subst hba
      cases n with
      | zero => simp [place]
      | succ n =>
        simp only [place, if_true, Option.some.injEq, List.getElem?_cons_succ]
        constructor
        · intro h0
          omega
        · intro hn
          exact absurd (List.mem_of_getElem? hn) hb
    · cases n with
      | zero => simp [place, hba]
      | succ n => simp [place, hba, ih has]

/-- The number of `a`, if it was added. -/
def find? (p : Pool α) (a : α) : Option Nat := place a p.values

/-- Adds `a` unless it is there. -/
def add (p : Pool α) (a : α) : Pool α :=
  if h : a ∈ p.values then p
  else
    { values := p.values ++ [a]
      nodup := by
        rw [List.nodup_append]
        exact ⟨p.nodup, by simp, fun x hx y hy => by
          rw [List.mem_singleton] at hy
          subst hy
          intro hxy
          subst hxy
          exact h hx⟩ }

/-- The number that `a` has, or that it gets when it is added now. -/
def numberOf (p : Pool α) (a : α) : Nat := (p.find? a).getD p.size

/-! ### Numbers and values -/

/-- **A value has a number** exactly if the number denotes the value. -/
theorem find?_eq_some_iff {p : Pool α} {a : α} {n : Nat} :
    p.find? a = some n ↔ p.get? n = some a :=
  place_eq_some_iff p.nodup

/-- A value without a number is not in the pool. -/
theorem find?_eq_none_iff {p : Pool α} {a : α} : p.find? a = none ↔ a ∉ p.values :=
  place_eq_none_iff

/-- A value that is there already adds nothing. -/
theorem add_of_mem {p : Pool α} {a : α} (h : a ∈ p.values) : p.add a = p := dif_pos h

/-- A new value is put behind the others. -/
theorem values_add (p : Pool α) (a : α) :
    (p.add a).values = if a ∈ p.values then p.values else p.values ++ [a] := by
  rw [add]
  split <;> rfl

/-- A new value makes the pool larger by one. -/
theorem size_add (p : Pool α) (a : α) :
    (p.add a).size = if a ∈ p.values then p.size else p.size + 1 := by
  rw [size, values_add]
  split <;> simp [size]

/-- After a value is added, it is there, and nothing else is new. -/
theorem mem_values_add {p : Pool α} {a b : α} : b ∈ (p.add a).values ↔ b ∈ p.values ∨ b = a := by
  rw [values_add]
  split
  · next h =>
    constructor
    · exact .inl
    · rintro (hb | rfl)
      · exact hb
      · exact h
  · rw [List.mem_append, List.mem_singleton]

/-- Different values that are all new are put behind the others, in their order. -/
theorem values_foldl_add {p : Pool α} {as : List α} (has : as.Nodup)
    (hnew : ∀ a ∈ as, a ∉ p.values) : (as.foldl add p).values = p.values ++ as := by
  induction as generalizing p with
  | nil => exact (List.append_nil _).symm
  | cons a as ih =>
    have ⟨ha, has⟩ := List.nodup_cons.1 has
    have hadd : (p.add a).values = p.values ++ [a] := by
      rw [values_add, if_neg (hnew a List.mem_cons_self)]
    have hrest : ∀ b ∈ as, b ∉ (p.add a).values := by
      intro b hb hmem
      rcases mem_values_add.1 hmem with hold | rfl
      · exact hnew b (List.mem_cons_of_mem a hb) hold
      · exact ha hb
    rw [List.foldl_cons, ih has hrest, hadd, List.append_assoc]
    rfl

/-- What a number stands for never changes. -/
theorem get?_add_of_get? {p : Pool α} {n : Nat} {a : α} (b : α) (h : p.get? n = some a) :
    (p.add b).get? n = some a := by
  rw [get?] at h ⊢
  rw [values_add]
  split
  · exact h
  · rw [List.getElem?_append_left (lt_size_of_get? h)]
    exact h

/-- Once added, `a` is what its number stands for. -/
theorem get?_numberOf (p : Pool α) (a : α) : (p.add a).get? (p.numberOf a) = some a := by
  cases h : p.find? a with
  | some n =>
    rw [numberOf, h]
    exact get?_add_of_get? a (find?_eq_some_iff.1 h)
  | none =>
    rw [numberOf, h, get?, values_add, if_neg (find?_eq_none_iff.1 h)]
    simp [size]

/-- All that adding a value changes is that its number stands for it. -/
theorem get?_add_eq_some_iff {p : Pool α} {a b : α} {n : Nat} :
    (p.add a).get? n = some b ↔ p.get? n = some b ∨ n = p.numberOf a ∧ b = a := by
  constructor
  · intro h
    cases hfind : p.find? a with
    | some m =>
      have hmem : a ∈ p.values := List.mem_of_getElem? (find?_eq_some_iff.1 hfind)
      exact .inl (add_of_mem hmem ▸ h)
    | none =>
      rw [get?, values_add, if_neg (find?_eq_none_iff.1 hfind), List.getElem?_append] at h
      split at h
      · exact .inl h
      · next hn =>
        rw [List.getElem?_singleton, Option.ite_none_right_eq_some, Option.some.injEq] at h
        obtain ⟨hlast, hab⟩ := h
        rw [numberOf, hfind, Option.getD_none, size]
        exact .inr ⟨by omega, hab.symm⟩
  · rintro (h | ⟨rfl, rfl⟩)
    · exact get?_add_of_get? a h
    · exact p.get?_numberOf b

/-- A value has one number only. -/
theorem get?_inj {p : Pool α} {a : α} {m n : Nat} (hm : p.get? m = some a)
    (hn : p.get? n = some a) : m = n :=
  Option.some.inj ((find?_eq_some_iff.2 hm).symm.trans (find?_eq_some_iff.2 hn))

/-- Two values with one number are equal. -/
theorem numberOf_inj {p : Pool α} {a b : α} (ha : a ∈ p.values) (hb : b ∈ p.values) :
    p.numberOf a = p.numberOf b ↔ a = b := by
  constructor
  · intro h
    have hga := p.get?_numberOf a
    have hgb := p.get?_numberOf b
    rw [add_of_mem ha] at hga
    rw [add_of_mem hb, ← h] at hgb
    exact Option.some.inj (hga.symm.trans hgb)
  · intro h
    rw [h]

end Pool

end Linkage
