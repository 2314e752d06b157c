/-!
# Insertion-Ordered Maps

A finite map that remembers in which order its keys first came in. Storing under a key that is
already there keeps the key's place, so a listing never depends on hashing or on how often a
key was written.

## Main results

* `get?_insert`, `get?_erase`: what a read finds after a write.
* `keys_insert`, `size_erase`: the order of the keys and their number.
-/

namespace Linkage

/-- A finite map with its entries in order of first insertion; each key stands once. -/
structure OrderedMap (κ α : Type) where
  entries : List (κ × α)
  nodup : (entries.map Prod.fst).Nodup := by simp

namespace OrderedMap

variable {κ α : Type}

/-- The map without entries. -/
def empty : OrderedMap κ α where
  entries := []

instance : Inhabited (OrderedMap κ α) := ⟨empty⟩

/-- The keys, in order of first insertion. -/
def keys (m : OrderedMap κ α) : List κ := m.entries.map Prod.fst

/-- The stored values, in the order of their keys. -/
def values (m : OrderedMap κ α) : List α := m.entries.map Prod.snd

/-- The number of keys. -/
def size (m : OrderedMap κ α) : Nat := m.entries.length

/-- An empty map has no keys. -/
@[simp] theorem keys_empty : (empty : OrderedMap κ α).keys = [] := rfl

/-- An empty map has no entries. -/
@[simp] theorem size_empty : (empty : OrderedMap κ α).size = 0 := rfl

/-- There are as many keys as entries. -/
theorem length_keys (m : OrderedMap κ α) : m.keys.length = m.size := List.length_map _

/-- No key occurs twice. -/
theorem nodup_keys (m : OrderedMap κ α) : m.keys.Nodup := m.nodup

variable [DecidableEq κ]

/-! ### Lists of entries -/

/-- The value that the first entry with key `k` holds. -/
def find (k : κ) : List (κ × α) → Option α
  | [] => none
  | (j, a) :: rest => if j = k then some a else find k rest

/-- Stores `a` under `k`: in the place of the entry with that key, or else at the end. -/
def put (k : κ) (a : α) : List (κ × α) → List (κ × α)
  | [] => [(k, a)]
  | (j, b) :: rest => if j = k then (k, a) :: rest else (j, b) :: put k a rest

/-- A key has a value exactly when it is listed. -/
theorem find_eq_none_iff {k : κ} {es : List (κ × α)} :
    find k es = none ↔ k ∉ es.map Prod.fst := by
  induction es with
  | nil => simp [find]
  | cons e es ih =>
    by_cases h : e.1 = k
    · simp [find, h]
    · simp [find, h, ih, Ne.symm h]

/-- An entry that is put in keeps its key's place, or comes last if the key is new. -/
theorem map_fst_put (k : κ) (a : α) (es : List (κ × α)) :
    (put k a es).map Prod.fst =
      if k ∈ es.map Prod.fst then es.map Prod.fst else es.map Prod.fst ++ [k] := by
  induction es with
  | nil => simp [put]
  | cons e es ih =>
    by_cases h : e.1 = k
    · simp [put, h]
    · by_cases hk : k ∈ es.map Prod.fst
      · rw [if_pos hk] at ih
        rw [put, if_neg h, List.map_cons, ih, List.map_cons,
          if_pos (List.mem_cons_of_mem _ hk)]
      · rw [if_neg hk] at ih
        rw [put, if_neg h, List.map_cons, ih, List.map_cons,
          if_neg (by simp only [List.mem_cons, not_or]; exact ⟨Ne.symm h, hk⟩),
          List.cons_append]

/-- The entry that is put in is found under its key, and the others under theirs. -/
theorem find_put (k j : κ) (a : α) (es : List (κ × α)) :
    find j (put k a es) = if k = j then some a else find j es := by
  induction es with
  | nil => simp [put, find]
  | cons e es ih =>
    by_cases h : e.1 = k
    · by_cases hj : k = j
      · simp [put, find, h, hj]
      · simp [put, find, h, hj]
    · by_cases hj : e.1 = j
      · have hkj : k ≠ j := fun hkj => h (hj.trans hkj.symm)
        simp [put, find, hj, hkj, Ne.symm hkj]
      · simp [put, find, h, hj, ih]

/-- Without the entries of a key, the others are found as before. -/
theorem find_filter_ne (k j : κ) (es : List (κ × α)) :
    find j (es.filter fun e => e.1 ≠ k) = if k = j then none else find j es := by
  induction es with
  | nil => simp [find]
  | cons e es ih =>
    by_cases h : e.1 = k
    · by_cases hj : k = j
      · simp [h, hj] at ih ⊢; exact ih
      · simp [find, h, hj] at ih ⊢; exact ih
    · by_cases hj : e.1 = j
      · have hkj : k ≠ j := fun hkj => h (hj.trans hkj.symm)
        simp [find, hj, hkj, Ne.symm hkj]
      · simp [find, h, hj] at ih ⊢; exact ih

/-- A value is found under its key, if no other entry has this key. -/
theorem find_eq_some_iff {k : κ} {a : α} {es : List (κ × α)} (h : (es.map Prod.fst).Nodup) :
    find k es = some a ↔ (k, a) ∈ es := by
  induction es with
  | nil => simp [find]
  | cons e es ih =>
    rw [List.map_cons, List.nodup_cons] at h
    obtain ⟨j, b⟩ := e
    by_cases hj : j = k
    · subst hj
      have hrest : (j, a) ∉ es := fun hmem => h.1 (List.mem_map.2 ⟨_, hmem, rfl⟩)
      simp [find, hrest, eq_comm]
    · rw [find, if_neg hj, ih h.2, List.mem_cons, or_iff_right]
      rintro ⟨rfl, -⟩
      exact hj rfl

/-- A value under a new key goes to the end. -/
theorem put_of_notMem {k : κ} (a : α) {es : List (κ × α)} (h : k ∉ es.map Prod.fst) :
    put k a es = es ++ [(k, a)] := by
  induction es with
  | nil => rfl
  | cons e es ih =>
    rw [List.map_cons, List.mem_cons, not_or] at h
    rw [put, if_neg (Ne.symm h.1), ih h.2, List.cons_append]

/-! ### Operations -/

/-- The value stored under `k`. -/
def get? (m : OrderedMap κ α) (k : κ) : Option α := find k m.entries

/-- Whether something is stored under `k`. -/
def contains (m : OrderedMap κ α) (k : κ) : Bool := (m.get? k).isSome

/-- Stores `a` under `k`. A key that was there keeps its place. -/
def insert (m : OrderedMap κ α) (k : κ) (a : α) : OrderedMap κ α where
  entries := put k a m.entries
  nodup := by
    rw [map_fst_put]
    split
    · exact m.nodup
    · next h =>
      rw [List.nodup_append]
      exact ⟨m.nodup, by simp, fun x hx y hy => by
        rw [List.mem_singleton] at hy
        subst hy
        intro hxy
        subst hxy
        exact h hx⟩

/-- Stores `a` under `k` unless something is stored there. -/
def insertNew (m : OrderedMap κ α) (k : κ) (a : α) : OrderedMap κ α :=
  if m.contains k then m else m.insert k a

/-- Removes what is stored under `k`. -/
def erase (m : OrderedMap κ α) (k : κ) : OrderedMap κ α where
  entries := m.entries.filter fun e => e.1 ≠ k
  nodup := m.nodup.sublist (List.filter_sublist.map Prod.fst)

/-! ### What a read finds after a write -/

/-- Nothing is found in an empty map. -/
@[simp] theorem get?_empty (k : κ) : (empty : OrderedMap κ α).get? k = none := rfl

/-- **What is found after an insertion**: the value inserted, and otherwise what was there. -/
theorem get?_insert (m : OrderedMap κ α) (k j : κ) (a : α) :
    (m.insert k a).get? j = if k = j then some a else m.get? j :=
  find_put k j a m.entries

/-- The value inserted is found. -/
@[simp] theorem get?_insert_self (m : OrderedMap κ α) (k : κ) (a : α) :
    (m.insert k a).get? k = some a := by
  simp [get?_insert]

/-- **What is found after a removal**: nothing under the key, and otherwise what was there. -/
theorem get?_erase (m : OrderedMap κ α) (k j : κ) :
    (m.erase k).get? j = if k = j then none else m.get? j :=
  find_filter_ne k j m.entries

/-- An insertion of what is new leaves the value that a key has. -/
theorem get?_insertNew (m : OrderedMap κ α) (k j : κ) (a : α) :
    (m.insertNew k a).get? j = if k = j then some ((m.get? k).getD a) else m.get? j := by
  by_cases hk : k = j
  · subst hk
    cases h : m.get? k with
    | none => simp [insertNew, contains, h]
    | some b => simp [insertNew, contains, h]
  · rw [insertNew]
    split <;> simp [get?_insert, hk]

/-- The entries are what is found. -/
theorem mem_entries_iff {m : OrderedMap κ α} {k : κ} {a : α} :
    (k, a) ∈ m.entries ↔ m.get? k = some a :=
  (find_eq_some_iff m.nodup).symm

/-- A key that is contained is one of the keys. -/
theorem contains_iff_mem_keys (m : OrderedMap κ α) (k : κ) :
    m.contains k = true ↔ k ∈ m.keys := by
  rw [contains, Option.isSome_iff_ne_none, ne_eq, get?, find_eq_none_iff, Decidable.not_not]
  rfl

/-! ### The keys and their number -/

/-- An insertion keeps the order of the keys, and puts a new one last. -/
theorem keys_insert (m : OrderedMap κ α) (k : κ) (a : α) :
    (m.insert k a).keys = if k ∈ m.keys then m.keys else m.keys ++ [k] :=
  map_fst_put k a m.entries

/-- A removal keeps the order of the other keys. -/
theorem keys_erase (m : OrderedMap κ α) (k : κ) :
    (m.erase k).keys = m.keys.filter fun j => j ≠ k := by
  simp only [keys, erase, List.filter_map]
  rfl

/-- An insertion adds an entry if its key is new. -/
theorem size_insert (m : OrderedMap κ α) (k : κ) (a : α) :
    (m.insert k a).size = if m.contains k then m.size else m.size + 1 := by
  rw [← length_keys, keys_insert, ← length_keys]
  by_cases h : k ∈ m.keys
  · rw [if_pos h, if_pos ((m.contains_iff_mem_keys k).2 h)]
  · rw [if_neg h, if_neg (fun hc => h ((m.contains_iff_mem_keys k).1 hc)), List.length_append]
    rfl

/-- Removing a key that is there takes exactly one entry away. -/
theorem size_erase (m : OrderedMap κ α) (k : κ) :
    (m.erase k).size = if m.contains k then m.size - 1 else m.size := by
  rw [← length_keys, keys_erase, ← length_keys]
  have hfilter : (m.keys.filter fun j => j ≠ k) = m.keys.erase k := by
    rw [List.Nodup.erase_eq_filter m.nodup_keys]
    exact List.filter_congr fun j _ => by by_cases h : j = k <;> simp [h]
  rw [hfilter, List.length_erase]
  by_cases h : k ∈ m.keys
  · rw [if_pos h, if_pos ((m.contains_iff_mem_keys k).2 h)]
  · rw [if_neg h, if_neg (fun hc => h ((m.contains_iff_mem_keys k).1 hc))]

end OrderedMap

end Linkage
