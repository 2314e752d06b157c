import Linkage.MemberTable

/-!
# Member Caches

Member tables that were built once and are kept until they are evicted. The table of a type is
built from the definition that the type has when the table is first read; from then on the cache
answers from its own copy, whatever happens to the definition. Reads are counted as hits and
misses, and evictions of tables that were there as invalidations.

## Main results

* `read_of_get?`, `read_of_not_mem`: a read with and without a table.
* `size_read`, `size_invalidate`: every miss adds one table and every counted eviction takes
  one away.
-/

namespace Linkage

/-- The counters of a cache, with the number of its tables. -/
structure CacheStats where
  hits : Nat
  misses : Nat
  invalidations : Nat
  entries : Nat
deriving DecidableEq, Repr, Inhabited

/-- Member tables by type, with counters. -/
structure MemberCache where
  tables : OrderedMap TypeId MemberTable
  hits : Nat
  misses : Nat
  invalidations : Nat

namespace MemberCache

/-- The cache without tables. -/
def empty : MemberCache := ⟨.empty, 0, 0, 0⟩

instance : Inhabited MemberCache := ⟨empty⟩

/-- The table that is kept for a type. Asking counts nothing. -/
def get? (c : MemberCache) (t : TypeId) : Option MemberTable := c.tables.get? t

/-- Whether a table is kept for a type. -/
def contains (c : MemberCache) (t : TypeId) : Bool := c.tables.contains t

/-- The number of tables. -/
def size (c : MemberCache) : Nat := c.tables.size

/-- The counters. -/
def stats (c : MemberCache) : CacheStats := ⟨c.hits, c.misses, c.invalidations, c.size⟩

/-- Reads the table of a type. If none is kept, it is built from the definition that the type
has now. -/
def read (c : MemberCache) (definition : TypeId → Option ClassDef) (t : TypeId) :
    MemberTable × MemberCache :=
  match c.get? t with
  | some table => (table, { c with hits := c.hits + 1 })
  | none =>
    let table := MemberTable.ofDefinition? (definition t)
    (table, { c with tables := c.tables.insert t table, misses := c.misses + 1 })

/-- Evicts the table of a type. Only a table that was there counts. -/
def invalidate (c : MemberCache) (t : TypeId) : MemberCache :=
  if c.contains t then
    { c with tables := c.tables.erase t, invalidations := c.invalidations + 1 }
  else c

/-- Evicts the tables of several types, in order. -/
def invalidateAll (c : MemberCache) (types : List TypeId) : MemberCache :=
  types.foldl invalidate c

/-- Drops all tables. Nothing is counted. -/
def clear (c : MemberCache) : MemberCache := { c with tables := .empty }

/-- A copy of the tables with counters at zero. -/
def fork (c : MemberCache) : MemberCache := { empty with tables := c.tables }

/-! ### Reads and evictions -/

/-- No table is kept at first. -/
@[simp] theorem get?_empty (t : TypeId) : empty.get? t = none := rfl

/-- A table that is kept is read, and counts as a hit. -/
theorem read_of_get? {c : MemberCache} {t : TypeId} {table : MemberTable}
    (h : c.get? t = some table) (definition : TypeId → Option ClassDef) :
    c.read definition t = (table, { c with hits := c.hits + 1 }) := by
  rw [read, h]

/-- One that is not is built, kept, and counts as a miss. -/
theorem read_of_not_mem {c : MemberCache} {t : TypeId} (h : c.get? t = none)
    (definition : TypeId → Option ClassDef) :
    c.read definition t =
      (MemberTable.ofDefinition? (definition t),
        { c with
          tables := c.tables.insert t (MemberTable.ofDefinition? (definition t))
          misses := c.misses + 1 }) := by
  rw [read, h]

/-- After a read the cache keeps the table that was read, and the others as before. -/
theorem get?_read (c : MemberCache) (definition : TypeId → Option ClassDef) (t u : TypeId) :
    (c.read definition t).2.get? u =
      if t = u then some (c.read definition t).1 else c.get? u := by
  cases h : c.get? t with
  | some table =>
    rw [read_of_get? h]
    split
    · next htu => rw [← htu]; exact h
    · rfl
  | none =>
    rw [read_of_not_mem h]
    exact OrderedMap.get?_insert ..

/-- An eviction takes away one table, and leaves the others. -/
theorem get?_invalidate (c : MemberCache) (t u : TypeId) :
    (c.invalidate t).get? u = if t = u then none else c.get? u := by
  rw [invalidate]
  split
  · exact OrderedMap.get?_erase ..
  · next h =>
    split
    · next htu =>
      rw [← htu]
      simpa [contains, OrderedMap.contains, get?] using h
    · rfl

/-- Every miss adds one table. -/
theorem size_read (c : MemberCache) (definition : TypeId → Option ClassDef) (t : TypeId) :
    (c.read definition t).2.size + c.misses = c.size + (c.read definition t).2.misses := by
  cases h : c.get? t with
  | some table => rw [read_of_get? h]; rfl
  | none =>
    rw [read_of_not_mem h]
    have hc : c.tables.contains t = false := by
      simpa [OrderedMap.contains, get?] using h
    simp only [size, OrderedMap.size_insert, hc]
    simp
    omega

/-- Every counted eviction takes one table away. -/
theorem size_invalidate (c : MemberCache) (t : TypeId) :
    (c.invalidate t).size + (c.invalidate t).invalidations = c.size + c.invalidations := by
  rw [invalidate]
  split
  · next h =>
    have hpos : 0 < c.tables.size := by
      rw [← OrderedMap.length_keys]
      exact List.length_pos_of_mem ((OrderedMap.contains_iff_mem_keys _ _).1 h)
    rw [contains] at h
    simp only [size, OrderedMap.size_erase, h, if_true]
    omega
  · rfl

end MemberCache

end Linkage
