import Linkage.Snapshot

/-!
# What a Cache Counts

A cache counts how often it was read with and without a table to return, and how many tables were
taken from it. The counters can be checked against each other and against the tables that are there:
every table came into the cache by a miss, or was there when the cache was copied, and has left it
by a counted eviction or is there still. Both laws are kept by every read and every eviction, and so
by the reads of a query, which evict and read again where they come upon an obsolete method.

## Main definitions

* `MemberCache.Accounts`: the tables of a cache are accounted for.
* `MemberCache.served`: how often a cache was read.
* `MemberCache.accesses`: how often the reads of a query read the cache.

## Main results

* `follow_induction`: what single reads and evictions keep, the reads of a query keep.
* `Accounts.follow`, `served_follow`: the two laws, over the reads of a query.
* `follow_of_fresh`: reads that find every table, and find it good, only count hits.
* `invalidations_invalidateAll`: evicting several types counts every table that was there once.
* `stats_invalidateAll_fork`: the counters that a successor starts with.
-/

namespace Linkage

namespace MemberCache

variable {c : MemberCache} {definition : TypeId → Option ClassDef} {stale : MemberTable → Bool}
  {given : Nat}

/-- **A cache accounts for its tables**: the ones that are there and the ones that were evicted are
together as many as were built and as it was given to begin with. -/
def Accounts (c : MemberCache) (given : Nat) : Prop := c.size + c.invalidations = c.misses + given

/-- How often the cache was read. -/
def served (c : MemberCache) : Nat := c.hits + c.misses

/-- How often the given reads read the cache. Where a table is stale they do so twice. -/
def accesses (c : MemberCache) (definition : TypeId → Option ClassDef)
    (stale : MemberTable → Bool) : List TypeId → Nat
  | [] => 0
  | t :: reads =>
    (if stale (c.read definition t).1 then 2 else 1) +
      (c.readFresh definition stale t).2.accesses definition stale reads

/-! ### Single reads and evictions -/

/-- An eviction counts no hits. -/
@[simp] theorem hits_invalidate (c : MemberCache) (t : TypeId) :
    (c.invalidate t).hits = c.hits := by
  rw [invalidate]
  split <;> rfl

/-- An eviction counts no misses. -/
@[simp] theorem misses_invalidate (c : MemberCache) (t : TypeId) :
    (c.invalidate t).misses = c.misses := by
  rw [invalidate]
  split <;> rfl

/-- An eviction serves no reads. -/
@[simp] theorem served_invalidate (c : MemberCache) (t : TypeId) :
    (c.invalidate t).served = c.served := by
  rw [served, hits_invalidate, misses_invalidate, served]

/-- A read is a miss if there is no table, -/
theorem misses_read (c : MemberCache) (definition : TypeId → Option ClassDef) (t : TypeId) :
    (c.read definition t).2.misses = c.misses + if c.contains t then 0 else 1 := by
  cases h : c.get? t with
  | some table =>
      have hc : c.contains t = true := Option.isSome_of_eq_some h
      rw [read_of_get? h, if_pos hc]
      rfl
  | none =>
      have hc : c.contains t = false := Option.isSome_eq_false_iff.2 (Option.isNone_iff_eq_none.2 h)
      rw [read_of_not_mem h, if_neg (by simp [hc])]

/-- and is counted in either case. -/
@[simp] theorem served_read (c : MemberCache) (definition : TypeId → Option ClassDef) (t : TypeId) :
    (c.read definition t).2.served = c.served + 1 := by
  cases h : c.get? t with
  | some table =>
      rw [read_of_get? h]
      exact Nat.add_right_comm ..
  | none =>
      rw [read_of_not_mem h]
      rfl

/-- A read evicts nothing. -/
@[simp] theorem invalidations_read (c : MemberCache) (definition : TypeId → Option ClassDef)
    (t : TypeId) : (c.read definition t).2.invalidations = c.invalidations := by
  rw [read]
  split <;> rfl

/-- **A table that is read stays accounted for**: if it was built, a miss was counted. -/
theorem Accounts.read (h : c.Accounts given) (definition : TypeId → Option ClassDef) (t : TypeId) :
    (c.read definition t).2.Accounts given := by
  have hsize := c.size_read definition t
  rw [Accounts] at h ⊢
  rw [invalidations_read]
  omega

/-- An evicted table stays accounted for. -/
theorem Accounts.invalidate (h : c.Accounts given) (t : TypeId) :
    (c.invalidate t).Accounts given := by
  rw [Accounts, size_invalidate, misses_invalidate]
  exact h

/-- A new cache was given nothing, and accounts for nothing. -/
theorem accounts_empty : empty.Accounts 0 := rfl

/-- A copy starts with the tables that it was given. -/
theorem accounts_fork (c : MemberCache) : c.fork.Accounts c.size := Nat.add_comm ..

/-! ### The reads of a query -/

/-- A read that evicts a stale table reads once more. -/
theorem snd_readFresh (c : MemberCache) (definition : TypeId → Option ClassDef)
    (stale : MemberTable → Bool) (t : TypeId) :
    (c.readFresh definition stale t).2 =
      if stale (c.read definition t).1 then
        (((c.read definition t).2.invalidate t).read definition t).2
      else (c.read definition t).2 := by
  simp only [readFresh]
  split <;> rfl

/-- What every read and every eviction keeps, a read that evicts a stale table keeps. -/
theorem readFresh_induction {P : MemberCache → Prop}
    (hread : ∀ c t, P c → P (c.read definition t).2)
    (hinvalidate : ∀ c t, P c → P (c.invalidate t)) (h : P c) (t : TypeId) :
    P (c.readFresh definition stale t).2 := by
  rw [snd_readFresh]
  split
  · exact hread _ t (hinvalidate _ t (hread c t h))
  · exact hread c t h

/-- **What every read and every eviction keeps**, the reads of a query keep. -/
theorem follow_induction {P : MemberCache → Prop}
    (hread : ∀ c t, P c → P (c.read definition t).2)
    (hinvalidate : ∀ c t, P c → P (c.invalidate t)) (h : P c) (reads : List TypeId) :
    P (c.follow definition stale reads) := by
  induction reads generalizing c with
  | nil => exact h
  | cons t reads ih => exact ih (readFresh_induction hread hinvalidate h t)

/-- **Tables stay accounted for** over the reads of a query. -/
theorem Accounts.follow (h : c.Accounts given) (definition : TypeId → Option ClassDef)
    (stale : MemberTable → Bool) (reads : List TypeId) :
    (c.follow definition stale reads).Accounts given :=
  follow_induction (P := (Accounts · given)) (fun _ t hc => hc.read definition t)
    (fun _ t hc => hc.invalidate t) h reads

/-- A read takes no misses away. -/
theorem misses_le_read (c : MemberCache) (definition : TypeId → Option ClassDef) (t : TypeId) :
    c.misses ≤ (c.read definition t).2.misses := by
  rw [misses_read]
  exact Nat.le_add_right ..

/-- A read that evicts a stale table is served twice. -/
theorem served_readFresh (c : MemberCache) (definition : TypeId → Option ClassDef)
    (stale : MemberTable → Bool) (t : TypeId) :
    (c.readFresh definition stale t).2.served =
      c.served + if stale (c.read definition t).1 then 2 else 1 := by
  rw [snd_readFresh]
  split <;> simp

/-- **Every access is counted** over the reads of a query. -/
theorem served_follow (c : MemberCache) (definition : TypeId → Option ClassDef)
    (stale : MemberTable → Bool) (reads : List TypeId) :
    (c.follow definition stale reads).served =
      c.served + c.accesses definition stale reads := by
  induction reads generalizing c with
  | nil => rfl
  | cons t reads ih => rw [follow_cons, ih, served_readFresh, accesses, Nat.add_assoc]

/-- **Reads that find every table**, and find it good, count hits and do nothing else. -/
theorem follow_of_fresh {reads : List TypeId}
    (h : ∀ t ∈ reads, ∃ kept, c.get? t = some kept ∧ stale kept = false) :
    c.follow definition stale reads = { c with hits := c.hits + reads.length } := by
  induction reads generalizing c with
  | nil => rfl
  | cons t reads ih =>
      obtain ⟨kept, hkept, hfresh⟩ := h t List.mem_cons_self
      have hread : (c.readFresh definition stale t).2 = { c with hits := c.hits + 1 } := by
        rw [snd_readFresh, read_of_get? hkept, if_neg (by simp [hfresh])]
      have hrest := @ih { c with hits := c.hits + 1 } fun u hu => h u (List.mem_cons_of_mem _ hu)
      rw [follow_cons, hread, hrest, List.length_cons, Nat.add_assoc, Nat.add_comm 1]

/-! ### Evicting several types -/

/-- Evictions count no hits. -/
@[simp] theorem hits_invalidateAll (c : MemberCache) (types : List TypeId) :
    (c.invalidateAll types).hits = c.hits := by
  induction types generalizing c with
  | nil => rfl
  | cons t types ih => exact (ih (c.invalidate t)).trans (c.hits_invalidate t)

/-- Evictions count no misses. -/
@[simp] theorem misses_invalidateAll (c : MemberCache) (types : List TypeId) :
    (c.invalidateAll types).misses = c.misses := by
  induction types generalizing c with
  | nil => rfl
  | cons t types ih => exact (ih (c.invalidate t)).trans (c.misses_invalidate t)

/-- Evicted tables stay accounted for. -/
theorem Accounts.invalidateAll (h : c.Accounts given) (types : List TypeId) :
    (c.invalidateAll types).Accounts given := by
  induction types generalizing c with
  | nil => exact h
  | cons t types ih => exact ih (h.invalidate t)

/-- A table is kept if its type is among the keys. -/
theorem contains_iff_mem_keys {t : TypeId} : c.contains t = true ↔ t ∈ c.tables.keys :=
  c.tables.contains_iff_mem_keys t

/-- An eviction removes one key. -/
theorem keys_invalidate (c : MemberCache) (t : TypeId) :
    (c.invalidate t).tables.keys = c.tables.keys.filter (· ≠ t) := by
  rw [MemberCache.invalidate]
  split
  · exact c.tables.keys_erase t
  · next h =>
      refine (List.filter_eq_self.2 fun u hu => decide_eq_true ?_).symm
      rintro rfl
      exact h (contains_iff_mem_keys.2 hu)

/-- Evictions remove the keys of the types that are listed. -/
theorem keys_invalidateAll (c : MemberCache) (types : List TypeId) :
    (c.invalidateAll types).tables.keys = c.tables.keys.filter (· ∉ types) := by
  induction types generalizing c with
  | nil => exact (List.filter_eq_self.2 fun _ _ => decide_eq_true List.not_mem_nil).symm
  | cons t types ih =>
      refine (ih (c.invalidate t)).trans ?_
      rw [keys_invalidate, List.filter_filter]
      refine List.filter_congr fun u _ => ?_
      simp [Bool.and_comm]

/-- The tables that stay are those of the types that are not listed. -/
theorem size_invalidateAll (c : MemberCache) (types : List TypeId) :
    (c.invalidateAll types).size = c.tables.keys.countP (· ∉ types) := by
  rw [size, ← OrderedMap.length_keys, keys_invalidateAll, List.countP_eq_length_filter]

/-- Every counted eviction takes one table away. -/
theorem size_add_invalidations_invalidateAll (c : MemberCache) (types : List TypeId) :
    (c.invalidateAll types).size + (c.invalidateAll types).invalidations =
      c.size + c.invalidations := by
  induction types generalizing c with
  | nil => rfl
  | cons t types ih => exact (ih (c.invalidate t)).trans (c.size_invalidate t)

/-- **Every table that was there is counted once**, however often its type is listed. -/
theorem invalidations_invalidateAll (c : MemberCache) (types : List TypeId) :
    (c.invalidateAll types).invalidations =
      c.invalidations + c.tables.keys.countP (· ∈ types) := by
  have hsize := c.size_add_invalidations_invalidateAll types
  have hsplit : c.size = c.tables.keys.countP (· ∈ types) + c.tables.keys.countP (· ∉ types) := by
    rw [size, ← OrderedMap.length_keys, List.length_eq_countP_add_countP (· ∈ types)]
    simp only [decide_not, Bool.decide_eq_true]
  rw [size_invalidateAll] at hsize
  omega

/-- The counters of a copy, less the tables of the listed types. -/
theorem stats_invalidateAll_fork (c : MemberCache) (types : List TypeId) :
    (c.fork.invalidateAll types).stats =
      ⟨0, 0, c.tables.keys.countP (· ∈ types), c.tables.keys.countP (· ∉ types)⟩ := by
  rw [stats, hits_invalidateAll, misses_invalidateAll, invalidations_invalidateAll,
    size_invalidateAll]
  exact congrArg (CacheStats.mk 0 0 · _) (Nat.zero_add _)

end MemberCache

end Linkage
