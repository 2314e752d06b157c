import Linkage.MemberCache
import Linkage.Options
import Linkage.Query

/-!
# Snapshots

A snapshot is a class store with classes of its own on top, a cache of member tables, and the
options that its walks obey. A lineage of snapshots shares one generation counter; a snapshot
remembers the generation it was made at and is live as long as the counter has not moved on.

A method that is marked obsolete is not good enough for a look-up: the table in which it was
found is evicted and built again from the definition, once, and whatever is found then counts.
One query looks for one signature in all the tables it reads, so that a table is either good for
the whole query or built again at its first read. A query is therefore asked of the view that
has every table as the query will find it, and afterwards its reads are made on the cache.

## Main results

* `table_read`: the view has exactly the tables that the reads return.
* `table_afterReads`: no read changes what a later one returns.
-/

namespace Linkage

namespace MemberCache

/-- Reads the table of a type, and if it is stale, evicts it and reads again. -/
def readFresh (c : MemberCache) (definition : TypeId → Option ClassDef)
    (stale : MemberTable → Bool) (t : TypeId) : MemberTable × MemberCache :=
  let (table, c) := c.read definition t
  if stale table then (c.invalidate t).read definition t else (table, c)

/-- Makes the given reads, in order. -/
def follow (c : MemberCache) (definition : TypeId → Option ClassDef)
    (stale : MemberTable → Bool) (reads : List TypeId) : MemberCache :=
  reads.foldl (fun c t => (c.readFresh definition stale t).2) c

/-- Without reads the cache stays as it is. -/
@[simp] theorem follow_nil (c : MemberCache) (definition : TypeId → Option ClassDef)
    (stale : MemberTable → Bool) : c.follow definition stale [] = c := rfl

/-- Reads are made one after the other. -/
theorem follow_cons (c : MemberCache) (definition : TypeId → Option ClassDef)
    (stale : MemberTable → Bool) (t : TypeId) (ts : List TypeId) :
    c.follow definition stale (t :: ts) =
      (c.readFresh definition stale t).2.follow definition stale ts := rfl

/-- A read leaves the cache with the table that it returned, and the other tables as they were. -/
theorem get?_readFresh (c : MemberCache) (definition : TypeId → Option ClassDef)
    (stale : MemberTable → Bool) (t u : TypeId) :
    (c.readFresh definition stale t).2.get? u =
      if t = u then some (c.readFresh definition stale t).1 else c.get? u := by
  rw [readFresh]
  by_cases hstale : stale (c.read definition t).1 = true
  · simp only [if_pos hstale, get?_read, get?_invalidate]
    split <;> rfl
  · simp only [if_neg hstale, get?_read]

end MemberCache

/-- A class store with classes of its own on top, a cache and options. Lineage and store are
numbers in a workspace. -/
structure Snapshot where
  lineage : Nat
  generation : Nat
  store : Nat
  synthesized : ClassStore
  cache : MemberCache
  options : Options

namespace Snapshot

/-- The generation that the first snapshot of a lineage is made at. -/
def firstGeneration : Nat := 1

/-- The definition of a type. A class of the snapshot's own comes before one of the store. -/
def definition (s : Snapshot) (store : ClassStore) (t : TypeId) : Option ClassDef :=
  (s.synthesized.get? t).orElse fun _ => store.get? t

/-- Whether a table holds an obsolete method under the signature that is looked for. -/
def stale (marks : Marks) (sig? : Option MethodSig) (table : MemberTable) : Bool :=
  (sig?.bind table.method?).any marks.has

/-- The table of a type as a query for the given signature finds it: the one that is kept, unless
there is none or it is stale, and then the one that the definition has now. -/
def table (s : Snapshot) (store : ClassStore) (marks : Marks) (sig? : Option MethodSig)
    (t : TypeId) : MemberTable :=
  match s.cache.get? t with
  | some kept =>
    if stale marks sig? kept then MemberTable.ofDefinition? (s.definition store t) else kept
  | none => MemberTable.ofDefinition? (s.definition store t)

/-- A table is stale if the method that the query looks for is there and marked. -/
theorem stale_eq_true_iff {marks : Marks} {sig? : Option MethodSig} {table : MemberTable} :
    stale marks sig? table = true ↔
      ∃ sig m, sig? = some sig ∧ table.method? sig = some m ∧ marks.has m = true := by
  simp only [stale, Option.any_eq_true, Option.bind_eq_some_iff]
  constructor
  · rintro ⟨m, ⟨sig, hsig, hm⟩, hmarked⟩
    exact ⟨sig, m, hsig, hm, hmarked⟩
  · rintro ⟨sig, m, hsig, hm, hmarked⟩
    exact ⟨m, ⟨sig, hsig, hm⟩, hmarked⟩

section Table

variable {s : Snapshot} {marks : Marks} {sig? : Option MethodSig} {t : TypeId} {kept : MemberTable}

/-- A table that is kept and not stale is what a query finds. -/
theorem table_of_get? (hkept : s.cache.get? t = some kept) (hfresh : stale marks sig? kept = false)
    (store : ClassStore) : s.table store marks sig? t = kept := by
  simp [table, hkept, hfresh]

/-- A table that is stale is built again. -/
theorem table_of_stale (hkept : s.cache.get? t = some kept) (hstale : stale marks sig? kept = true)
    (store : ClassStore) :
    s.table store marks sig? t = MemberTable.ofDefinition? (s.definition store t) := by
  simp [table, hkept, hstale]

/-- A table that is not kept is built. -/
theorem table_of_not_mem (h : s.cache.get? t = none) (store : ClassStore) (marks : Marks)
    (sig? : Option MethodSig) :
    s.table store marks sig? t = MemberTable.ofDefinition? (s.definition store t) := by
  simp [table, h]

end Table

/-- Every type with a definition is in the store or among the snapshot's own. -/
theorem mem_keys_of_definition {s : Snapshot} {store : ClassStore} {t : TypeId} {c : ClassDef}
    (h : s.definition store t = some c) :
    t ∈ s.synthesized.classes.keys ++ store.classes.keys := by
  rw [List.mem_append]
  cases hs : s.synthesized.get? t with
  | some d => exact .inl (ClassStore.mem_keys_of_get? hs)
  | none =>
    rw [definition, hs] at h
    exact .inr (ClassStore.mem_keys_of_get? h)

/-- What a query for the given signature sees. -/
def view (s : Snapshot) (types : TypeTable) (store : ClassStore) (marks : Marks)
    (sig? : Option MethodSig) : View where
  types := types
  definition := s.definition store
  table := s.table store marks sig?
  maxDepth := s.options.maxDepth
  domain := s.synthesized.classes.keys ++ store.classes.keys
  mem_domain := mem_keys_of_definition

/-- What a query would see if nothing were ever kept. -/
def uncachedView (s : Snapshot) (types : TypeTable) (store : ClassStore) : View where
  types := types
  definition := s.definition store
  table t := MemberTable.ofDefinition? (s.definition store t)
  maxDepth := s.options.maxDepth
  domain := s.synthesized.classes.keys ++ store.classes.keys
  mem_domain := mem_keys_of_definition

/-- The snapshot after a query has made its reads. -/
def afterReads (s : Snapshot) (store : ClassStore) (marks : Marks) (sig? : Option MethodSig)
    (reads : List TypeId) : Snapshot :=
  { s with cache := s.cache.follow (s.definition store) (stale marks sig?) reads }

/-! ### The view has the tables that the reads return -/

/-- A query finds definitions under their own types. -/
theorem typed_view (s : Snapshot) (types : TypeTable) (store : ClassStore) (marks : Marks)
    (sig? : Option MethodSig) : (s.view types store marks sig?).Typed := by
  intro t c h
  change s.definition store t = some c at h
  rw [definition] at h
  cases hs : s.synthesized.get? t with
  | some d =>
    rw [hs] at h
    exact ClassStore.type_eq_of_get? (hs.trans h)
  | none =>
    rw [hs] at h
    exact ClassStore.type_eq_of_get? h

/-- A read finds the table of the view. -/
theorem table_read (s : Snapshot) (store : ClassStore) (marks : Marks)
    (sig? : Option MethodSig) (t : TypeId) :
    (s.cache.readFresh (s.definition store) (stale marks sig?) t).1 =
      s.table store marks sig? t := by
  rw [MemberCache.readFresh, table]
  cases h : s.cache.get? t with
  | some kept =>
    rw [MemberCache.read_of_get? h]
    by_cases hstale : stale marks sig? kept = true
    · have hevicted : (MemberCache.invalidate { s.cache with hits := s.cache.hits + 1 } t).get? t
          = none := by
        rw [MemberCache.get?_invalidate, if_pos rfl]
      simp only [hstale, if_true]
      rw [MemberCache.read_of_not_mem hevicted]
    · simp [hstale]
  | none =>
    rw [MemberCache.read_of_not_mem h]
    by_cases hstale :
        stale marks sig? (MemberTable.ofDefinition? (s.definition store t)) = true
    · simp only [hstale, if_true]
      rw [MemberCache.read_of_not_mem]
      rw [MemberCache.get?_invalidate, if_pos rfl]
    · simp [hstale]

/-- Reads change no table of the view. -/
theorem table_afterReads (s : Snapshot) (store : ClassStore) (marks : Marks)
    (sig? : Option MethodSig) (reads : List TypeId) :
    (s.afterReads store marks sig? reads).table store marks sig? = s.table store marks sig? := by
  induction reads generalizing s with
  | nil => rfl
  | cons t reads ih =>
    refine (ih { s with
      cache := (s.cache.readFresh (s.definition store) (stale marks sig?) t).2 }).trans ?_
    funext u
    rw [table]
    simp only [MemberCache.get?_readFresh]
    by_cases h : t = u
    · subst h
      rw [if_pos rfl, table_read]
      rw [table]
      simp only [definition]
      cases hk : s.cache.get? t with
      | none => simp
      | some kept =>
        by_cases hs : stale marks sig? kept = true <;> simp [hs]
    · rw [if_neg h]
      rfl

/-- The cache keeps the tables that were read, as the query found them. -/
theorem get?_afterReads (s : Snapshot) (store : ClassStore) (marks : Marks)
    (sig? : Option MethodSig) (reads : List TypeId) (t : TypeId) :
    (s.afterReads store marks sig? reads).cache.get? t =
      if t ∈ reads then some (s.table store marks sig? t) else s.cache.get? t := by
  induction reads generalizing s with
  | nil => rfl
  | cons u reads ih =>
    refine (ih (s.afterReads store marks sig? [u])).trans ?_
    have hread : (s.afterReads store marks sig? [u]).cache.get? t =
        if u = t then some (s.table store marks sig? u) else s.cache.get? t := by
      rw [← table_read]
      exact MemberCache.get?_readFresh ..
    rw [table_afterReads, hread]
    by_cases ht : t ∈ reads
    · rw [if_pos ht, if_pos (List.mem_cons_of_mem _ ht)]
    · by_cases hu : u = t
      · subst hu
        rw [if_neg ht, if_pos rfl, if_pos List.mem_cons_self]
      · rw [if_neg ht, if_neg hu, if_neg (by simp [ht, Ne.symm hu])]

/-- So a read finds the table of the view, whatever was read before. -/
theorem table_read_afterReads (s : Snapshot) (store : ClassStore) (marks : Marks)
    (sig? : Option MethodSig) (reads : List TypeId) (t : TypeId) :
    ((s.afterReads store marks sig? reads).cache.readFresh (s.definition store)
      (stale marks sig?) t).1 = s.table store marks sig? t :=
  (table_read (s.afterReads store marks sig? reads) store marks sig? t).trans
    (congrFun (s.table_afterReads store marks sig? reads) t)

end Snapshot

end Linkage
