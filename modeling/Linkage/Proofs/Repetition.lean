import Linkage.Proofs.CacheCounters
import Linkage.Proofs.ObsoleteMethods

/-!
# Asking Twice

A query changes the cache that it is answered from. It fills in the tables that it reads, and where
it comes upon an obsolete method it evicts the table and builds it anew; one query may do all this
several times, and for the same type. None of it makes a difference to the query itself: asked a
second time it goes the same way and finds the same.

Whether the second time is also quick depends on what is published. A table that is built from a
definition with a marked method is stale again as soon as it is there, and every later query for the
method evicts it and builds it once more. Where no published class has a marked method, the first
query leaves every table that it read in the cache, and good, and the second one only counts hits,
however stale the cache was before.

## Main definitions

* `Snapshot.Publishes`: a class that the store or the snapshot itself gives a type.

## Main results

* `Snapshot.view_afterReads`: a query leaves the view that it was asked of.
* `Snapshot.table_fresh`: where nothing published is marked, no table of the view is stale.
* `Snapshot.afterReads_again`: then the same reads, made again, are hits.
* `Workspace.ask_twice`: asking twice.
-/

namespace Linkage

namespace Snapshot

variable {s : Snapshot} {store : ClassStore} {marks : Marks} {sig? : Option MethodSig}
  {t : TypeId}

/-- A class that the store or the snapshot itself gives a type. -/
def Publishes (s : Snapshot) (store : ClassStore) (c : ClassDef) : Prop :=
  ∃ t, s.synthesized.get? t = some c ∨ store.get? t = some c

/-- A definition that a snapshot has was published. -/
theorem publishes_of_definition {c : ClassDef} (h : s.definition store t = some c) :
    s.Publishes store c := by
  rw [definition] at h
  cases hs : s.synthesized.get? t with
  | some d =>
      rw [hs] at h
      exact ⟨t, .inl (hs.trans h)⟩
  | none =>
      rw [hs] at h
      exact ⟨t, .inr h⟩

/-- The reads of a query change nothing that the query sees. -/
theorem view_afterReads (s : Snapshot) (types : TypeTable) (store : ClassStore) (marks : Marks)
    (sig? : Option MethodSig) (reads : List TypeId) :
    (s.afterReads store marks sig? reads).view types store marks sig? =
      s.view types store marks sig? := by
  simp only [view, s.table_afterReads]
  rfl

/-- **Where nothing published is marked**, a query finds no table stale: it was found good when it
was kept, or has just been built. -/
theorem table_fresh (h : ∀ c, s.Publishes store c → ∀ m ∈ c.methods, marks.has m = false)
    (sig? : Option MethodSig) (t : TypeId) :
    stale marks sig? (s.table store marks sig? t) = false := by
  refine Bool.eq_false_iff.2 fun hstale => ?_
  obtain ⟨sig, m, rfl, hfound, hmarked⟩ := stale_eq_true_iff.1 hstale
  rcases unmarked_or_current hfound with hunmarked | hcurrent
  · exact Bool.eq_false_iff.1 hunmarked hmarked
  · obtain ⟨c, hc, hm⟩ := Option.bind_eq_some_iff.1 hcurrent
    have hunmarked := h c (publishes_of_definition hc) m (ClassDef.mem_of_method? hm)
    exact Bool.eq_false_iff.1 hunmarked hmarked

/-- The reads of a query, made again, find the tables that the query left. -/
theorem get?_afterReads_again (s : Snapshot) (store : ClassStore) (marks : Marks)
    (sig? : Option MethodSig) (reads : List TypeId) (t : TypeId) :
    ((s.afterReads store marks sig? reads).afterReads store marks sig? reads).cache.get? t =
      (s.afterReads store marks sig? reads).cache.get? t := by
  rw [get?_afterReads, table_afterReads]
  split
  · next ht => rw [get?_afterReads, if_pos ht]
  · rfl

/-- And where nothing published is marked, they are hits. -/
theorem afterReads_again (h : ∀ c, s.Publishes store c → ∀ m ∈ c.methods, marks.has m = false)
    (sig? : Option MethodSig) (reads : List TypeId) :
    let first := s.afterReads store marks sig? reads
    (first.afterReads store marks sig? reads).cache =
      { first.cache with hits := first.cache.hits + reads.length } := by
  refine MemberCache.follow_of_fresh fun t ht => ?_
  exact ⟨s.table store marks sig? t, by rw [get?_afterReads, if_pos ht], s.table_fresh h sig? t⟩

end Snapshot

namespace Workspace

/-- **Asking a live snapshot twice.** Whatever the cache holds and whatever is marked, the answer is
the same the second time, and no type comes into the cache, leaves it or changes its table. And if
no method of a class in the store, or of the snapshot's own, is marked obsolete, then the second
query has no miss and no eviction: all that it does to the snapshot is to count hits. -/
theorem ask_twice {w : Workspace} {i : Nat} {s : Snapshot} {store : ClassStore}
    (hlive : w.live i = .ok (s, store)) (q : Query) :
    let first := w.ask i q
    let second := first.workspace.ask i q
    second.result = first.result ∧
      ∃ s₁ s₂, first.workspace.live i = .ok (s₁, store) ∧
        second.workspace.live i = .ok (s₂, store) ∧
        (∀ t, s₂.cache.get? t = s₁.cache.get? t) ∧
        ((∀ c, s.Publishes store c → ∀ m ∈ c.methods, w.marks.has m = false) →
          ∃ n, s₂ = { s₁ with cache := { s₁.cache with hits := s₁.cache.hits + n } }) := by
  intro first second
  have hfirst := live_ask hlive q
  have hsecond := live_ask hfirst q
  have hresult := result_ask hfirst q
  rw [types_ask, marks_ask, Snapshot.view_afterReads] at hsecond hresult
  refine ⟨hresult.trans (result_ask hlive q).symm, _, _, hfirst, hsecond, ?_, fun hunmarked => ?_⟩
  · exact s.get?_afterReads_again store w.marks q.sig? _
  · have hhits := s.afterReads_again hunmarked q.sig?
      (q.run (s.view w.types store w.marks q.sig?)).reads
    exact ⟨_, congrArg (fun c => { s with cache := c }) hhits⟩

/-- Where the snapshot was not told of a replacement, the first query for the method evicts the
stale table and builds it anew. The second one finds it in the cache. -/
theorem ask_untold_twice :
    let first := untold.ask 0 (.method replacedRef)
    let second := first.workspace.ask 0 (.method replacedRef)
    second.result = .ok (.method (some replacement)) ∧
      ∃ s₁ s₂ store n, first.workspace.live 0 = .ok (s₁, store) ∧
        second.workspace.live 0 = .ok (s₂, store) ∧
        s₁.cache.stats = ⟨1, 2, 1, 1⟩ ∧ s₂.cache.stats = ⟨1 + n, 2, 1, 1⟩ := by
  obtain ⟨s, store, hlive⟩ : ∃ s store, untold.live 0 = .ok (s, store) := ⟨_, _, rfl⟩
  obtain ⟨hresult, s₁, s₂, h₁, h₂, -, hwarm⟩ := ask_twice hlive (.method replacedRef)
  have hunmarked : ∀ c, s.Publishes store c → ∀ m ∈ c.methods, untold.marks.has m = false := by
    cases hlive
    rintro c ⟨t, hown | hstored⟩ m hm
    · cases hown
    · obtain rfl : t = replacedRef.holder :=
        List.mem_singleton.1 (ClassStore.mem_keys_of_get? hstored)
      cases hstored
      obtain rfl := List.mem_singleton.1 hm
      rfl
  obtain ⟨n, rfl⟩ := hwarm hunmarked
  refine ⟨hresult.trans rfl, s₁, _, store, n, h₁, h₂, ?_, ?_⟩
  · cases h₁
    rfl
  · cases h₁
    rfl

end Workspace

end Linkage
