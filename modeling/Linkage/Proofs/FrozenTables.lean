import Linkage.Proofs.CacheRefinement

/-!
# Kept Tables are Frozen

Once the table of a type is kept, every reader of a lineage is given this very table, whatever has
become of the definition in the meantime, until the table is evicted. There are four ways to have it
evicted: to ask for it, to derive a successor that is told that the type has changed, to give the
type a class of the snapshot's own, and to look up a method that the table has under an obsolete
object. After that, the next reader is given the table of the definition as it is then.

Nothing is assumed of the stores, which may change between any two operations, or be exchanged when
a successor is derived.

## Main definitions

* `Workspace.Keeps`: what the leader of a lineage keeps for a type.
* `Workspace.Evicts`, `Workspace.Refetches`: the operations that have a table evicted.
* `Workspace.Reads`: the operations that read a table.

## Main results

* `Keeps.step_frozen`, `Keeps.after_frozen`: no other operation and no run of others changes what is
  kept.
* `Keeps.step_unread`, `Keeps.after_unread`: what is not kept is not kept until it is read.
* `frozen_until_evicted`: what readers are given, before and after an eviction.
-/

namespace Linkage

namespace Workspace

variable {w : Workspace} {lineage : Nat} {t : TypeId}

/-! ### Reads and evictions -/

/-- The leader of a lineage keeps this table for a type, or none. -/
def Keeps (w : Workspace) (lineage : Nat) (t : TypeId) (table? : Option MemberTable) : Prop :=
  ∃ i s, w.Leads i s ∧ s.lineage = lineage ∧ s.cache.get? t = table?

/-- **An operation has the table of a type evicted** from the leader of a lineage, or derives a
successor without it. -/
inductive Evicts (w : Workspace) (lineage : Nat) (t : TypeId) : Operation → Prop
  /-- It is asked to. -/
  | invalidated {i : Nat} {s : Snapshot} {store : ClassStore} (hlive : w.live i = .ok (s, store))
      (hlineage : s.lineage = lineage) : Evicts w lineage t (.invalidate i t)
  /-- A successor is derived and told that the type has changed. -/
  | changed {i : Nat} {s : Snapshot} {store : ClassStore} {changed : List TypeId}
      {store? : Option Nat} {n : Nat} (hlive : w.live i = .ok (s, store))
      (hlineage : s.lineage = lineage) (hmem : t ∈ changed)
      (hresult : (w.derive i changed store?).result = .ok n) :
      Evicts w lineage t (.derive i changed store?)
  /-- For the first time, the snapshot is given a class of its own for the type. -/
  | synthesized {i : Nat} {s : Snapshot} {store : ClassStore} {c : ClassDef}
      (hlive : w.live i = .ok (s, store)) (hlineage : s.lineage = lineage) (htype : c.type = t)
      (hnew : s.synthesized.get? c.type = none) (hresult : (w.synthesize i c).result = .ok ()) :
      Evicts w lineage t (.synthesize i c)

/-- **A query comes upon an obsolete method** in the table of a type: it reads the table that the
leader of a lineage keeps, which has a marked method under the query's signature. -/
inductive Refetches (w : Workspace) (lineage : Nat) (t : TypeId) : Operation → Prop
  | obsolete {i : Nat} {q : Query} {s : Snapshot} {store : ClassStore} {kept : MemberTable}
      {sig : MethodSig} {m : Method} (hlive : w.live i = .ok (s, store))
      (hlineage : s.lineage = lineage)
      (hread : t ∈ (q.run (s.view w.types store w.marks q.sig?)).reads)
      (hkept : s.cache.get? t = some kept) (hsig : q.sig? = some sig)
      (hm : kept.method? sig = some m) (hmarked : w.marks.has m = true) :
      Refetches w lineage t (.ask i q)

/-- A query reads the table of a type from the leader of a lineage. -/
inductive Reads (w : Workspace) (lineage : Nat) (t : TypeId) : Operation → Prop
  | asked {i : Nat} {q : Query} {s : Snapshot} {store : ClassStore}
      (hlive : w.live i = .ok (s, store)) (hlineage : s.lineage = lineage)
      (hread : t ∈ (q.run (s.view w.types store w.marks q.sig?)).reads) :
      Reads w lineage t (.ask i q)

/-- What is kept is kept by the one leader. -/
theorem Keeps.of_leads {table? : Option MemberTable} (h : w.Keeps lineage t table?)
    (hord : w.Ordered) {i : Nat} {s : Snapshot} (hs : w.Leads i s)
    (hlineage : s.lineage = lineage) : s.cache.get? t = table? := by
  obtain ⟨j, u, hu, hl, hkept⟩ := h
  obtain ⟨rfl, rfl⟩ := hord.leads_unique hu hs (hl.trans hlineage.symm)
  exact hkept

/-- Asking for the members of a type returns what is kept, or the table of the definition. -/
theorem result_members {i : Nat} {s : Snapshot} {store : ClassStore}
    (hlive : w.live i = .ok (s, store)) (t : TypeId) :
    (w.ask i (.members t)).result = .ok (.members (s.table store w.marks none t)) :=
  result_ask hlive _

/-! ### While a table is kept -/

/-- **No other operation changes what is kept**, or drops it. -/
theorem Keeps.step_frozen {table : MemberTable} {op : Operation}
    (h : w.Keeps lineage t (some table)) (hord : w.Ordered) (hevicts : ¬ w.Evicts lineage t op)
    (hrefetches : ¬ w.Refetches lineage t op) :
    (w.perform op).workspace.Keeps lineage t (some table) := by
  obtain ⟨i, s, hs, hl, hkept⟩ := h
  obtain ⟨j, s', hs', hl', hbecomes⟩ := hord.becomes hs op
  refine ⟨j, s', hs', hl'.trans hl, ?_⟩
  cases hbecomes with
  | same => exact hkept
  | @evicted u store hlive =>
      rw [MemberCache.get?_invalidate, if_neg, hkept]
      rintro rfl
      exact hevicts (.invalidated hlive hl)
  | @extended c store hlive hstore hnew =>
      have hne : c.type ≠ t := by
        intro htype
        have hresult : (w.synthesize i c).result = .ok () := by
          simp [synthesize, hlive, hstore, hnew, answer]
        exact hevicts (.synthesized hlive hl htype hnew hresult)
      rw [MemberCache.get?_invalidate, if_neg hne, hkept]
  | @asked q store hlive =>
      rw [Snapshot.get?_afterReads, hkept]
      split
      · next hread =>
          cases hstale : Snapshot.stale w.marks q.sig? table with
          | false => rw [Snapshot.table_of_get? hkept hstale]
          | true =>
              obtain ⟨sig, m, hsig, hm, hmarked⟩ := Snapshot.stale_eq_true_iff.1 hstale
              exact absurd (.obsolete hlive hl hread hkept hsig hm hmarked) hrefetches
      · rfl
  | @succeeded changed store? store n hlive hresult =>
      rw [MemberCache.get?_invalidateAll, if_neg, MemberCache.get?_fork, hkept]
      exact fun hmem => hevicts (.changed hlive hl hmem hresult)

/-- **A kept table stays as it is** in every run that does not have it evicted. -/
theorem Keeps.after_frozen {table : MemberTable} {ops : List Operation}
    (h : w.Keeps lineage t (some table)) (hord : w.Ordered)
    (hops : ∀ pre op, pre ++ [op] <+: ops →
      ¬ (w.after pre).Evicts lineage t op ∧ ¬ (w.after pre).Refetches lineage t op) :
    (w.after ops).Keeps lineage t (some table) := by
  induction ops generalizing w with
  | nil => exact h
  | cons op ops ih =>
      obtain ⟨hevicts, hrefetches⟩ := hops [] op ⟨ops, rfl⟩
      refine ih (h.step_frozen hord hevicts hrefetches) (hord.step (w.step_perform op)) ?_
      exact fun pre op' hpre => hops (op :: pre) op' (List.cons_prefix_cons.2 ⟨rfl, hpre⟩)

/-! ### While none is kept -/

/-- **Only a read fills the cache.** -/
theorem Keeps.step_unread {op : Operation} (h : w.Keeps lineage t none) (hord : w.Ordered)
    (hreads : ¬ w.Reads lineage t op) : (w.perform op).workspace.Keeps lineage t none := by
  obtain ⟨i, s, hs, hl, hkept⟩ := h
  obtain ⟨j, s', hs', hl', hbecomes⟩ := hord.becomes hs op
  refine ⟨j, s', hs', hl'.trans hl, ?_⟩
  cases hbecomes with
  | same => exact hkept
  | evicted => rw [MemberCache.get?_invalidate, hkept, ite_self]
  | extended => rw [MemberCache.get?_invalidate, hkept, ite_self]
  | asked hlive =>
      rw [Snapshot.get?_afterReads, if_neg, hkept]
      exact fun hread => hreads (.asked hlive hl hread)
  | succeeded =>
      rw [MemberCache.get?_invalidateAll, MemberCache.get?_fork, hkept, ite_self]

/-- A table that is not kept is not kept later, unless an operation reads it. -/
theorem Keeps.after_unread {ops : List Operation} (h : w.Keeps lineage t none) (hord : w.Ordered)
    (hops : ∀ pre op, pre ++ [op] <+: ops → ¬ (w.after pre).Reads lineage t op) :
    (w.after ops).Keeps lineage t none := by
  induction ops generalizing w with
  | nil => exact h
  | cons op ops ih =>
      refine ih (h.step_unread hord (hops [] op ⟨ops, rfl⟩)) (hord.step (w.step_perform op)) ?_
      exact fun pre op' hpre => hops (op :: pre) op' (List.cons_prefix_cons.2 ⟨rfl, hpre⟩)

/-! ### Evictions -/

/-- A successor is derived without the tables of the types that are said to have changed. -/
theorem keeps_none_derive (hord : w.Ordered) {i : Nat} {s : Snapshot} {store : ClassStore}
    {changed : List TypeId} {store? : Option Nat} {n : Nat} (hlive : w.live i = .ok (s, store))
    (hlineage : s.lineage = lineage) (hmem : t ∈ changed)
    (hresult : (w.derive i changed store?).result = .ok n) :
    (w.derive i changed store?).workspace.Keeps lineage t none := by
  cases hstore : w.stores[store?.getD s.store]? with
  | none =>
      simp only [derive, hlive, hstore, fail] at hresult
      cases hresult
  | some _ =>
      refine ⟨w.snapshots.length, { s with
          generation := s.generation + 1
          store := store?.getD s.store
          cache := s.cache.fork.invalidateAll changed },
        hord.leads_concat (leads_of_live hlive) ?_ ?_ rfl rfl, hlineage, ?_⟩
      · simp only [derive, hlive, hstore]
      · simp only [derive, hlive, hstore]
      · rw [MemberCache.get?_invalidateAll, if_pos hmem]

/-- **What is evicted is gone.** -/
theorem Evicts.keeps_none {op : Operation} (h : w.Evicts lineage t op) (hord : w.Ordered) :
    (w.perform op).workspace.Keeps lineage t none := by
  cases h with
  | invalidated hlive hlineage =>
      refine ⟨_, _, leads_of_live (live_invalidate hlive t), hlineage, ?_⟩
      rw [MemberCache.get?_invalidate, if_pos rfl]
  | changed hlive hlineage hmem hresult => exact keeps_none_derive hord hlive hlineage hmem hresult
  | @synthesized i s store c hlive hlineage htype hnew hresult =>
      cases hstore : store.contains c.type with
      | true =>
          simp only [synthesize, hlive, hstore, if_true, fail] at hresult
          cases hresult
      | false =>
          rw [perform, synthesize_of_new hlive hstore hnew]
          refine ⟨i, _, leads_of_live (live_setSnapshot hlive _ rfl rfl rfl), hlineage, ?_⟩
          rw [MemberCache.get?_invalidate, if_pos htype]

/-- **A query that comes upon an obsolete method** sees the definition's table, and keeps it. -/
theorem Refetches.current {i : Nat} {q : Query} {s : Snapshot} {store : ClassStore}
    (h : w.Refetches lineage t (.ask i q)) (hlive : w.live i = .ok (s, store)) :
    s.table store w.marks q.sig? t = MemberTable.ofDefinition? (s.definition store t) ∧
      (w.ask i q).workspace.Keeps lineage t
        (some (MemberTable.ofDefinition? (s.definition store t))) := by
  cases h with
  | obsolete hlive' hlineage hread hkept hsig hm hmarked =>
      obtain ⟨rfl, rfl⟩ := Prod.mk.inj (Except.ok.inj (hlive.symm.trans hlive'))
      have hstale := Snapshot.stale_eq_true_iff.2 ⟨_, _, hsig, hm, hmarked⟩
      have htable := Snapshot.table_of_stale hkept hstale store
      refine ⟨htable, i, _, leads_of_live (live_ask hlive q), hlineage, ?_⟩
      rw [Snapshot.get?_afterReads, if_pos hread, htable]

/-! ### Every run -/

/-- **Kept tables are frozen until they are evicted.** Once the leader of a lineage keeps a table
for a type, the leader of the lineage returns this very table when it is asked for the type's
members, after any run without an operation that has the table evicted.

After such an operation, and until the type is read again, whoever is the first to ask for its
members, or to read its table in the course of any query, is given the table of the definition that
the type has then. A query that comes upon an obsolete method is this first reader itself. -/
theorem frozen_until_evicted (h : w.Reachable) (lineage : Nat) (t : TypeId) :
    (∀ table ops, w.Keeps lineage t (some table) →
      (∀ pre op, pre ++ [op] <+: ops →
        ¬ (w.after pre).Evicts lineage t op ∧ ¬ (w.after pre).Refetches lineage t op) →
      (w.after ops).Keeps lineage t (some table) ∧
      ∀ i s, (w.after ops).Leads i s → s.lineage = lineage →
        ((w.after ops).ask i (.members t)).result = .ok (.members table)) ∧
    (∀ op ops, w.Evicts lineage t op →
      (∀ pre op', pre ++ [op'] <+: ops → ¬ (w.after (op :: pre)).Reads lineage t op') →
      (w.after (op :: ops)).Keeps lineage t none ∧
      ∀ i s, (w.after (op :: ops)).Leads i s → s.lineage = lineage →
        ∃ store, (w.after (op :: ops)).live i = .ok (s, store) ∧
          ((w.after (op :: ops)).ask i (.members t)).result =
            .ok (.members (MemberTable.ofDefinition? (s.definition store t))) ∧
        ∀ marks sig? reads, ((s.afterReads store marks sig? reads).cache.readFresh
          (s.definition store) (Snapshot.stale marks sig?) t).1 =
            MemberTable.ofDefinition? (s.definition store t)) ∧
    ∀ i q s store, w.Refetches lineage t (.ask i q) → w.live i = .ok (s, store) →
      (w.ask i q).workspace.Keeps lineage t
        (some (MemberTable.ofDefinition? (s.definition store t))) ∧
      ∀ reads, ((s.afterReads store w.marks q.sig? reads).cache.readFresh
        (s.definition store) (Snapshot.stale w.marks q.sig?) t).1 =
          MemberTable.ofDefinition? (s.definition store t) := by
  have hord := ordered_of_reachable h
  have hstored := stored_of_reachable h
  refine ⟨?_, ?_, ?_⟩
  · intro table ops hkept hops
    have hafter := hkept.after_frozen hord hops
    refine ⟨hafter, fun i s hs hlineage => ?_⟩
    obtain ⟨store, hlive⟩ := (hstored.after ops).live hs
    have hget := hafter.of_leads (hord.after ops) hs hlineage
    rw [result_members hlive, Snapshot.table_of_get? hget rfl]
  · intro op ops hevicts hops
    have hnone := (hevicts.keeps_none hord).after_unread (hord.step (w.step_perform op)) hops
    refine ⟨hnone, fun i s hs hlineage => ?_⟩
    obtain ⟨store, hlive⟩ := (hstored.after (op :: ops)).live hs
    have hget := hnone.of_leads (hord.after (op :: ops)) hs hlineage
    refine ⟨store, hlive, ?_, fun marks sig? reads => ?_⟩
    · rw [result_members hlive, Snapshot.table_of_not_mem hget]
    · rw [Snapshot.table_read_afterReads, Snapshot.table_of_not_mem hget]
  · intro i q s store hrefetches hlive
    obtain ⟨htable, hkeeps⟩ := hrefetches.current hlive
    refine ⟨hkeeps, fun reads => ?_⟩
    rw [Snapshot.table_read_afterReads, htable]

/-! ### A table that outlives its class -/

/-- A workspace where a class was read and then replaced in its store. -/
def replaced : Workspace := (fresh (.freshWith SymbolTable.byteSum) false).after
  [.openStore [replacedClass 0], .openSnapshot 0 {}, .ask 0 (.members replacedRef.holder),
    .replaceClass 0 (replacedClass 1)]

/-- A successor still has the old table, even when the class is gone altogether; and the snapshot
has the new one once the old one is evicted. -/
theorem members_replaced :
    replaced.Reachable ∧
    ((replaced.after [.derive 0 [] none, .removeClass 0 replacedRef.holder]).ask 1
      (.members replacedRef.holder)).result = .ok (.members (.ofClass (replacedClass 0))) ∧
    ((replaced.after [.invalidate 0 replacedRef.holder]).ask 0
      (.members replacedRef.holder)).result = .ok (.members (.ofClass (replacedClass 1))) := by
  have hreachable : replaced.Reachable := ⟨_, _, _, rfl⟩
  obtain ⟨hfrozen, hevicted, -⟩ := frozen_until_evicted hreachable 0 replacedRef.holder
  refine ⟨hreachable, ?_, ?_⟩
  · refine (hfrozen _ [.derive 0 [] none, .removeClass 0 replacedRef.holder]
      ⟨0, _, ⟨rfl, rfl⟩, rfl, rfl⟩ fun pre op hpre => ?_).2 1 _ ⟨rfl, rfl⟩ rfl
    have hmem := hpre.subset (List.mem_append_right pre (List.mem_singleton_self op))
    rcases List.mem_cons.1 hmem with rfl | hmem
    · refine ⟨fun hevicts => ?_, nofun⟩
      cases hevicts with
      | changed _ _ hchanged _ => exact absurd hchanged List.not_mem_nil
    · obtain rfl := List.mem_singleton.1 hmem
      exact ⟨nofun, nofun⟩
  · have hunread (pre : List Operation) (op : Operation) (hpre : pre ++ [op] <+: []) :
        ¬ (replaced.after (.invalidate 0 replacedRef.holder :: pre)).Reads 0 replacedRef.holder
          op :=
      absurd (List.prefix_nil.1 hpre) (by simp)
    obtain ⟨store, hlive, hmembers, -⟩ := (hevicted (.invalidate 0 replacedRef.holder) []
      (.invalidated rfl rfl) hunread).2 0 _ ⟨rfl, rfl⟩ rfl
    cases hlive
    exact hmembers

end Workspace

end Linkage
