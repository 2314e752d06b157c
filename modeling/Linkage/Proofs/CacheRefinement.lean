import Linkage.Proofs.Steps

/-!
# Caching Member Tables Changes No Answer

A snapshot answers from tables that were built some time ago, for a definition that may have
changed since, before a successor was derived, or in a store that was replaced. This module
says which duty makes that safe, and shows that under it every answer is the one that would be
given if all tables were built from the definitions as they are now.

The duty is kept as a book of *owed* types. A type is owed as soon as the store of the leading
snapshot defines it differently than before, be it that the store changed or that a successor
was given another store; and it is settled when its table is evicted from the leading snapshot,
or left out of its successor. A cache is coherent outside what is owed (`KeptOutside`), and
every step keeps that up (`KeptOutside.step`).

## Main results

* `KeptOutside.after`: in every run, a kept table of a type that is not owed is the table of
  the type's present definition.
* `ask_eq_uncached`: when nothing is owed, a query returns what it returns without a cache, and
  each of its reads returns the present table.
-/

namespace Linkage

namespace MemberCache

/-- A copy keeps all tables. -/
@[simp] theorem get?_fork (c : MemberCache) (t : TypeId) : c.fork.get? t = c.get? t := rfl

/-- Evicting several types leaves the tables of all others. -/
theorem get?_invalidateAll (c : MemberCache) (types : List TypeId) (t : TypeId) :
    (c.invalidateAll types).get? t = if t ∈ types then none else c.get? t := by
  induction types generalizing c with
  | nil => simp [invalidateAll]
  | cons u types ih =>
      refine (ih (c.invalidate u)).trans ?_
      rw [get?_invalidate]
      by_cases ht : t ∈ types
      · rw [if_pos ht, if_pos (List.mem_cons_of_mem _ ht)]
      · by_cases hu : u = t
        · rw [if_neg ht, if_pos hu, if_pos (by rw [hu]; exact List.mem_cons_self)]
        · rw [if_neg ht, if_neg hu, if_neg (by simp [ht, Ne.symm hu])]

/-- A read returns the table that is kept, or the one of the present definition. -/
theorem read_cases (c : MemberCache) (definition : TypeId → Option ClassDef) (t : TypeId) :
    c.get? t = some (c.read definition t).1 ∨
      (c.read definition t).1 = MemberTable.ofDefinition? (definition t) := by
  cases h : c.get? t with
  | some table => exact .inl (by rw [read_of_get? h])
  | none => exact .inr (by rw [read_of_not_mem h])

/-- So does a read that evicts a stale table first. -/
theorem readFresh_cases (c : MemberCache) (definition : TypeId → Option ClassDef)
    (stale : MemberTable → Bool) (t : TypeId) :
    c.get? t = some (c.readFresh definition stale t).1 ∨
      (c.readFresh definition stale t).1 = MemberTable.ofDefinition? (definition t) := by
  by_cases hstale : stale (c.read definition t).1 = true
  · have hgone : ((c.read definition t).2.invalidate t).get? t = none := by
      rw [get?_invalidate, if_pos rfl]
    refine .inr ?_
    simp only [readFresh, hstale, if_true]
    rw [read_of_not_mem hgone]
  · simp only [readFresh, hstale]
    exact read_cases c definition t

/-- The reads of a query add no tables but those of present definitions. -/
theorem get?_follow_cases {c : MemberCache} {definition : TypeId → Option ClassDef}
    {stale : MemberTable → Bool} {reads : List TypeId} {t : TypeId} {table : MemberTable}
    (h : (c.follow definition stale reads).get? t = some table) :
    c.get? t = some table ∨ table = MemberTable.ofDefinition? (definition t) := by
  induction reads generalizing c with
  | nil => exact .inl h
  | cons u reads ih =>
      rcases ih h with hkept | hbuilt
      · rw [get?_readFresh] at hkept
        split at hkept
        · next hut =>
            subst hut
            obtain rfl := Option.some.inj hkept
            exact readFresh_cases c definition stale u
        · exact .inl hkept
      · exact .inr hbuilt

end MemberCache

namespace Snapshot

/-- **An up-to-date cache**: every table that is kept is the one of its type's definition. -/
def UpToDate (s : Snapshot) (store : ClassStore) : Prop :=
  ∀ ⦃t : TypeId⦄ ⦃table : MemberTable⦄, s.cache.get? t = some table →
    table = MemberTable.ofDefinition? (s.definition store t)

/-- A snapshot with an up-to-date cache shows a query what it would see without a cache. -/
theorem UpToDate.view_eq {s : Snapshot} {store : ClassStore} (h : s.UpToDate store)
    (types : TypeTable) (marks : Marks) (sig? : Option MethodSig) :
    s.view types store marks sig? = s.uncachedView types store := by
  have htable : s.table store marks sig? =
      fun t => MemberTable.ofDefinition? (s.definition store t) := by
    funext t
    rw [table]
    cases hkept : s.cache.get? t with
    | none => rfl
    | some kept => simp only [← h hkept, ite_self]
  simp only [view, uncachedView, htable]

/-- Reads keep it up to date. -/
theorem UpToDate.afterReads {s : Snapshot} {store : ClassStore} (h : s.UpToDate store)
    (marks : Marks) (sig? : Option MethodSig) (reads : List TypeId) :
    (s.afterReads store marks sig? reads).UpToDate store := by
  intro t table hkept
  rcases MemberCache.get?_follow_cases hkept with hbefore | hbuilt
  · exact h hbefore
  · exact hbuilt

end Snapshot

namespace Workspace

/-! ### What is owed -/

/-- The definition that the store of a snapshot gives a type. -/
def published (w : Workspace) (s : Snapshot) (t : TypeId) : Option ClassDef :=
  w.stores[s.store]?.bind (·.get? t)

/-- The definition that a type has in a snapshot: a class of the snapshot's own, or else the one
of its store. -/
def definition (w : Workspace) (s : Snapshot) (t : TypeId) : Option ClassDef :=
  (s.synthesized.get? t).orElse fun _ => w.published s t

/-- A live snapshot has the definitions that the workspace says it has. -/
theorem definition_of_live {w : Workspace} {i : Nat} {s : Snapshot} {store : ClassStore}
    (h : w.live i = .ok (s, store)) : s.definition store = w.definition s := by
  funext t
  rw [definition, published, (live_eq_ok_iff.1 h).2]
  rfl

/-- The store of the leading snapshot defines a type differently than before. -/
def Republishes (w w' : Workspace) (lineage : Nat) (t : TypeId) : Prop :=
  ∃ i s j s', w.Leads i s ∧ s.lineage = lineage ∧ w'.Leads j s' ∧ s'.lineage = lineage ∧
    w.published s t ≠ w'.published s' t

/-- Without a snapshot there is no leader whose store could change. -/
theorem Republishes.snapshots_ne_nil {w w' : Workspace} {lineage : Nat} {t : TypeId}
    (h : w.Republishes w' lineage t) : w.snapshots ≠ [] := by
  obtain ⟨i, s, -, -, hs, -⟩ := h
  exact List.ne_nil_of_mem (List.mem_of_getElem? hs.1)

/-- If all snapshots share a store, it is this store that defines the type differently. -/
theorem Republishes.store_ne {w w' : Workspace} {lineage k : Nat} {t : TypeId}
    (h : w.Republishes w' lineage t) (hw : ∀ s ∈ w.snapshots, s.store = k)
    (hw' : ∀ s ∈ w'.snapshots, s.store = k) :
    w.stores[k]?.bind (·.get? t) ≠ w'.stores[k]?.bind (·.get? t) := by
  obtain ⟨i, s, j, s', hs, -, hs', -, hne⟩ := h
  rwa [published, published, hw s (List.mem_of_getElem? hs.1),
    hw' s' (List.mem_of_getElem? hs'.1)] at hne

/-- An operation evicts the table of a type from the leading snapshot, or derives a successor
without it. -/
def Settles (w : Workspace) (lineage : Nat) (op : Operation) (t : TypeId) : Prop :=
  (∃ i s, op.snapshot? = some i ∧ w.Leads i s ∧ s.lineage = lineage) ∧ t ∈ op.evicted ∧
    ∃ r, (w.perform op).result = .ok r

/-- The types that are owed after an operation if `owed` were owed before. -/
def owedAfter (w : Workspace) (lineage : Nat) (owed : TypeId → Prop) (op : Operation)
    (t : TypeId) : Prop :=
  (owed t ∨ w.Republishes (w.perform op).workspace lineage t) ∧ ¬ w.Settles lineage op t

/-- **The types owed by a lineage.** The changes of definitions in a run whose tables have not
been evicted by its end. -/
def owed (lineage : Nat) (w : Workspace) (before : TypeId → Prop) :
    List Operation → TypeId → Prop
  | [] => before
  | op :: ops => owed lineage (w.perform op).workspace (w.owedAfter lineage before op) ops

/-- **Coherence outside what is owed.** The tables that the leading snapshot keeps are those of
the present definitions, except perhaps for types that are owed. -/
def KeptOutside (w : Workspace) (lineage : Nat) (owed : TypeId → Prop) : Prop :=
  ∀ ⦃i : Nat⦄ ⦃s : Snapshot⦄, w.Leads i s → s.lineage = lineage →
    ∀ ⦃t : TypeId⦄ ⦃table : MemberTable⦄, ¬ owed t → s.cache.get? t = some table →
      table = MemberTable.ofDefinition? (w.definition s t)

/-! ### Every step keeps the cache coherent -/

section Steps

variable {w w' : Workspace} {lineage : Nat} {before : TypeId → Prop} {op : Operation}

/-- A type that is not owed afterwards was settled just now, or was not owed before and has the
definition that it had. -/
theorem not_owedAfter {t : TypeId} (hw' : (w.perform op).workspace = w')
    (h : ¬ w.owedAfter lineage before op t) (hsettles : ¬ w.Settles lineage op t) :
    ¬ before t ∧ ¬ w.Republishes w' lineage t := by
  subst hw'
  constructor
  · intro hbefore
    exact h ⟨.inl hbefore, hsettles⟩
  · intro hchange
    exact h ⟨.inr hchange, hsettles⟩

/-- **What a leader keeps stays right.** A table that the leader kept before an operation, and
that the leader after it keeps still, is the one of the present definition, if the type is not
owed and the operation did not settle it. -/
theorem KeptOutside.of_kept (h : w.KeptOutside lineage before)
    (hw' : (w.perform op).workspace = w') {i j : Nat} {s s' : Snapshot} {t : TypeId}
    {table : MemberTable} (hs : w.Leads i s) (hl : s.lineage = lineage) (hs' : w'.Leads j s')
    (hl' : s'.lineage = lineage) (hsynthesized : s'.synthesized.get? t = s.synthesized.get? t)
    (howed : ¬ w.owedAfter lineage before op t) (hsettles : ¬ w.Settles lineage op t)
    (htable : s.cache.get? t = some table) :
    table = MemberTable.ofDefinition? (w'.definition s' t) := by
  obtain ⟨hbefore, hsame⟩ := not_owedAfter hw' howed hsettles
  have hpublished : w'.published s' t = w.published s t := by
    refine Decidable.byContradiction fun hne => ?_
    exact hsame ⟨i, s, j, s', hs, hl, hs', hl', Ne.symm hne⟩
  rw [definition, hsynthesized, hpublished]
  exact h hs hl hbefore htable

/-- An operation settles no type that it is not asked to evict. -/
theorem not_settles_of_not_mem {t : TypeId} (hmem : t ∉ op.evicted) :
    ¬ w.Settles lineage op t :=
  fun hsettles => hmem hsettles.2.1

/-- An operation settles nothing if it fails. -/
theorem not_settles_of_error {t : TypeId} {e : Failure} (he : (w.perform op).result = .error e) :
    ¬ w.Settles lineage op t := by
  rintro ⟨-, -, r, hr⟩
  rw [he] at hr
  cases hr

/-- An operation on a snapshot settles nothing for other leaders. -/
theorem not_settles_of_ne (hord : w.Ordered) {i j : Nat} {s : Snapshot} {t : TypeId}
    (hs : w.Leads j s) (hl : s.lineage = lineage) (hop : op.snapshot? = some i) (hij : i ≠ j) :
    ¬ w.Settles lineage op t := by
  rintro ⟨⟨k, u, hk, hu, hlu⟩, -, -⟩
  obtain rfl : i = k := Option.some.inj (hop.symm.trans hk)
  exact hij (hord.leads_unique hu hs (hlu.trans hl.symm)).1

end Steps

/-- **Every operation keeps the cache of a lineage coherent** outside what is owed after it. -/
theorem KeptOutside.step {w : Workspace} {lineage : Nat} {before : TypeId → Prop}
    {op : Operation} (hord : w.Ordered) (h : w.KeptOutside lineage before) :
    (w.perform op).workspace.KeptOutside lineage (w.owedAfter lineage before op) := by
  intro j u hlead hl t table howed htable
  have hstep := w.step_perform op
  generalize hw' : (w.perform op).workspace = w' at hstep hlead ⊢
  cases hstep with
  | aside hsnapshots hgenerations hevicted =>
      have hs : w.Leads j u := by
        rw [Leads, ← hsnapshots, ← current_congr rfl hgenerations]
        exact hlead
      refine h.of_kept hw' hs hl hlead hl rfl howed ?_ htable
      rcases hevicted with hnone | ⟨e, he⟩
      · exact not_settles_of_not_mem (by rw [hnone]; exact List.not_mem_nil)
      · exact not_settles_of_error he
  | @evicts i u₀ s store hlive =>
      rcases leads_of_set (w := w) hlead rfl rfl with ⟨rfl, rfl⟩ | ⟨hij, hs⟩
      · rw [MemberCache.get?_invalidate] at htable
        split at htable
        · simp at htable
        · next hne =>
            refine h.of_kept hw' (leads_of_live hlive) hl hlead hl rfl howed ?_ htable
            exact not_settles_of_not_mem fun hmem => hne (List.mem_singleton.1 hmem).symm
      · exact h.of_kept hw' hs hl hlead hl rfl howed (not_settles_of_ne hord hs hl rfl hij) htable
  | @synthesizes i c s store hlive hstore hnew =>
      rcases leads_of_set (w := w) hlead rfl rfl with ⟨rfl, rfl⟩ | ⟨hij, hs⟩
      · rw [MemberCache.get?_invalidate] at htable
        split at htable
        · simp at htable
        · next hne =>
            refine h.of_kept hw' (leads_of_live hlive) hl hlead hl ?_ howed
              (not_settles_of_not_mem List.not_mem_nil) htable
            rw [ClassStore.get?_put, if_neg hne]
      · exact h.of_kept hw' hs hl hlead hl rfl howed (not_settles_of_ne hord hs hl rfl hij) htable
  | @asks i q s store w' hlive hsnapshots hgenerations hstores =>
      rcases leads_of_set hlead hsnapshots hgenerations with ⟨rfl, rfl⟩ | ⟨hij, hs⟩
      · rcases MemberCache.get?_follow_cases htable with hkept | hbuilt
        · exact h.of_kept hw' (leads_of_live hlive) hl hlead hl rfl howed
            (not_settles_of_not_mem List.not_mem_nil) hkept
        · rw [hbuilt, definition_of_live hlive, definition, definition, published, published,
            hstores]
          rfl
      · exact h.of_kept hw' hs hl hlead hl rfl howed (not_settles_of_ne hord hs hl rfl hij) htable
  | @opens store options s w' hlineage hgeneration hcache hsnapshots hgenerations hstores =>
      rcases hord.leads_of_open hlead hsnapshots hgenerations with rfl | hs
      · rw [hcache] at htable
        simp at htable
      · exact h.of_kept hw' hs hl hlead hl rfl howed (not_settles_of_not_mem List.not_mem_nil)
          htable
  | @derives i changed store? s next store w' hlive hnext hsnapshots hgenerations hstores =>
      have hs := leads_of_live hlive
      rcases hord.leads_of_derive hs hlead hsnapshots hgenerations with rfl | ⟨hij, hother⟩
      · have hcache : next.cache = s.cache.fork.invalidateAll changed := by rw [hnext]
        rw [hcache, MemberCache.get?_invalidateAll] at htable
        split at htable
        · simp at htable
        · next hmem =>
            refine h.of_kept hw' hs ?_ hlead hl ?_ howed (not_settles_of_not_mem hmem) htable
            · rw [← hl, hnext]
            · rw [hnext]
      · exact h.of_kept hw' hother hl hlead hl rfl howed
          (not_settles_of_ne hord hother hl rfl hij) htable

/-- **In every run, what is kept and not owed is up to date.** -/
theorem KeptOutside.after {w : Workspace} {lineage : Nat} {before : TypeId → Prop}
    (hord : w.Ordered) (h : w.KeptOutside lineage before) (ops : List Operation) :
    (w.after ops).KeptOutside lineage (owed lineage w before ops) := by
  induction ops generalizing w before with
  | nil => exact h
  | cons op ops ih => exact ih (hord.step (w.step_perform op)) (h.step hord)

/-- Without snapshots nothing is kept. -/
theorem keptOutside_fresh (types : TypeTable) (tracing : Bool) (lineage : Nat)
    (before : TypeId → Prop) : (fresh types tracing).KeptOutside lineage before := by
  intro i s hs
  exact absurd hs.1 (by simp [fresh])

/-! ### Answers -/

/-- A live snapshot to whose lineage nothing is owed shows a query what it would see without a
cache. -/
theorem KeptOutside.view_eq {w : Workspace} {before : TypeId → Prop} {i : Nat} {s : Snapshot}
    {store : ClassStore} (h : w.KeptOutside s.lineage before)
    (hlive : w.live i = .ok (s, store)) (howed : ∀ t, ¬ before t) (sig? : Option MethodSig) :
    s.view w.types store w.marks sig? = s.uncachedView w.types store := by
  refine Snapshot.UpToDate.view_eq (fun t table hkept => ?_) w.types w.marks sig?
  rw [definition_of_live hlive]
  exact h (leads_of_live hlive) rfl (howed t) hkept

/-- **Caching changes no answer.** After any run, a query on a live snapshot to whose lineage
nothing is owed returns what it returns when every table is built from the present definition
as it is read; and in the course of the query, whatever was read and evicted before, every read
returns the present table. -/
theorem ask_eq_uncached {shardOf : String → Fin Symbol.shardCount} {tracing : Bool}
    {ops : List Operation} {w : Workspace} {i : Nat} {s : Snapshot} {store : ClassStore}
    (hrun : (fresh (.freshWith shardOf) tracing).after ops = w)
    (hlive : w.live i = .ok (s, store))
    (howed : ∀ t, ¬ owed s.lineage (fresh (.freshWith shardOf) tracing) (fun _ => False) ops t)
    (q : Query) :
    (w.ask i q).result = Failure.ofWalk (q.run (s.uncachedView w.types store)).value ∧
      ∀ reads t, ((s.afterReads store w.marks q.sig? reads).cache.readFresh
        (s.definition store) (Snapshot.stale w.marks q.sig?) t).1 =
          MemberTable.ofDefinition? (s.definition store t) := by
  have hkept := KeptOutside.after (ordered_fresh (.freshWith shardOf) tracing)
    (keptOutside_fresh _ _ s.lineage fun _ => False) ops
  rw [hrun] at hkept
  have hview := hkept.view_eq hlive howed q.sig?
  constructor
  · rw [ask, hlive]
    simp only [hview]
    split <;> rfl
  · intro reads t
    have hread := (s.afterReads store w.marks q.sig? reads).table_read store w.marks q.sig? t
    rw [Snapshot.table_afterReads] at hread
    exact hread.trans (congrFun (congrArg View.table hview) t)

/-! ### A replaced class -/

/-- A method that is replaced in the run below. -/
def replacedRef : MethodRef := ⟨⟨20⟩, ⟨⟨1⟩, ⟨0⟩⟩⟩

/-- A class that declares this method, with the method under the given stamp. -/
def replacedClass (stamp : Nat) : ClassDef :=
  { ClassDef.ofClass replacedRef.holder (some .object) with
    methods := [⟨⟨stamp⟩, replacedRef.holder, replacedRef.sig, .publicFlag, none⟩] }

/-- The class is read, its method is marked obsolete, the class is replaced in the store, and a
successor is derived that is told so. -/
def replacementRun : List Operation :=
  [.openStore [replacedClass 0], .openSnapshot 0 {}, .ask 0 (.members replacedRef.holder),
    .markObsolete ⟨⟨0⟩, replacedRef.holder, replacedRef.sig, .publicFlag, none⟩,
    .replaceClass 0 (replacedClass 1), .derive 0 [replacedRef.holder] none]

/-- The derivation settles what the replacement owed. -/
theorem not_owed_replacementRun (t : TypeId) :
    ¬ owed 0 (fresh (.freshWith SymbolTable.byteSum) false) (fun _ => False) replacementRun t := by
  intro howed
  by_cases ht : replacedRef.holder = t
  · exact howed.2 ⟨⟨0, _, rfl, ⟨rfl, rfl⟩, rfl⟩, List.mem_singleton.2 ht.symm, 1, rfl⟩
  · -- one disjunct for each operation, the last one outermost
    rcases howed.1 with ⟨(⟨(⟨(⟨(⟨(h | h), -⟩ | h), -⟩ | h), -⟩ | h), -⟩ | h), -⟩ | h
    · exact h
    · exact h.snapshots_ne_nil rfl
    · exact h.snapshots_ne_nil rfl
    · exact h.store_ne (k := 0) (by decide) (by decide) rfl
    · exact h.store_ne (k := 0) (by decide) (by decide) rfl
    · refine h.store_ne (k := 0) (by decide) (by decide) ?_
      exact ((ClassStore.get?_put _ (replacedClass 1) t).trans (if_neg ht)).symm
    · exact h.store_ne (k := 0) (by decide) (by decide) rfl

/-- The successor finds the new method, though its predecessor had read the old one. -/
theorem ask_replaced_method :
    (∀ t, ¬ owed 0 (fresh (.freshWith SymbolTable.byteSum) false) (fun _ => False)
      replacementRun t) ∧
    (((fresh (.freshWith SymbolTable.byteSum) false).after replacementRun).ask 1
      (.method replacedRef)).result =
        .ok (.method (some ⟨⟨1⟩, replacedRef.holder, replacedRef.sig, .publicFlag, none⟩)) :=
  ⟨not_owed_replacementRun, (@ask_eq_uncached SymbolTable.byteSum false replacementRun _ 1 _ _
    rfl rfl not_owed_replacementRun (.method replacedRef)).1⟩

end Workspace

end Linkage
