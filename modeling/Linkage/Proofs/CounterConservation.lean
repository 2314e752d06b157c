import Linkage.Proofs.CacheRefinement
import Linkage.Proofs.ReadByRead

/-!
# The Conservation of Cache Counters

The counters of a snapshot's cache are kept in four places: by the reads of queries, by the
evictions in between them, by evictions on request, and when a class is made visible. Over a whole
run they obey two laws. The tables that are there and the counted evictions are together as many as
the counted misses and the tables that the snapshot was given: none for the first snapshot of a
lineage, and for a successor all that its predecessor had. And the hits and misses are as many as
the reads that were made through the snapshot.

A successor starts with the tables of its predecessor, and its counters at zero; the tables that the
derivation takes away are evictions of the successor's own, and each counts once.

## Main definitions

* `readsThrough`: how often a run reads the cache of a snapshot.
* `Founds`: an operation makes a snapshot, and with how many tables.
* `MemberCache.Balances`: the two laws, for a cache.

## Main results

* `Balances.perform`, `Balances.after`: the laws are kept by every operation, and over every run.
* `exists_founds`: every snapshot was made by an operation of the run.
* `counters_conserved`: the counters of every snapshot, after every run.
-/

namespace Linkage

/-- **The books of a cache balance**: its tables are accounted for, with so many that it was given,
and it counted so many reads. -/
structure MemberCache.Balances (c : MemberCache) (given reads : Nat) : Prop where
  accounts : c.Accounts given
  served_eq : c.served = reads

namespace Workspace

variable {w : Workspace} {i : Nat} {s : Snapshot} {op : Operation} {given reads : Nat}

/-- How often an operation reads the cache of the snapshot with number `i`. -/
def readsBy (w : Workspace) (i : Nat) : Operation → Nat
  | .ask j q =>
    if j = i then
      match w.live i with
      | .ok (s, store) =>
        s.cache.accesses (s.definition store) (Snapshot.stale w.marks q.sig?)
          (q.run (s.view w.types store w.marks q.sig?)).reads
      | .error _ => 0
    else 0
  | _ => 0

/-- How often a run does. -/
def readsThrough (w : Workspace) (i : Nat) : List Operation → Nat
  | [] => 0
  | op :: ops => w.readsBy i op + (w.perform op).workspace.readsThrough i ops

/-- An operation makes the snapshot with number `i`, and gives it so many tables. -/
inductive Founds (w : Workspace) (i : Nat) : Operation → Nat → Prop
  /-- The first snapshot of a lineage starts with none, -/
  | root {store : Nat} {options : Options}
      (hresult : (w.openSnapshot store options).result = .ok i) :
      Founds w i (.openSnapshot store options) 0
  /-- and a successor with those of its predecessor. -/
  | successor {j : Nat} {changed : List TypeId} {store? : Option Nat} {s : Snapshot}
      {store : ClassStore} (hlive : w.live j = .ok (s, store))
      (hresult : (w.derive j changed store?).result = .ok i) :
      Founds w i (.derive j changed store?) s.cache.stats.entries

/-- The reads of a run are those of its parts. -/
theorem readsThrough_append (w : Workspace) (i : Nat) (ops more : List Operation) :
    w.readsThrough i (ops ++ more) =
      w.readsThrough i ops + (w.after ops).readsThrough i more := by
  induction ops generalizing w with
  | nil => exact (Nat.zero_add _).symm
  | cons op ops ih => simp only [List.cons_append, readsThrough, ih, after_cons, Nat.add_assoc]

/-- A query reads through the snapshot that it is asked of. -/
theorem readsBy_ask_self {store : ClassStore} (hlive : w.live i = .ok (s, store)) (q : Query) :
    w.readsBy i (.ask i q) =
      s.cache.accesses (s.definition store) (Snapshot.stale w.marks q.sig?)
        (q.run (s.view w.types store w.marks q.sig?)).reads := by
  simp only [readsBy, hlive, if_true]

/-- A query reads through no other snapshot. -/
theorem readsBy_ask_ne {j : Nat} (hne : j ≠ i) (q : Query) : w.readsBy i (.ask j q) = 0 :=
  if_neg hne

/-- It is the number of reads that the query counts when it is carried out. -/
theorem readsBy_ask_eq_accesses {store : ClassStore} (hlive : w.live i = .ok (s, store)) {q : Query}
    {p : Inquiry (Except WalkFault Answer)} (hp : ∀ tables, p.walk tables =
      q.run ((s.view w.types store w.marks q.sig?).withTables tables)) :
    w.readsBy i (.ask i q) = (p.carryOut (s.definition store) (Snapshot.stale w.marks q.sig?)
      (.start s.cache)).2.accesses := by
  rw [p.accesses_carryOut s store, readsBy_ask_self hlive, hp]
  rfl

/-- A snapshot that cannot be used is not read. -/
theorem readsBy_of_error {e : Failure} (he : w.live i = .error e) (op : Operation) :
    w.readsBy i op = 0 := by
  cases op <;> first | rfl | simp [readsBy, he]

/-! ### What an operation does to the books of a snapshot -/

/-- A query keeps the books, and is entered in those of the snapshot that is asked. -/
theorem balances_ask (hs : w.snapshots[i]? = some s) (h : s.cache.Balances given reads) (j : Nat)
    (q : Query) :
    ∃ s', (w.ask j q).workspace.snapshots[i]? = some s' ∧
      s'.cache.Balances given (reads + w.readsBy i (.ask j q)) := by
  have hlt := (List.getElem?_eq_some_iff.1 hs).1
  cases hlive : w.live j with
  | error e =>
      have hreads : w.readsBy i (.ask j q) = 0 := by
        by_cases hj : j = i
        · exact readsBy_of_error (hj ▸ hlive) _
        · exact readsBy_ask_ne hj q
      rw [ask, hlive, hreads]
      exact ⟨s, hs, h⟩
  | ok p =>
      obtain ⟨u, store⟩ := p
      rw [snapshots_ask hlive]
      by_cases hj : j = i
      · subst hj
        obtain rfl : u = s := Option.some.inj ((leads_of_live hlive).1.symm.trans hs)
        rw [List.getElem?_set_self hlt, readsBy_ask_self hlive]
        refine ⟨_, rfl, h.accounts.follow _ _ _, ?_⟩
        rw [← h.served_eq]
        exact MemberCache.served_follow ..
      · rw [List.getElem?_set_ne hj, readsBy_ask_ne hj]
        exact ⟨s, hs, h⟩

/-- **Every operation keeps the books.** -/
theorem balances_perform (hs : w.snapshots[i]? = some s) (h : s.cache.Balances given reads)
    (op : Operation) :
    ∃ s', (w.perform op).workspace.snapshots[i]? = some s' ∧
      s'.cache.Balances given (reads + w.readsBy i op) := by
  have hlt := (List.getElem?_eq_some_iff.1 hs).1
  -- a live snapshot evicts a table and may change otherwise, and the other snapshots stay
  have hevicts {j : Nat} {t : TypeId} {u : Snapshot} {store : ClassStore} {synthesized : ClassStore}
      (hlive : w.live j = .ok (u, store)) :
      ∃ s', (w.snapshots.set j { u with
          synthesized := synthesized
          cache := u.cache.invalidate t })[i]? = some s' ∧
        s'.cache.Balances given (reads + 0) := by
    by_cases hj : j = i
    · subst hj
      obtain rfl : u = s := Option.some.inj ((leads_of_live hlive).1.symm.trans hs)
      rw [List.getElem?_set_self hlt]
      exact ⟨_, rfl, h.accounts.invalidate t, (u.cache.served_invalidate t).trans h.served_eq⟩
    · exact ⟨s, (List.getElem?_set_ne hj).trans hs, h⟩
  by_cases hask : ∃ j q, op = .ask j q
  · obtain ⟨j, q, rfl⟩ := hask
    exact balances_ask hs h j q
  · have hreads : w.readsBy i op = 0 := by
      cases op <;> first | rfl | exact absurd ⟨_, _, rfl⟩ hask
    rw [hreads]
    have hstep := w.step_perform op
    generalize (w.perform op).workspace = w' at hstep
    cases hstep with
    | aside hsnapshots => exact ⟨s, hsnapshots ▸ hs, h⟩
    | evicts hlive => exact hevicts hlive
    | synthesizes hlive => exact hevicts hlive
    | asks => exact absurd ⟨_, _, rfl⟩ hask
    | opens _ _ _ hsnapshots =>
        exact ⟨s, by rw [hsnapshots, List.getElem?_append_left hlt, hs], h⟩
    | derives _ _ hsnapshots =>
        exact ⟨s, by rw [hsnapshots, List.getElem?_append_left hlt, hs], h⟩

/-- **So does every run**, and all reads that it makes through the snapshot are entered. -/
theorem balances_after (hs : w.snapshots[i]? = some s) (h : s.cache.Balances given reads)
    (ops : List Operation) :
    ∃ s', (w.after ops).snapshots[i]? = some s' ∧
      s'.cache.Balances given (reads + w.readsThrough i ops) := by
  induction ops generalizing w s reads with
  | nil => exact ⟨s, hs, h⟩
  | cons op ops ih =>
      obtain ⟨s₁, hs₁, h₁⟩ := balances_perform hs h op
      obtain ⟨s₂, hs₂, h₂⟩ := ih hs₁ h₁
      exact ⟨s₂, hs₂, by rwa [readsThrough, ← Nat.add_assoc]⟩

/-! ### How a snapshot comes about -/

/-- A new snapshot has balanced books. -/
theorem Founds.balances (h : w.Founds i op given) :
    w.snapshots[i]? = none ∧ ∃ s, (w.perform op).workspace.snapshots[i]? = some s ∧
      s.cache.Balances given 0 := by
  cases h with
  | @root store options hresult =>
      cases hstore : w.stores[store]? with
      | none =>
          simp only [openSnapshot, hstore, fail] at hresult
          cases hresult
      | some _ =>
          simp only [openSnapshot, hstore, Except.ok.injEq] at hresult
          subst hresult
          simp only [perform, openSnapshot, hstore]
          exact ⟨List.getElem?_eq_none (Nat.le_refl _), _, List.getElem?_concat_length,
            MemberCache.accounts_empty, rfl⟩
  | @successor j changed store? p store hlive hresult =>
      obtain ⟨rfl, hsnapshots, -⟩ := derive_of_ok hlive hresult
      rw [perform, hsnapshots]
      refine ⟨List.getElem?_eq_none (Nat.le_refl _), _, List.getElem?_concat_length, ?_, ?_⟩
      · exact p.cache.accounts_fork.invalidateAll changed
      · rw [MemberCache.served, MemberCache.hits_invalidateAll, MemberCache.misses_invalidateAll]
        rfl

/-- **A snapshot that was not there** before an operation is founded by it. -/
theorem founds_of_new (hnone : w.snapshots[i]? = none)
    (hsome : (w.perform op).workspace.snapshots[i]? = some s) : ∃ given, w.Founds i op given := by
  have hset {j : Nat} {u u' : Snapshot} (hu : w.snapshots[j]? = some u)
      (h : (w.snapshots.set j u')[i]? = some s) : False := by
    rcases getElem?_set_cases h with ⟨rfl, -⟩ | ⟨-, hi⟩
    · rw [hnone] at hu
      cases hu
    · rw [hnone] at hi
      cases hi
  have hindex {u : Snapshot} (h : (w.snapshots ++ [u])[i]? = some s) : i = w.snapshots.length := by
    rcases getElem?_concat_cases h with hi | ⟨hi, -⟩
    · rw [hnone] at hi
      cases hi
    · exact hi
  have hstep := w.step_perform op
  generalize hw' : (w.perform op).workspace = w' at hstep hsome
  cases hstep with
  | aside hsnapshots =>
      rw [hsnapshots, hnone] at hsome
      cases hsome
  | evicts hlive => exact (hset (leads_of_live hlive).1 hsome).elim
  | synthesizes hlive => exact (hset (leads_of_live hlive).1 hsome).elim
  | asks hlive hsnapshots => exact (hset (leads_of_live hlive).1 (hsnapshots ▸ hsome)).elim
  | @opens store options _ _ _ _ _ hsnapshots =>
      refine ⟨0, .root ?_⟩
      cases hstore : w.stores[store]? with
      | none =>
          rw [← hw', perform, openSnapshot, hstore] at hsome
          exact absurd (hnone.symm.trans hsome) (by simp)
      | some _ =>
          rw [hindex (hsnapshots ▸ hsome), openSnapshot, hstore]
  | @derives j changed store? u _ store _ hlive _ hsnapshots =>
      refine ⟨_, .successor hlive ?_⟩
      cases hstore : w.stores[store?.getD u.store]? with
      | none =>
          rw [← hw', perform, derive, hlive] at hsome
          simp only [hstore] at hsome
          exact absurd (hnone.symm.trans hsome) (by simp)
      | some _ =>
          rw [hindex (hsnapshots ▸ hsome), derive, hlive]
          simp only [hstore]

/-- A snapshot that is not there is not read. -/
theorem readsBy_of_none (hnone : w.snapshots[i]? = none) (op : Operation) : w.readsBy i op = 0 :=
  readsBy_of_error (e := .unknownSnapshot) (by rw [live, hnone]) op

/-- **Every snapshot was founded** by an operation of the run, and was not read before. -/
theorem exists_founds {ops : List Operation} (hnone : w.snapshots[i]? = none)
    (hsome : (w.after ops).snapshots[i]? = some s) :
    ∃ pre op post given, ops = pre ++ op :: post ∧ (w.after pre).Founds i op given ∧
      w.readsThrough i (pre ++ [op]) = 0 := by
  induction ops generalizing w with
  | nil =>
      rw [after_nil, hnone] at hsome
      cases hsome
  | cons op ops ih =>
      have hread := readsBy_of_none hnone op
      cases hnext : (w.perform op).workspace.snapshots[i]? with
      | some _ =>
          obtain ⟨given, hfounds⟩ := founds_of_new hnone hnext
          exact ⟨[], op, ops, given, rfl, hfounds, by simp [readsThrough, hread]⟩
      | none =>
          obtain ⟨pre, op', post, given, rfl, hfounds, hreads⟩ := ih hnext hsome
          exact ⟨op :: pre, op', post, given, rfl, hfounds, by simp [readsThrough, hread, hreads]⟩

/-! ### The two laws -/

/-- What an operation that founds a snapshot gives it is all that its tables and evictions have
beyond its misses, whatever comes after. -/
theorem Founds.balances_after (h : w.Founds i op given) (post : List Operation) :
    ∃ s, (w.after (op :: post)).snapshots[i]? = some s ∧
      s.cache.Balances given ((w.perform op).workspace.readsThrough i post) := by
  obtain ⟨-, s, hs, hbalances⟩ := h.balances
  obtain ⟨s', hs', hbalances'⟩ := Workspace.balances_after hs hbalances post
  exact ⟨s', hs', by rwa [Nat.zero_add] at hbalances'⟩

/-- **The counters of every snapshot are conserved**, over every run.

An operation of the run founded the snapshot. Whichever it was: the tables that are there and the
counted evictions are together as many as the misses and the tables that it was given then. A
snapshot that was derived started without hits and misses, and with an eviction for every table of
its predecessor whose type is listed as changed. And the hits and misses are as many as the reads
that the run made through the snapshot: those that each of its queries, which finds out about tables
by reading them, performs on the cache. -/
theorem counters_conserved (types : TypeTable) (tracing : Bool) {ops : List Operation} {i : Nat}
    {s : Snapshot} (hs : ((fresh types tracing).after ops).snapshots[i]? = some s) :
    (∃ pre op post given, ops = pre ++ op :: post ∧
      ((fresh types tracing).after pre).Founds i op given) ∧
    (∀ pre op post given, ops = pre ++ op :: post →
      ((fresh types tracing).after pre).Founds i op given →
      s.cache.stats.entries + s.cache.stats.invalidations = s.cache.stats.misses + given) ∧
    (∀ (w : Workspace) (j : Nat) (changed : List TypeId) (store? : Option Nat) (p : Snapshot)
      (store : ClassStore), w.live j = .ok (p, store) →
      (w.derive j changed store?).result = .ok i →
      ∃ next, (w.derive j changed store?).workspace.snapshots[i]? = some next ∧
        next.cache.stats = ⟨0, 0, p.cache.tables.keys.countP (· ∈ changed),
          p.cache.tables.keys.countP (· ∉ changed)⟩) ∧
    s.cache.stats.hits + s.cache.stats.misses = (fresh types tracing).readsThrough i ops ∧
    ∀ (w : Workspace) (q : Query) (p : Snapshot) (store : ClassStore), w.live i = .ok (p, store) →
      ReadByRead (fun tables =>
        q.run ((p.view w.types store w.marks q.sig?).withTables tables)) ∧
      ∀ x : Inquiry (Except WalkFault Answer),
        (∀ tables, x.walk tables =
          q.run ((p.view w.types store w.marks q.sig?).withTables tables)) →
        w.readsBy i (.ask i q) = (x.carryOut (p.definition store) (Snapshot.stale w.marks q.sig?)
          (.start p.cache)).2.accesses := by
  refine ⟨?_, ?_, ?_, ?_, fun w q p store hlive =>
    ⟨q.readByRead_run _, fun x hx => readsBy_ask_eq_accesses hlive hx⟩⟩
  · obtain ⟨pre, op, post, given, hops, hfounds, -⟩ := exists_founds rfl hs
    exact ⟨pre, op, post, given, hops, hfounds⟩
  · rintro pre op post given rfl hfounds
    obtain ⟨s', hs', hbalances⟩ := hfounds.balances_after post
    rw [after_append, hs'] at hs
    cases hs
    exact hbalances.accounts
  · intro w j changed store? p store hlive hresult
    obtain ⟨rfl, hsnapshots, -⟩ := derive_of_ok hlive hresult
    rw [hsnapshots]
    exact ⟨_, List.getElem?_concat_length, p.cache.stats_invalidateAll_fork changed⟩
  · obtain ⟨pre, op, post, given, rfl, hfounds, hread⟩ := exists_founds rfl hs
    obtain ⟨s', hs', hbalances⟩ := hfounds.balances_after post
    rw [after_append, hs'] at hs
    cases hs
    rw [List.append_cons, readsThrough_append, hread, Nat.zero_add, after_append]
    exact hbalances.served_eq

/-- A query comes upon the replaced class and builds its table anew; then a successor is derived,
with the type of the class listed twice, and asked as well. -/
def forkedRun : List Operation :=
  replacementRun.dropLast ++
    [.ask 0 (.method replacedRef), .derive 0 [replacedRef.holder, replacedRef.holder] none,
      .ask 1 (.method replacedRef)]

/-- The successor was given one table, which it evicted, and built one. -/
theorem forkedRun_conserved :
    ∃ s, ((fresh (.freshWith SymbolTable.byteSum) false).after forkedRun).snapshots[1]? = some s ∧
      s.cache.stats = ⟨0, 1, 1, 1⟩ ∧
      s.cache.stats.entries + s.cache.stats.invalidations = s.cache.stats.misses + 1 ∧
      s.cache.stats.hits + s.cache.stats.misses =
        (fresh (.freshWith SymbolTable.byteSum) false).readsThrough 1 forkedRun := by
  obtain ⟨s, hs⟩ : ∃ s, ((fresh (.freshWith SymbolTable.byteSum) false).after
      forkedRun).snapshots[1]? = some s := ⟨_, rfl⟩
  obtain ⟨-, hentries, -, hreads, -⟩ :=
    counters_conserved (.freshWith SymbolTable.byteSum) false hs
  refine ⟨s, hs, ?_, ?_, hreads⟩
  · cases hs
    rfl
  · obtain ⟨p, store, hlive⟩ : ∃ p store, ((fresh (.freshWith SymbolTable.byteSum) false).after
        (forkedRun.take 6)).live 0 = .ok (p, store) := ⟨_, _, rfl⟩
    have hgiven : p.cache.stats.entries = 1 := by
      cases hlive
      rfl
    rw [← hgiven]
    exact hentries (forkedRun.take 6) _ [.ask 1 (.method replacedRef)] _ rfl (.successor hlive rfl)

end Workspace

end Linkage
