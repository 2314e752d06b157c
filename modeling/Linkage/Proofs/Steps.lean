import Linkage.Operation

/-!
# What an Operation Does to the Snapshots

Every operation of a workspace leaves its snapshots alone, changes one live snapshot, or adds a
snapshot at the end. This module says so once, as `Step`, with the change spelled out, so that a
law about runs has six cases to look at and not one for each operation.

It also keeps the book of a lineage. A snapshot *leads* its lineage while it is the live one.
The generations of a lineage are handed out in order and each only once, and so a lineage has
at most one leader.

## Main results

* `step_perform`: every operation is one of the six steps.
* `ordered_of_reachable`: generations stay in order in every workspace that comes about.
* `Ordered.leads_unique`: a lineage has at most one leader.
* `stored_of_reachable`: every snapshot has its store, so that a leader can be used.
* `Ordered.becomes`: what an operation makes of the leader of a lineage.
-/

namespace Linkage

namespace Operation

/-- The types whose tables an operation is asked to evict. -/
def evicted : Operation → List TypeId
  | .invalidate _ t => [t]
  | .derive _ changed _ => changed
  | _ => []

end Operation

namespace Workspace

/-- The snapshot with number `i` is `s`, and it is the live one of its lineage. -/
def Leads (w : Workspace) (i : Nat) (s : Snapshot) : Prop :=
  w.snapshots[i]? = some s ∧ w.current s = s.generation

/-- A snapshot can be used exactly when it leads its lineage and its store is there. -/
theorem live_eq_ok_iff {w : Workspace} {i : Nat} {s : Snapshot} {store : ClassStore} :
    w.live i = .ok (s, store) ↔ w.Leads i s ∧ w.stores[s.store]? = some store := by
  rw [live, Leads]
  cases hs : w.snapshots[i]? with
  | none => simp
  | some t =>
      by_cases ht : w.isLive t = true
      · have hgen : w.current t = t.generation := by simpa [isLive] using ht
        simp only [ht, if_true]
        cases hstore : w.stores[t.store]? with
        | none =>
            refine ⟨fun h => by simp at h, ?_⟩
            rintro ⟨⟨hts, -⟩, hst⟩
            obtain rfl : t = s := Option.some.inj hts
            rw [hstore] at hst
            simp at hst
        | some st =>
            constructor
            · intro h
              obtain ⟨rfl, rfl⟩ : t = s ∧ st = store := by simpa using h
              exact ⟨⟨rfl, hgen⟩, hstore⟩
            · rintro ⟨⟨hts, -⟩, hst⟩
              obtain rfl : t = s := Option.some.inj hts
              rw [hstore] at hst
              rw [Option.some.inj hst]
      · simp only [ht]
        refine ⟨fun h => by simp at h, ?_⟩
        rintro ⟨⟨hts, hgen⟩, -⟩
        obtain rfl : t = s := Option.some.inj hts
        exact absurd (by simpa [isLive] using hgen) ht

/-- A live snapshot leads its lineage. -/
theorem leads_of_live {w : Workspace} {i : Nat} {s : Snapshot} {store : ClassStore}
    (h : w.live i = .ok (s, store)) : w.Leads i s :=
  (live_eq_ok_iff.1 h).1

/-! ### The six steps -/

/-- **What an operation can do to the snapshots.** Stores, types, markers and counters may change
beside it where a step does not say that they stay. -/
inductive Step (w : Workspace) : Operation → Workspace → Prop
  /-- The snapshots stay as they are, and nothing was evicted. -/
  | aside {op : Operation} {w' : Workspace}
      (hsnapshots : w'.snapshots = w.snapshots) (hgenerations : w'.generations = w.generations)
      (hevicted : op.evicted = [] ∨ ∃ e, (w.perform op).result = .error e) : Step w op w'
  /-- A live snapshot evicts a table. -/
  | evicts {i : Nat} {t : TypeId} {s : Snapshot} {store : ClassStore}
      (hlive : w.live i = .ok (s, store)) :
      Step w (.invalidate i t) (w.setSnapshot i { s with cache := s.cache.invalidate t })
  /-- A live snapshot gets a class of its own, for a type without a definition. -/
  | synthesizes {i : Nat} {c : ClassDef} {s : Snapshot} {store : ClassStore}
      (hlive : w.live i = .ok (s, store)) (hstore : store.contains c.type = false)
      (hnew : s.synthesized.get? c.type = none) :
      Step w (.synthesize i c) (w.setSnapshot i
        { s with synthesized := s.synthesized.put c, cache := s.cache.invalidate c.type })
  /-- A live snapshot makes the reads of a query. -/
  | asks {i : Nat} {q : Query} {s : Snapshot} {store : ClassStore} {w' : Workspace}
      (hlive : w.live i = .ok (s, store))
      (hsnapshots : w'.snapshots = w.snapshots.set i (s.afterReads store w.marks q.sig?
        (q.run (s.view w.types store w.marks q.sig?)).reads))
      (hgenerations : w'.generations = w.generations) (hstores : w'.stores = w.stores) :
      Step w (.ask i q) w'
  /-- A lineage starts. -/
  | opens {store : Nat} {options : Options} {s : Snapshot} {w' : Workspace}
      (hlineage : s.lineage = w.generations.length)
      (hgeneration : s.generation = Snapshot.firstGeneration) (hcache : s.cache = .empty)
      (hsnapshots : w'.snapshots = w.snapshots ++ [s])
      (hgenerations : w'.generations = w.generations ++ [Snapshot.firstGeneration])
      (hstores : w'.stores = w.stores) : Step w (.openSnapshot store options) w'
  /-- A live snapshot gets a successor, which leads the lineage from now on. -/
  | derives {i : Nat} {changed : List TypeId} {store? : Option Nat} {s next : Snapshot}
      {store : ClassStore} {w' : Workspace} (hlive : w.live i = .ok (s, store))
      (hnext : next = { s with
        generation := s.generation + 1
        store := store?.getD s.store
        cache := s.cache.fork.invalidateAll changed })
      (hsnapshots : w'.snapshots = w.snapshots ++ [next])
      (hgenerations : w'.generations = w.generations.set s.lineage (s.generation + 1))
      (hstores : w'.stores = w.stores) : Step w (.derive i changed store?) w'

/-- An operation on a snapshot that cannot be used changes nothing and reports why. -/
theorem perform_of_live_error {w : Workspace} {op : Operation} {i : Nat} {e : Failure}
    (hop : op.snapshot? = some i) (he : w.live i = .error e) :
    w.perform op = w.fail e := by
  cases op <;> simp only [Operation.snapshot?, Option.some.injEq, reduceCtorEq] at hop
  all_goals subst hop
  · rw [perform, derive, he]
  · rw [perform, checkLive, he]
  · rw [perform, invalidate, he]
  · rw [perform, synthesize, he]
  · rw [perform, synthesizedClasses, he]
  · rw [perform, storeClasses, he]
  · rw [perform, ask, he]

/-- Deriving from a live snapshot adds its successor, or fails for want of the new store. -/
theorem step_derive {w : Workspace} {i : Nat} {s : Snapshot} {store : ClassStore}
    (hlive : w.live i = .ok (s, store)) (changed : List TypeId) (store? : Option Nat) :
    w.Step (.derive i changed store?) (w.derive i changed store?).workspace := by
  cases hnew : w.stores[store?.getD s.store]? with
  | none =>
      refine .aside ?_ ?_ (.inr ⟨.unknownStore, ?_⟩) <;>
        simp only [perform, derive, hlive, hnew, fail]
  | some _ =>
      refine .derives hlive rfl ?_ ?_ ?_ <;> simp only [derive, hlive, hnew]

/-- A derivation that succeeds adds the successor and tells of it. -/
theorem derive_of_ok {w : Workspace} {i n : Nat} {changed : List TypeId} {store? : Option Nat}
    {s : Snapshot} {store : ClassStore} (hlive : w.live i = .ok (s, store))
    (hresult : (w.derive i changed store?).result = .ok n) :
    n = w.snapshots.length ∧
      (w.derive i changed store?).workspace.snapshots = w.snapshots ++ [{ s with
        generation := s.generation + 1
        store := store?.getD s.store
        cache := s.cache.fork.invalidateAll changed }] ∧
      (w.derive i changed store?).events =
        if w.tracing && s.options.queryTracing then
          [.derived s.generation (s.generation + 1) changed.length]
        else [] := by
  cases hstore : w.stores[store?.getD s.store]? with
  | none =>
      simp only [derive, hlive, hstore, fail] at hresult
      cases hresult
  | some _ =>
      simp only [derive, hlive, hstore] at hresult
      refine ⟨(Except.ok.inj hresult).symm, ?_, ?_⟩ <;> simp only [derive, hlive, hstore]

/-- Making a class visible in a live snapshot gives it a class of its own, or does nothing. -/
theorem step_synthesize {w : Workspace} {i : Nat} {s : Snapshot} {store : ClassStore}
    (hlive : w.live i = .ok (s, store)) (c : ClassDef) :
    w.Step (.synthesize i c) (w.synthesize i c).workspace := by
  cases hstore : store.contains c.type with
  | true =>
      refine .aside ?_ ?_ (.inl rfl) <;> simp only [synthesize, hlive, hstore, if_true, fail]
  | false =>
      cases hnew : s.synthesized.get? c.type with
      | none =>
          have h := Step.synthesizes hlive hstore hnew
          simpa only [synthesize, hlive, hstore, hnew, answer, Bool.false_eq_true, if_false]
            using h
      | some d =>
          refine .aside ?_ ?_ (.inl rfl) <;>
            · simp only [synthesize, hlive, hstore, hnew, Bool.false_eq_true, if_false]
              split <;> rfl

/-- Asking a live snapshot makes the reads of the query. -/
theorem step_ask {w : Workspace} {i : Nat} {s : Snapshot} {store : ClassStore}
    (hlive : w.live i = .ok (s, store)) (q : Query) :
    w.Step (.ask i q) (w.ask i q).workspace := by
  refine .asks hlive ?_ ?_ ?_ <;>
    · simp only [ask, hlive]
      split <;> rfl

/-- A live snapshot answers from what a query sees of it. -/
theorem result_ask {w : Workspace} {i : Nat} {s : Snapshot} {store : ClassStore}
    (hlive : w.live i = .ok (s, store)) (q : Query) :
    (w.ask i q).result = Failure.ofWalk (q.run (s.view w.types store w.marks q.sig?)).value := by
  simp only [ask, hlive]
  split <;> rfl

/-- And makes the reads of the query. -/
theorem snapshots_ask {w : Workspace} {i : Nat} {s : Snapshot} {store : ClassStore}
    (hlive : w.live i = .ok (s, store)) (q : Query) :
    (w.ask i q).workspace.snapshots = w.snapshots.set i (s.afterReads store w.marks q.sig?
      (q.run (s.view w.types store w.marks q.sig?)).reads) := by
  simp only [ask, hlive]
  split <;> rfl

/-- Asking interns no types. -/
@[simp] theorem types_ask (w : Workspace) (i : Nat) (q : Query) :
    (w.ask i q).workspace.types = w.types := by
  cases hlive : w.live i with
  | error e => rw [ask, hlive]; rfl
  | ok p =>
      simp only [ask, hlive]
      split <;> rfl

/-- Asking marks no method. -/
@[simp] theorem marks_ask (w : Workspace) (i : Nat) (q : Query) :
    (w.ask i q).workspace.marks = w.marks := by
  cases hlive : w.live i with
  | error e => rw [ask, hlive]; rfl
  | ok p =>
      simp only [ask, hlive]
      split <;> rfl

/-- **Every operation is one of the six steps.** -/
theorem step_perform (w : Workspace) (op : Operation) : w.Step op (w.perform op).workspace := by
  cases hop : op.snapshot? with
  | some i =>
      cases hlive : w.live i with
      | error e =>
          rw [perform_of_live_error hop hlive]
          exact .aside rfl rfl (.inr ⟨e, by rw [perform_of_live_error hop hlive]; rfl⟩)
      | ok p =>
          obtain ⟨s, store⟩ := p
          cases op <;> simp only [Operation.snapshot?, Option.some.injEq, reduceCtorEq] at hop
          all_goals subst hop
          case derive changed store? => exact step_derive hlive changed store?
          case synthesize c => exact step_synthesize hlive c
          case ask q => exact step_ask hlive q
          case invalidate t =>
              have h := Step.evicts (t := t) hlive
              simpa only [perform, invalidate, hlive, answer] using h
          case synthesizedClasses =>
              refine .aside ?_ ?_ (.inl rfl) <;>
                · simp only [perform, synthesizedClasses, hlive]
                  split <;> rfl
          all_goals
            refine .aside ?_ ?_ (.inl rfl) <;>
              simp only [perform, checkLive, storeClasses, hlive, answer]
  | none =>
      cases op <;> simp only [Operation.snapshot?, reduceCtorEq] at hop
      case openSnapshot store options =>
          cases hstore : w.stores[store]? with
          | none =>
              refine .aside ?_ ?_ (.inl rfl) <;>
                simp only [perform, openSnapshot, hstore, fail]
          | some _ =>
              simp only [perform, openSnapshot, hstore]
              exact .opens rfl rfl rfl rfl rfl rfl
      all_goals refine .aside ?_ ?_ (.inl rfl)
      all_goals
        simp only [perform, intern, declare, markObsolete, openStore, insertClass, replaceClass,
          removeClass, askStore]
        repeat' split
        all_goals rfl

/-! ### The generations of a lineage -/

/-- **Generations are handed out in order.** Every snapshot belongs to a lineage that has been
started, at a generation that the lineage has reached, and no two snapshots of a lineage share
their generation. -/
structure Ordered (w : Workspace) : Prop where
  lineage_lt : ∀ {i : Nat} {s : Snapshot}, w.snapshots[i]? = some s →
    s.lineage < w.generations.length
  generation_le : ∀ {i : Nat} {s : Snapshot}, w.snapshots[i]? = some s →
    s.generation ≤ w.current s
  index_eq : ∀ {i j : Nat} {s t : Snapshot}, w.snapshots[i]? = some s →
    w.snapshots[j]? = some t → s.lineage = t.lineage → s.generation = t.generation → i = j

/-- The generation that a lineage has reached, by its number. -/
theorem current_congr {w w' : Workspace} {s s' : Snapshot} (hlineage : s'.lineage = s.lineage)
    (hgenerations : w'.generations = w.generations) : w'.current s' = w.current s := by
  rw [current, current, hlineage, hgenerations]

/-- A lineage has at most one leader. -/
theorem Ordered.leads_unique {w : Workspace} (h : w.Ordered) {i j : Nat} {s t : Snapshot}
    (hi : w.Leads i s) (hj : w.Leads j t) (hl : s.lineage = t.lineage) : i = j ∧ s = t := by
  have hgen : s.generation = t.generation := by
    rw [← hi.2, ← hj.2]
    exact current_congr hl rfl
  obtain rfl := h.index_eq hi.1 hj.1 hl hgen
  exact ⟨rfl, Option.some.inj (hi.1.symm.trans hj.1)⟩

/-- What `List.set` leaves at an index that it may have changed. -/
theorem getElem?_set_cases {α : Type} {l : List α} {i j : Nat} {a b : α}
    (h : (l.set i a)[j]? = some b) : (i = j ∧ a = b) ∨ (i ≠ j ∧ l[j]? = some b) := by
  rw [List.getElem?_set] at h
  by_cases hij : i = j
  · rw [if_pos hij] at h
    split at h
    · exact .inl ⟨hij, Option.some.inj h⟩
    · simp at h
  · rw [if_neg hij] at h
    exact .inr ⟨hij, h⟩

/-- What `l ++ [a]` holds at an index. -/
theorem getElem?_concat_cases {α : Type} {l : List α} {j : Nat} {a b : α}
    (h : (l ++ [a])[j]? = some b) : l[j]? = some b ∨ (j = l.length ∧ a = b) := by
  rw [List.getElem?_append] at h
  split at h
  · exact .inl h
  · next hj =>
      obtain ⟨hj', hb⟩ := List.getElem?_eq_some_iff.1 h
      simp only [List.length_singleton] at hj'
      exact .inr ⟨by omega, by simpa using hb⟩

/-- Replacing a snapshot by one of the same lineage and generation keeps the order. -/
theorem Ordered.of_set {w w' : Workspace} (h : w.Ordered) {i : Nat} {s s' : Snapshot}
    (hi : w.snapshots[i]? = some s) (hsnapshots : w'.snapshots = w.snapshots.set i s')
    (hgenerations : w'.generations = w.generations) (hlineage : s'.lineage = s.lineage)
    (hgeneration : s'.generation = s.generation) : w'.Ordered := by
  have horigin : ∀ {j : Nat} {t : Snapshot}, w'.snapshots[j]? = some t →
      ∃ u, w.snapshots[j]? = some u ∧ t.lineage = u.lineage ∧ t.generation = u.generation := by
    intro j t hj
    rw [hsnapshots] at hj
    rcases getElem?_set_cases hj with ⟨rfl, rfl⟩ | ⟨-, hj⟩
    · exact ⟨s, hi, hlineage, hgeneration⟩
    · exact ⟨t, hj, rfl, rfl⟩
  constructor
  · intro j t hj
    obtain ⟨u, hu, hl, -⟩ := horigin hj
    rw [hgenerations, hl]
    exact h.lineage_lt hu
  · intro j t hj
    obtain ⟨u, hu, hl, hg⟩ := horigin hj
    rw [hg, current_congr hl hgenerations]
    exact h.generation_le hu
  · intro j k t u hj hk hl hg
    obtain ⟨t', ht', hlt, hgt⟩ := horigin hj
    obtain ⟨u', hu', hlu, hgu⟩ := horigin hk
    exact h.index_eq ht' hu' (hlt.symm.trans (hl.trans hlu)) (hgt.symm.trans (hg.trans hgu))

/-- Starting a lineage keeps the order. -/
theorem Ordered.of_open {w w' : Workspace} (h : w.Ordered) {s : Snapshot}
    (hlineage : s.lineage = w.generations.length)
    (hgeneration : s.generation = Snapshot.firstGeneration)
    (hsnapshots : w'.snapshots = w.snapshots ++ [s])
    (hgenerations : w'.generations = w.generations ++ [Snapshot.firstGeneration]) :
    w'.Ordered := by
  have hold : ∀ {t : Snapshot}, t.lineage < w.generations.length →
      w'.current t = w.current t := by
    intro t ht
    rw [current, current, hgenerations, List.getElem?_append_left ht]
  have hnew : w'.current s = Snapshot.firstGeneration := by
    rw [current, hgenerations, hlineage, List.getElem?_concat_length]
    rfl
  constructor
  · intro j t hj
    rw [hsnapshots] at hj
    rw [hgenerations, List.length_append, List.length_singleton]
    rcases getElem?_concat_cases hj with hj | ⟨-, rfl⟩
    · exact Nat.lt_succ_of_lt (h.lineage_lt hj)
    · omega
  · intro j t hj
    rw [hsnapshots] at hj
    rcases getElem?_concat_cases hj with hj | ⟨-, rfl⟩
    · rw [hold (h.lineage_lt hj)]
      exact h.generation_le hj
    · exact Nat.le_of_eq (hgeneration.trans hnew.symm)
  · intro j k t u hj hk hl hg
    rw [hsnapshots] at hj hk
    rcases getElem?_concat_cases hj with hj | ⟨rfl, rfl⟩ <;>
      rcases getElem?_concat_cases hk with hk | ⟨rfl, rfl⟩
    · exact h.index_eq hj hk hl hg
    · have := h.lineage_lt hj
      omega
    · have := h.lineage_lt hk
      omega
    · rfl

/-- Deriving a successor from the leader keeps the order. -/
theorem Ordered.of_derive {w w' : Workspace} (h : w.Ordered) {i : Nat} {s next : Snapshot}
    (hi : w.Leads i s) (hsnapshots : w'.snapshots = w.snapshots ++ [next])
    (hgenerations : w'.generations = w.generations.set s.lineage (s.generation + 1))
    (hlineage : next.lineage = s.lineage) (hgeneration : next.generation = s.generation + 1) :
    w'.Ordered := by
  have hsame : ∀ {t : Snapshot}, t.lineage = s.lineage → w'.current t = s.generation + 1 := by
    intro t ht
    rw [current, hgenerations, ht, List.getElem?_set_self (h.lineage_lt hi.1)]
    rfl
  have hother : ∀ {t : Snapshot}, t.lineage ≠ s.lineage → w'.current t = w.current t := by
    intro t ht
    rw [current, current, hgenerations, List.getElem?_set_ne (Ne.symm ht)]
  have hle : ∀ {j : Nat} {t : Snapshot}, w.snapshots[j]? = some t → t.lineage = s.lineage →
      t.generation ≤ s.generation := by
    intro j t hj hl
    rw [← hi.2, ← current_congr hl rfl]
    exact h.generation_le hj
  constructor
  · intro j t hj
    rw [hsnapshots] at hj
    rw [hgenerations, List.length_set]
    rcases getElem?_concat_cases hj with hj | ⟨-, rfl⟩
    · exact h.lineage_lt hj
    · rw [hlineage]
      exact h.lineage_lt hi.1
  · intro j t hj
    rw [hsnapshots] at hj
    rcases getElem?_concat_cases hj with hj | ⟨-, rfl⟩
    · by_cases hl : t.lineage = s.lineage
      · have := hle hj hl
        rw [hsame hl]
        omega
      · rw [hother hl]
        exact h.generation_le hj
    · exact Nat.le_of_eq (hgeneration.trans (hsame hlineage).symm)
  · intro j k t u hj hk hl hg
    rw [hsnapshots] at hj hk
    rcases getElem?_concat_cases hj with hj | ⟨rfl, rfl⟩ <;>
      rcases getElem?_concat_cases hk with hk | ⟨rfl, rfl⟩
    · exact h.index_eq hj hk hl hg
    · have := hle hj (hl.trans hlineage)
      omega
    · have := hle hk (hl.symm.trans hlineage)
      omega
    · rfl

/-- No operation breaks the order. -/
theorem Ordered.step {w w' : Workspace} {op : Operation} (h : w.Ordered) (hstep : w.Step op w') :
    w'.Ordered := by
  cases hstep with
  | aside hsnapshots hgenerations =>
      constructor
      · intro i s hi
        rw [hgenerations]
        exact h.lineage_lt (hsnapshots ▸ hi)
      · intro i s hi
        rw [current_congr rfl hgenerations]
        exact h.generation_le (hsnapshots ▸ hi)
      · intro i j s t hi hj
        exact h.index_eq (hsnapshots ▸ hi) (hsnapshots ▸ hj)
  | evicts hlive => exact h.of_set (leads_of_live hlive).1 rfl rfl rfl rfl
  | synthesizes hlive => exact h.of_set (leads_of_live hlive).1 rfl rfl rfl rfl
  | asks hlive hsnapshots hgenerations =>
      exact h.of_set (leads_of_live hlive).1 hsnapshots hgenerations rfl rfl
  | opens hlineage hgeneration _ hsnapshots hgenerations =>
      exact h.of_open hlineage hgeneration hsnapshots hgenerations
  | derives hlive hnext hsnapshots hgenerations =>
      subst hnext
      exact h.of_derive (leads_of_live hlive) hsnapshots hgenerations rfl rfl

/-- A workspace without snapshots is in order. -/
theorem ordered_fresh (types : TypeTable) (tracing : Bool) : (fresh types tracing).Ordered := by
  constructor <;> simp [fresh]

/-- Generations are handed out in order over every run. -/
theorem Ordered.after {w : Workspace} (h : w.Ordered) (ops : List Operation) :
    (w.after ops).Ordered :=
  after_induction (fun w op hw => hw.step (step_perform w op)) h ops

/-- **Generations are in order in every workspace that comes about.** -/
theorem ordered_of_reachable {w : Workspace} (h : w.Reachable) : w.Ordered := by
  obtain ⟨shardOf, tracing, ops, rfl⟩ := h
  exact (ordered_fresh _ _).after ops

/-! ### The stores of snapshots -/

/-- Every snapshot is one of a store that is there. -/
def Stored (w : Workspace) : Prop := ∀ s ∈ w.snapshots, s.store < w.stores.length

/-- **A leader can be used**: it is live. -/
theorem Stored.live {w : Workspace} (h : w.Stored) {i : Nat} {s : Snapshot} (hs : w.Leads i s) :
    ∃ store, w.live i = .ok (s, store) := by
  have hlt : s.store < w.stores.length := h s (List.mem_of_getElem? hs.1)
  exact ⟨w.stores[s.store], live_eq_ok_iff.2 ⟨hs, List.getElem?_eq_getElem hlt⟩⟩

/-- Stores are never given up. -/
theorem length_stores_le (w : Workspace) (op : Operation) :
    w.stores.length ≤ (w.perform op).workspace.stores.length := by
  cases op
  all_goals
    simp only [perform, intern, declare, markObsolete, openStore, insertClass, replaceClass,
      removeClass, openSnapshot, derive, checkLive, invalidate, synthesize, synthesizedClasses,
      storeClasses, ask, askStore]
    repeat' split
    all_goals simp [fail, answer, setStore, setSnapshot]

/-- A snapshot that is changed in place stays one of its store. -/
theorem Stored.of_set {w w' : Workspace} (h : w.Stored) {i : Nat} {s s' : Snapshot}
    (hi : w.snapshots[i]? = some s) (hsnapshots : w'.snapshots = w.snapshots.set i s')
    (hstore : s'.store = s.store) (hle : w.stores.length ≤ w'.stores.length) : w'.Stored := by
  intro t ht
  rw [hsnapshots] at ht
  refine Nat.lt_of_lt_of_le ?_ hle
  rcases List.mem_or_eq_of_mem_set ht with ht | rfl
  · exact h t ht
  · rw [hstore]
    exact h s (List.mem_of_getElem? hi)

/-- A new snapshot of a store that is there is one, too. -/
theorem Stored.of_concat {w w' : Workspace} (h : w.Stored) {s : Snapshot}
    (hsnapshots : w'.snapshots = w.snapshots ++ [s]) (hstore : s.store < w.stores.length)
    (hle : w.stores.length ≤ w'.stores.length) : w'.Stored := by
  intro t ht
  rw [hsnapshots, List.mem_append, List.mem_singleton] at ht
  refine Nat.lt_of_lt_of_le ?_ hle
  rcases ht with ht | rfl
  · exact h t ht
  · exact hstore

/-- No operation takes a store from a snapshot. -/
theorem Stored.step {w : Workspace} (h : w.Stored) (op : Operation) :
    (w.perform op).workspace.Stored := by
  have hle := w.length_stores_le op
  have hstep := w.step_perform op
  generalize hw' : (w.perform op).workspace = w' at hle hstep ⊢
  cases hstep with
  | aside hsnapshots =>
      intro s hs
      rw [hsnapshots] at hs
      exact Nat.lt_of_lt_of_le (h s hs) hle
  | evicts hlive => exact h.of_set (leads_of_live hlive).1 rfl rfl hle
  | synthesizes hlive => exact h.of_set (leads_of_live hlive).1 rfl rfl hle
  | asks hlive hsnapshots => exact h.of_set (leads_of_live hlive).1 hsnapshots rfl hle
  | @opens store options s _ hlineage hgeneration hcache hsnapshots =>
      cases hstore : w.stores[store]? with
      | none =>
          rw [← hw', perform, openSnapshot, hstore]
          exact h
      | some _ =>
          have hs : s.store = store := by
            rw [← hw', perform, openSnapshot, hstore] at hsnapshots
            rw [← List.singleton_inj.1 (List.append_cancel_left hsnapshots)]
          refine h.of_concat hsnapshots ?_ hle
          rw [hs]
          exact (List.getElem?_eq_some_iff.1 hstore).1
  | @derives i changed store? s next _ _ hlive hnext hsnapshots =>
      cases hstore : w.stores[store?.getD s.store]? with
      | none =>
          rw [← hw', perform, derive, hlive]
          simp only [hstore]
          exact h
      | some _ =>
          refine h.of_concat hsnapshots ?_ hle
          rw [hnext]
          exact (List.getElem?_eq_some_iff.1 hstore).1

/-- Every snapshot is one of a store that is there, over every run. -/
theorem Stored.after {w : Workspace} (h : w.Stored) (ops : List Operation) :
    (w.after ops).Stored :=
  after_induction (fun _ op hw => hw.step op) h ops

/-- **Every snapshot has its store in every workspace that comes about.** -/
theorem stored_of_reachable {w : Workspace} (h : w.Reachable) : w.Stored := by
  obtain ⟨shardOf, tracing, ops, rfl⟩ := h
  exact Stored.after (fun s hs => absurd hs List.not_mem_nil) ops

/-! ### Who leads after a step -/

/-- After a change of the snapshot with number `i`, the leaders are the changed snapshot and the
leaders with other numbers. -/
theorem leads_of_set {w w' : Workspace} {i j : Nat} {s' t : Snapshot} (hlead : w'.Leads j t)
    (hsnapshots : w'.snapshots = w.snapshots.set i s')
    (hgenerations : w'.generations = w.generations) :
    (i = j ∧ s' = t) ∨ (i ≠ j ∧ w.Leads j t) := by
  obtain ⟨hj, hgen⟩ := hlead
  rw [hsnapshots] at hj
  rcases getElem?_set_cases hj with ⟨rfl, rfl⟩ | ⟨hij, hj⟩
  · exact .inl ⟨rfl, rfl⟩
  · exact .inr ⟨hij, hj, (current_congr rfl hgenerations).symm.trans hgen⟩

/-- After a lineage was started, its first snapshot leads beside the leaders there were. -/
theorem Ordered.leads_of_open {w w' : Workspace} (h : w.Ordered) {j : Nat} {s t : Snapshot}
    (hlead : w'.Leads j t) (hsnapshots : w'.snapshots = w.snapshots ++ [s])
    (hgenerations : w'.generations = w.generations ++ [Snapshot.firstGeneration]) :
    s = t ∨ w.Leads j t := by
  obtain ⟨hj, hgen⟩ := hlead
  rw [hsnapshots] at hj
  rcases getElem?_concat_cases hj with hj | ⟨-, rfl⟩
  · refine .inr ⟨hj, ?_⟩
    rw [← hgen, current, current, hgenerations, List.getElem?_append_left (h.lineage_lt hj)]
  · exact .inl rfl

/-- After a successor was derived, it leads in place of its predecessor. -/
theorem Ordered.leads_of_derive {w w' : Workspace} (h : w.Ordered) {i j : Nat}
    {s next t : Snapshot} (hs : w.Leads i s) (hlead : w'.Leads j t)
    (hsnapshots : w'.snapshots = w.snapshots ++ [next])
    (hgenerations : w'.generations = w.generations.set s.lineage (s.generation + 1)) :
    next = t ∨ (i ≠ j ∧ w.Leads j t) := by
  obtain ⟨hj, hgen⟩ := hlead
  rw [hsnapshots] at hj
  rcases getElem?_concat_cases hj with hj | ⟨-, rfl⟩
  · have hl : t.lineage ≠ s.lineage := by
      intro hl
      have hle := h.generation_le hj
      have hcur : w.current t = s.generation := (current_congr hl rfl).trans hs.2
      rw [current, hgenerations, hl, List.getElem?_set_self (h.lineage_lt hs.1)] at hgen
      rw [Option.getD_some] at hgen
      omega
    refine .inr ⟨?_, hj, ?_⟩
    · rintro rfl
      exact hl (congrArg Snapshot.lineage (Option.some.inj (hj.symm.trans hs.1)))
    · rw [← hgen, current, current, hgenerations, List.getElem?_set_ne (Ne.symm hl)]
  · exact .inl rfl

/-! ### What becomes of a leader -/

/-- **What an operation makes of a leader**, or of the lineage that it leads. -/
inductive Becomes (w : Workspace) (i : Nat) (s : Snapshot) : Operation → Snapshot → Prop
  /-- The operation is not for the leader, or leaves it as it is. -/
  | same {op : Operation} : Becomes w i s op s
  /-- The leader evicts a table. -/
  | evicted {t : TypeId} {store : ClassStore} (hlive : w.live i = .ok (s, store)) :
      Becomes w i s (.invalidate i t) { s with cache := s.cache.invalidate t }
  /-- The leader gets a class of its own. -/
  | extended {c : ClassDef} {store : ClassStore} (hlive : w.live i = .ok (s, store))
      (hstore : store.contains c.type = false) (hnew : s.synthesized.get? c.type = none) :
      Becomes w i s (.synthesize i c)
        { s with synthesized := s.synthesized.put c, cache := s.cache.invalidate c.type }
  /-- The leader makes the reads of a query. -/
  | asked {q : Query} {store : ClassStore} (hlive : w.live i = .ok (s, store)) :
      Becomes w i s (.ask i q) (s.afterReads store w.marks q.sig?
        (q.run (s.view w.types store w.marks q.sig?)).reads)
  /-- The leader gets a successor, which leads from now on. -/
  | succeeded {changed : List TypeId} {store? : Option Nat} {store : ClassStore} {n : Nat}
      (hlive : w.live i = .ok (s, store)) (hresult : (w.derive i changed store?).result = .ok n) :
      Becomes w i s (.derive i changed store?)
        { s with
          generation := s.generation + 1
          store := store?.getD s.store
          cache := s.cache.fork.invalidateAll changed }

/-- A snapshot stays a leader when it is replaced by one of the same lineage and generation. -/
theorem Leads.set_self {w w' : Workspace} {i : Nat} {s s' : Snapshot} (hs : w.Leads i s)
    (hsnapshots : w'.snapshots = w.snapshots.set i s')
    (hgenerations : w'.generations = w.generations) (hlineage : s'.lineage = s.lineage)
    (hgeneration : s'.generation = s.generation) : w'.Leads i s' := by
  constructor
  · rw [hsnapshots, List.getElem?_set_self (List.getElem?_eq_some_iff.1 hs.1).1]
  · rw [current_congr hlineage hgenerations, hs.2, hgeneration]

/-- And when another one is replaced. -/
theorem Leads.set_ne {w w' : Workspace} {i j : Nat} {s s' : Snapshot} (hs : w.Leads i s)
    (hsnapshots : w'.snapshots = w.snapshots.set j s')
    (hgenerations : w'.generations = w.generations) (hne : j ≠ i) : w'.Leads i s := by
  constructor
  · rw [hsnapshots, List.getElem?_set_ne hne, hs.1]
  · rw [current_congr rfl hgenerations, hs.2]

/-- A successor leads in place of the leader. -/
theorem Ordered.leads_concat {w w' : Workspace} (hord : w.Ordered) {i : Nat} {s next : Snapshot}
    (hs : w.Leads i s) (hsnapshots : w'.snapshots = w.snapshots ++ [next])
    (hgenerations : w'.generations = w.generations.set s.lineage (s.generation + 1))
    (hlineage : next.lineage = s.lineage) (hgeneration : next.generation = s.generation + 1) :
    w'.Leads w.snapshots.length next := by
  constructor
  · rw [hsnapshots, List.getElem?_concat_length]
  · rw [current, hgenerations, hlineage, List.getElem?_set_self (hord.lineage_lt hs.1), hgeneration,
      Option.getD_some]

section Live

variable {w : Workspace} {i : Nat} {s : Snapshot} {store : ClassStore}
  (hlive : w.live i = .ok (s, store))
include hlive

/-- A live snapshot that is changed stays live. -/
theorem live_setSnapshot (s' : Snapshot) (hlineage : s'.lineage = s.lineage)
    (hgeneration : s'.generation = s.generation) (hstore : s'.store = s.store) :
    (w.setSnapshot i s').live i = .ok (s', store) := by
  obtain ⟨hs, hget⟩ := live_eq_ok_iff.1 hlive
  exact live_eq_ok_iff.2 ⟨hs.set_self rfl rfl hlineage hgeneration, by rw [hstore]; exact hget⟩

/-- A snapshot stays live when a table is evicted. -/
theorem live_invalidate (t : TypeId) :
    (w.invalidate i t).workspace.live i =
      .ok ({ s with cache := s.cache.invalidate t }, store) := by
  simp only [invalidate, hlive, answer]
  exact live_setSnapshot hlive _ rfl rfl rfl

/-- A class of the snapshot's own is taken if its type has no definition. -/
theorem synthesize_of_new {c : ClassDef} (hstore : store.contains c.type = false)
    (hnew : s.synthesized.get? c.type = none) :
    w.synthesize i c = (w.setSnapshot i { s with
      synthesized := s.synthesized.put c
      cache := s.cache.invalidate c.type }).answer () := by
  simp only [synthesize, hlive, hstore, hnew, Bool.false_eq_true, if_false]

/-- So does one that was asked. -/
theorem live_ask (q : Query) :
    (w.ask i q).workspace.live i = .ok (s.afterReads store w.marks q.sig?
      (q.run (s.view w.types store w.marks q.sig?)).reads, store) := by
  have hset := live_setSnapshot hlive (s.afterReads store w.marks q.sig?
    (q.run (s.view w.types store w.marks q.sig?)).reads) rfl rfl rfl
  simp only [ask, hlive]
  split <;> exact hset

end Live

/-- **A lineage keeps a leader**, and every operation makes of it one of five things. -/
theorem Ordered.becomes {w : Workspace} (hord : w.Ordered) {i : Nat} {s : Snapshot}
    (hs : w.Leads i s) (op : Operation) :
    ∃ j s', (w.perform op).workspace.Leads j s' ∧ s'.lineage = s.lineage ∧ w.Becomes i s op s' := by
  have hstep := w.step_perform op
  generalize hw' : (w.perform op).workspace = w' at hstep ⊢
  -- an operation that replaces a leader replaces this one, or leaves it alone
  have hset {k : Nat} {u u' : Snapshot} (hu : w.Leads k u)
      (hsnapshots : w'.snapshots = w.snapshots.set k u')
      (hgenerations : w'.generations = w.generations) (hlineage : u'.lineage = u.lineage)
      (hgeneration : u'.generation = u.generation)
      (hbecomes : k = i → u = s → w.Becomes i s op u') :
      ∃ j s', w'.Leads j s' ∧ s'.lineage = s.lineage ∧ w.Becomes i s op s' := by
    by_cases hk : k = i
    · subst hk
      obtain rfl : u = s := Option.some.inj (hu.1.symm.trans hs.1)
      exact ⟨k, u', hu.set_self hsnapshots hgenerations hlineage hgeneration, hlineage,
        hbecomes rfl rfl⟩
    · exact ⟨i, s, hs.set_ne hsnapshots hgenerations hk, rfl, .same⟩
  cases hstep with
  | aside hsnapshots hgenerations =>
      refine ⟨i, s, ⟨?_, ?_⟩, rfl, .same⟩
      · rw [hsnapshots, hs.1]
      · rw [current_congr rfl hgenerations, hs.2]
  | evicts hlive =>
      refine hset (leads_of_live hlive) rfl rfl rfl rfl ?_
      rintro rfl rfl
      exact .evicted hlive
  | synthesizes hlive hstore hnew =>
      refine hset (leads_of_live hlive) rfl rfl rfl rfl ?_
      rintro rfl rfl
      exact .extended hlive hstore hnew
  | asks hlive hsnapshots hgenerations =>
      refine hset (leads_of_live hlive) hsnapshots hgenerations rfl rfl ?_
      rintro rfl rfl
      exact .asked hlive
  | opens hlineage hgeneration hcache hsnapshots hgenerations =>
      have hlt := (List.getElem?_eq_some_iff.1 hs.1).1
      refine ⟨i, s, ⟨?_, ?_⟩, rfl, .same⟩
      · rw [hsnapshots, List.getElem?_append_left hlt, hs.1]
      · rw [current, hgenerations, List.getElem?_append_left (hord.lineage_lt hs.1)]
        exact hs.2
  | @derives k changed store? u next store _ hlive hnext hsnapshots hgenerations =>
      have hu := leads_of_live hlive
      by_cases hl : u.lineage = s.lineage
      · obtain ⟨rfl, rfl⟩ := hord.leads_unique hu hs hl
        have hresult : ∃ n, (w.derive k changed store?).result = .ok n := by
          cases hstore : w.stores[store?.getD u.store]? with
          | some _ =>
              refine ⟨w.snapshots.length, ?_⟩
              simp only [derive, hlive, hstore]
          | none =>
              rw [← hw', perform, derive, hlive] at hsnapshots
              simp [hstore, fail] at hsnapshots
        obtain ⟨n, hn⟩ := hresult
        subst hnext
        exact ⟨w.snapshots.length, _, hord.leads_concat hu hsnapshots hgenerations rfl rfl, rfl,
          .succeeded hlive hn⟩
      · have hlt := (List.getElem?_eq_some_iff.1 hs.1).1
        refine ⟨i, s, ⟨?_, ?_⟩, rfl, .same⟩
        · rw [hsnapshots, List.getElem?_append_left hlt, hs.1]
        · rw [current, hgenerations, List.getElem?_set_ne hl]
          exact hs.2

end Workspace

end Linkage
