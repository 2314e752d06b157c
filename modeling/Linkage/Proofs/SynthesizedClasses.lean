import Linkage.Proofs.ElementChains
import Linkage.Proofs.FrozenTables
import Linkage.Proofs.SynthesizedTargets

/-!
# Classes of a Snapshot's Own

A class that is made visible in a snapshot is taken as it is or not at all. It is refused if the
store defines its type, or if the snapshot has a class of its own for this type that reads
differently; and if it has one that reads alike, there is nothing to do. In all these cases
everything stays as it was. A refusal is reported with the descriptor of the type, so that there is
none if this descriptor never ends.

Once it is taken, it is there for good. A class of the snapshot's own comes before whatever a store
defines, now or later, and is handed on to successors; and the table that is kept for its type can
only be its own, since the table that was kept before is evicted with the arrival of the class.

## Main definitions

* `Snapshot.Adopts`: all that is different in a snapshot that has been given a class.
* `Snapshot.Carries`: the class is there, and no other table is kept for its type.
* `Workspace.Clashes`: a class is a duplicate, or in conflict with another one.

## Main results

* `synthesize_cases`: the four things that can happen.
* `reportOn_eq_iff`, `reportOn_eq_endlessType_iff`: when a refusal is reported.
* `Carries.becomes`, `Carries.after`: no operation and no run takes the class away.
* `synthesize_whole_and_for_good`: all of it together.
-/

namespace Linkage

namespace MemberCache

/-- The counters of a cache after an eviction. -/
theorem stats_invalidate (c : MemberCache) (t : TypeId) :
    (c.invalidate t).stats =
      if c.contains t then
        { c.stats with
          invalidations := c.stats.invalidations + 1
          entries := c.stats.entries - 1 }
      else c.stats := by
  rw [invalidate]
  split
  · next h =>
      rw [contains] at h
      simp only [stats, size, OrderedMap.size_erase, h, if_true]
  · rfl

end MemberCache

namespace Snapshot

variable {s s' : Snapshot} {c : ClassDef}

/-! ### A snapshot with a class -/

/-- **All that is different in a snapshot that has been given a class**: the class is there, and the
table that was kept for its type is gone. -/
structure Adopts (s : Snapshot) (c : ClassDef) (s' : Snapshot) : Prop where
  /-- It is the same snapshot otherwise. -/
  rest : s' = { s with synthesized := s'.synthesized, cache := s'.cache }
  /-- Nothing else is different about its own classes. -/
  own (t : TypeId) : s'.synthesized.get? t = if c.type = t then some c else s.synthesized.get? t
  /-- Nor about the tables it keeps. -/
  kept (t : TypeId) : s'.cache.get? t = if c.type = t then none else s.cache.get? t
  /-- Only a table that was there is counted. -/
  stats : s'.cache.stats =
    if s.cache.contains c.type then
      { s.cache.stats with
        invalidations := s.cache.stats.invalidations + 1
        entries := s.cache.stats.entries - 1 }
    else s.cache.stats

/-- A snapshot with one more class of its own has adopted this class. -/
theorem adopts_extend (s : Snapshot) (c : ClassDef) : s.Adopts c (s.extend c) where
  rest := rfl
  own := s.synthesized.get?_put c
  kept := s.cache.get?_invalidate c.type
  stats := s.cache.stats_invalidate c.type

/-- **A snapshot carries a class**: the class is one of its own, and if a table is kept for the type
it is the table of the class. -/
structure Carries (s : Snapshot) (c : ClassDef) : Prop where
  own : s.synthesized.get? c.type = some c
  kept {table : MemberTable} : s.cache.get? c.type = some table → table = .ofClass c

/-- A snapshot carries the class that it has been given. -/
theorem Adopts.carries (h : s.Adopts c s') : s'.Carries c where
  own := by rw [h.own, if_pos rfl]
  kept := by
    intro table hkept
    rw [h.kept, if_pos rfl] at hkept
    cases hkept

/-- The class is what its type is defined as, whatever the store has. -/
theorem Carries.definition (h : s.Carries c) (store : ClassStore) :
    s.definition store c.type = some c := by
  rw [Snapshot.definition, h.own]
  rfl

/-- And every query finds its table, whatever is obsolete. -/
theorem Carries.table (h : s.Carries c) (store : ClassStore) (marks : Marks)
    (sig? : Option MethodSig) : s.table store marks sig? c.type = .ofClass c := by
  have hbuilt : MemberTable.ofDefinition? (s.definition store c.type) = .ofClass c := by
    rw [h.definition]
    rfl
  cases hkept : s.cache.get? c.type with
  | none => rw [table_of_not_mem hkept, hbuilt]
  | some kept =>
      cases hstale : stale marks sig? kept with
      | true => rw [table_of_stale hkept hstale, hbuilt]
      | false => rw [table_of_get? hkept hstale, h.kept hkept]

end Snapshot

namespace Workspace

variable {w : Workspace} {i : Nat} {s : Snapshot} {store : ClassStore} {c : ClassDef}

/-! ### Taken or refused -/

/-- **What can happen to a class**: it is refused, it is there already, or it is taken. -/
theorem synthesize_cases (hlive : w.live i = .ok (s, store)) (c : ClassDef) :
    (store.contains c.type = true ∧ w.synthesize i c = w.fail (w.duplicate c.type)) ∨
    store.contains c.type = false ∧
      ((∃ d, s.synthesized.get? c.type = some d ∧ d.sameAs c = false ∧
          w.synthesize i c = w.fail (w.conflicting c.type)) ∨
        (∃ d, s.synthesized.get? c.type = some d ∧ d.sameAs c = true ∧
          w.synthesize i c = w.answer ()) ∨
        (s.synthesized.get? c.type = none ∧
          w.synthesize i c = (w.setSnapshot i (s.extend c)).answer ())) := by
  cases hstore : store.contains c.type with
  | true => exact .inl ⟨rfl, by simp only [synthesize, hlive, hstore, if_true]⟩
  | false =>
      refine .inr ⟨rfl, ?_⟩
      cases hown : s.synthesized.get? c.type with
      | none => exact .inr (.inr ⟨rfl, synthesize_of_new hlive hstore hown⟩)
      | some d =>
          cases hsame : d.sameAs c with
          | false =>
              refine .inl ⟨d, rfl, hsame, ?_⟩
              simp only [synthesize, hlive, hstore, hown, hsame, Bool.false_eq_true, if_false]
          | true =>
              refine .inr (.inl ⟨d, rfl, hsame, ?_⟩)
              simp only [synthesize, hlive, hstore, hown, hsame, Bool.false_eq_true, if_false,
                if_true]

/-! ### For good -/

/-- **No operation takes a class away** from the leader of a lineage. -/
theorem Becomes.carries {op : Operation} {s' : Snapshot} (h : w.Becomes i s op s')
    (hs : s.Carries c) : s'.Carries c := by
  cases h with
  | same => exact hs
  | evicted =>
      refine ⟨hs.own, fun hkept => hs.kept ?_⟩
      rw [MemberCache.get?_invalidate] at hkept
      split at hkept
      · cases hkept
      · exact hkept
  | @extended d _ _ _ hnew =>
      -- the type of the class is not new any more
      have hne : d.type ≠ c.type := by
        intro htype
        rw [htype, hs.own] at hnew
        cases hnew
      refine ⟨?_, fun hkept => hs.kept ?_⟩
      · rw [ClassStore.get?_put, if_neg hne, hs.own]
      · rw [MemberCache.get?_invalidate, if_neg hne] at hkept
        exact hkept
  | asked =>
      refine ⟨hs.own, fun hkept => ?_⟩
      rw [Snapshot.get?_afterReads] at hkept
      split at hkept
      · rw [← Option.some.inj hkept, hs.table]
      · exact hs.kept hkept
  | succeeded =>
      refine ⟨hs.own, fun hkept => hs.kept ?_⟩
      rw [MemberCache.get?_invalidateAll, MemberCache.get?_fork] at hkept
      split at hkept
      · cases hkept
      · exact hkept

/-- **No run takes a class away** from a lineage. -/
theorem Leads.carries_after (hs : w.Leads i s) (hord : w.Ordered) (hcarries : s.Carries c)
    (ops : List Operation) :
    ∃ j u, (w.after ops).Leads j u ∧ u.lineage = s.lineage ∧ u.Carries c := by
  induction ops generalizing w i s with
  | nil => exact ⟨i, s, hs, rfl, hcarries⟩
  | cons op ops ih =>
      obtain ⟨j, u, hu, hlineage, hbecomes⟩ := hord.becomes hs op
      obtain ⟨k, v, hv, hlineage', hcarries'⟩ :=
        ih hu (hord.step (w.step_perform op)) (hbecomes.carries hcarries)
      exact ⟨k, v, hv, hlineage'.trans hlineage, hcarries'⟩

/-- A snapshot that carries a class answers for its type from this class. -/
theorem result_of_carries (hlive : w.live i = .ok (s, store)) (hcarries : s.Carries c) :
    (w.ask i (.definition c.type)).result = .ok (.definition (some c)) ∧
      (w.ask i (.members c.type)).result = .ok (.members (.ofClass c)) := by
  constructor
  · rw [result_ask hlive, ← hcarries.definition store]
    rfl
  · rw [result_members hlive, hcarries.table]

/-! ### The verdicts -/

/-- **A report comes about** exactly if the descriptor that it needs is written, and with this
descriptor. -/
theorem reportOn_eq_iff {t : TypeId} {report : TypeId → String → Failure} {text : String}
    (hinj : ∀ other, report t other = report t text → other = text)
    (hends : report t text ≠ .endlessType) :
    w.reportOn t report = report t text ↔ w.types.WritesDescriptor t text := by
  rw [TypeTable.writesDescriptor_iff, reportOn]
  cases w.types.descriptor? t with
  | none => simp [hends.symm]
  | some other =>
      rw [Option.some.injEq]
      exact ⟨hinj other, congrArg (report t)⟩

/-- And breaks off exactly if it is never written to its end. -/
theorem reportOn_eq_endlessType_iff {t : TypeId} {report : TypeId → String → Failure}
    (hends : ∀ text, report t text ≠ .endlessType) :
    w.reportOn t report = .endlessType ↔ ¬ w.types.Ends t := by
  rw [← TypeTable.exists_writesDescriptor_iff]
  simp only [TypeTable.writesDescriptor_iff, ← Option.isSome_iff_exists,
    Option.not_isSome_iff_eq_none]
  rw [reportOn]
  cases w.types.descriptor? t with
  | none => simp
  | some text => simp [hends text]

/-- One kind of report is not another one. -/
theorem reportOn_ne {t : TypeId} {report : TypeId → String → Failure} {e : Failure}
    (hreport : ∀ text, report t text ≠ e) (hends : e ≠ .endlessType) : w.reportOn t report ≠ e := by
  rw [reportOn]
  split
  · exact hreport _
  · exact hends.symm

/-- A class is a duplicate, or in conflict with another one. -/
def Clashes (s : Snapshot) (store : ClassStore) (c : ClassDef) : Prop :=
  (∃ d, store.get? c.type = some d) ∨ ∃ d, s.synthesized.get? c.type = some d ∧ d.sameAs c = false

/-- Which verdict is given, and what it leaves. -/
theorem synthesize_verdict (hlive : w.live i = .ok (s, store)) (c : ClassDef) :
    (∀ text, (w.synthesize i c).result = .error (.duplicateClass c.type text) ↔
      (∃ d, store.get? c.type = some d) ∧ w.types.WritesDescriptor c.type text) ∧
    (∀ text, (w.synthesize i c).result = .error (.conflictingClass c.type text) ↔
      (store.get? c.type = none ∧ ∃ d, s.synthesized.get? c.type = some d ∧ d.sameAs c = false) ∧
        w.types.WritesDescriptor c.type text) ∧
    ((w.synthesize i c).result = .error .endlessType ↔
      Clashes s store c ∧ ¬ w.types.Ends c.type) ∧
    ((w.synthesize i c).result = .ok () ↔
      store.get? c.type = none ∧ ∀ d, s.synthesized.get? c.type = some d → d.sameAs c = true) ∧
    (∀ e, (w.synthesize i c).result = .error e → w.synthesize i c = w.fail e) ∧
    ((∃ d, s.synthesized.get? c.type = some d) → (w.synthesize i c).result = .ok () →
      w.synthesize i c = w.answer ()) := by
  have hdefined : store.contains c.type = (store.get? c.type).isSome := store.contains_eq c.type
  have hduplicate (text : String) := @reportOn_eq_iff w c.type .duplicateClass text
    (fun _ heq => (Failure.duplicateClass.inj heq).2) (by simp)
  have hconflict (text : String) := @reportOn_eq_iff w c.type .conflictingClass text
    (fun _ heq => (Failure.conflictingClass.inj heq).2) (by simp)
  rcases synthesize_cases hlive c with
    ⟨hstore, heq⟩ | ⟨hstore, ⟨d, hown, hsame, heq⟩ | ⟨d, hown, hsame, heq⟩ | ⟨hown, heq⟩⟩
  all_goals rw [heq]
  · obtain ⟨d, hd⟩ := Option.isSome_iff_exists.1 (hdefined.symm.trans hstore)
    have hends := @reportOn_eq_endlessType_iff w c.type .duplicateClass (by simp)
    have hother (text : String) := @reportOn_ne w c.type .duplicateClass
      (.conflictingClass c.type text) (by simp) (by simp)
    simp [fail, duplicate, Clashes, hd, hduplicate, hends, hother]
  · have hnone := Option.isNone_iff_eq_none.1 (by simpa [hdefined] using hstore)
    have hends := @reportOn_eq_endlessType_iff w c.type .conflictingClass (by simp)
    have hother (text : String) := @reportOn_ne w c.type .conflictingClass
      (.duplicateClass c.type text) (by simp) (by simp)
    simp [fail, conflicting, Clashes, hnone, hown, hsame, hconflict, hends, hother]
  · have hnone := Option.isNone_iff_eq_none.1 (by simpa [hdefined] using hstore)
    simp [answer, Clashes, hnone, hown, hsame]
  · have hnone := Option.isNone_iff_eq_none.1 (by simpa [hdefined] using hstore)
    simp [answer, Clashes, hnone, hown]

/-- **A class of a snapshot's own is taken whole or not at all, and for good.**

It is refused as a duplicate exactly if the store of the snapshot defines its type, and otherwise
as conflicting exactly if the snapshot has a class of its own for the type that reads differently,
where obsolete methods read like others. Either report names the type by its descriptor, and so it
takes that this descriptor is written to its end; if it is not, no verdict is given. In all these
cases nothing changes, and neither does anything for a class that reads like the one that is there.

When it is taken, nothing else becomes different in the snapshot, and nothing outside it. From then
on, after any run of operations, there is one live snapshot of the lineage, this one or a successor;
it defines the type as this very class and returns its very table when it is asked for the members,
and every query that it answers finds this table. -/
theorem synthesize_whole_and_for_good (h : w.Reachable) (hlive : w.live i = .ok (s, store))
    (c : ClassDef) :
    (∀ text, (w.synthesize i c).result = .error (.duplicateClass c.type text) ↔
      (∃ d, store.get? c.type = some d) ∧ w.types.WritesDescriptor c.type text) ∧
    (∀ text, (w.synthesize i c).result = .error (.conflictingClass c.type text) ↔
      (store.get? c.type = none ∧ ∃ d, s.synthesized.get? c.type = some d ∧ d.sameAs c = false) ∧
        w.types.WritesDescriptor c.type text) ∧
    (w.types.Ends c.type ↔ ∃ text, w.types.WritesDescriptor c.type text) ∧
    ((w.synthesize i c).result = .error .endlessType ↔
      Clashes s store c ∧ ¬ w.types.Ends c.type) ∧
    ((w.synthesize i c).result = .ok () ↔
      store.get? c.type = none ∧ ∀ d, s.synthesized.get? c.type = some d → d.sameAs c = true) ∧
    (∀ e, (w.synthesize i c).result = .error e → w.synthesize i c = w.fail e) ∧
    ((∃ d, s.synthesized.get? c.type = some d) → (w.synthesize i c).result = .ok () →
      w.synthesize i c = w.answer ()) ∧
    (s.synthesized.get? c.type = none → (w.synthesize i c).result = .ok () →
      (∃ s', s.Adopts c s' ∧ w.synthesize i c = (w.setSnapshot i s').answer ()) ∧
      ∀ ops w', (w.synthesize i c).workspace.after ops = w' →
        (∃ j u store, w'.live j = .ok (u, store) ∧ u.lineage = s.lineage) ∧
        ∀ j u store, w'.live j = .ok (u, store) → u.lineage = s.lineage →
          (w'.ask j (.definition c.type)).result = .ok (.definition (some c)) ∧
          (w'.ask j (.members c.type)).result = .ok (.members (.ofClass c)) ∧
          ∀ q : Query, (u.view w'.types store w'.marks q.sig?).definition c.type = some c ∧
            (u.view w'.types store w'.marks q.sig?).table c.type = .ofClass c) := by
  obtain ⟨hduplicate, hconflict, hendless, hok, herror, hknown⟩ := synthesize_verdict hlive c
  refine ⟨hduplicate, hconflict, TypeTable.exists_writesDescriptor_iff.symm, hendless, hok, herror,
    hknown, fun hown hresult => ?_⟩
  have hstore : store.contains c.type = false := by
    rw [store.contains_eq, (hok.1 hresult).1]
    rfl
  have hadopts := s.adopts_extend c
  have heq : w.synthesize i c = (w.setSnapshot i (s.extend c)).answer () :=
    synthesize_of_new hlive hstore hown
  refine ⟨⟨s.extend c, hadopts, heq⟩, ?_⟩
  rintro ops w' rfl
  have hreachable := h.perform (.synthesize i c)
  have hlead : (w.synthesize i c).workspace.Leads i (s.extend c) := by
    rw [heq]
    exact leads_of_live (live_setSnapshot hlive _ rfl rfl rfl)
  have hord := ordered_of_reachable hreachable
  obtain ⟨j, u, hu, hlineage, hcarries⟩ := hlead.carries_after hord hadopts.carries ops
  obtain ⟨store', hlive'⟩ := ((stored_of_reachable hreachable).after ops).live hu
  refine ⟨⟨j, u, store', hlive', hlineage⟩, fun k v store hlive'' hlineage' => ?_⟩
  obtain ⟨rfl, rfl⟩ := (hord.after ops).leads_unique hu (leads_of_live hlive'')
    (hlineage.trans hlineage'.symm)
  obtain ⟨hdefinition, hmembers⟩ := result_of_carries hlive'' hcarries
  exact ⟨hdefinition, hmembers, fun q => ⟨hcarries.definition store, hcarries.table store _ _⟩⟩

/-! ### A class that a store defines later -/

/-- A workspace whose snapshot keeps an empty table for a type that is not defined yet. -/
def awaiting : Workspace := (fresh (.freshWith SymbolTable.byteSum) false).after
  [.openStore [], .openSnapshot 0 {}, .ask 0 (.members replacedRef.holder)]

/-- The class is taken, and stays when the store comes to define its type and a successor is
derived over it. -/
theorem members_awaited :
    awaiting.Reachable ∧
    (awaiting.ask 0 (.members replacedRef.holder)).result = .ok (.members .empty) ∧
    (awaiting.synthesize 0 (replacedClass 0)).result = .ok () ∧
    (((awaiting.synthesize 0 (replacedClass 0)).workspace.after
      [.replaceClass 0 (replacedClass 1), .derive 0 [] none]).ask 1
        (.members replacedRef.holder)).result = .ok (.members (.ofClass (replacedClass 0))) := by
  have hreachable : awaiting.Reachable := ⟨_, _, _, rfl⟩
  obtain ⟨-, -, -, -, hok, -, -, hfirst⟩ :=
    synthesize_whole_and_for_good hreachable (i := 0) rfl (replacedClass 0)
  have hresult := hok.2 ⟨rfl, nofun⟩
  obtain ⟨-, hlasting⟩ := hfirst rfl hresult
  obtain ⟨-, hlive⟩ := hlasting [.replaceClass 0 (replacedClass 1), .derive 0 [] none] _ rfl
  have hanswers := hlive 1 _ _ rfl
  exact ⟨hreachable, rfl, hresult, (hanswers rfl).2.1⟩

/-! ### A class whose type is its own element -/

/-- A class without members for an array type. -/
def ownElementClass : ClassDef := .ofClass ⟨13⟩ (some .object)

/-- An array type is asked for over the next free number, so that it is its own element, and a store
defines a class for it. -/
def clashing : Workspace := (fresh (.freshWith SymbolTable.byteSum) false).after
  [.intern (.arrayOf ⟨13⟩), .openStore [ownElementClass], .openSnapshot 0 {}]

/-- **Not every class of the store's is refused as a duplicate**: the descriptor that the report
names the type by is never written to its end. -/
theorem synthesize_clashing :
    clashing.Reachable ∧
    ∃ s store, clashing.live 0 = .ok (s, store) ∧ store.get? ⟨13⟩ = some ownElementClass ∧
      ∀ t text,
        (clashing.synthesize 0 ownElementClass).result ≠ .error (.duplicateClass t text) := by
  have hresult : (clashing.synthesize 0 ownElementClass).result = .error .endlessType := by
    decide +kernel
  refine ⟨⟨_, _, _, rfl⟩, _, _, rfl, rfl, fun t text heq => ?_⟩
  rw [hresult] at heq
  cases heq

end Workspace

end Linkage
