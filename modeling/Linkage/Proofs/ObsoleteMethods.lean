import Linkage.Proofs.CacheRefinement
import Linkage.Proofs.Locality
import Linkage.Proofs.Provenance

/-!
# Obsolete Methods

A method object may be marked obsolete at any time, when a newer definition of its class was
published, and nobody need have told the snapshots. A look-up that comes upon a marked method in a
kept table does not trust the table and reads the definition again. This module shows that this one
check is enough: a method that a query returns is not marked, or it is what the definition has now.

Nothing is assumed of the stores and caches. Tables may be out of date, may have been built by a
predecessor over another store, and may hold marked methods under any number of signatures.

## Main definitions

* `Query.site?`: the type on which an answer has its method.

## Main results

* `Snapshot.unmarked_or_current`: what a table of a query holds under its signature.
* `yields_of_run`: a method that is returned was found on a type by look-up, and on which.
* `ask_current`: what a query returns is not marked, or current.
-/

namespace Linkage

namespace Snapshot

/-- **A look-up finds no superseded method.** In the tables that a query reads, a method under the
query's signature is not marked, or it is the one that the type's definition declares now. -/
theorem unmarked_or_current {s : Snapshot} {store : ClassStore} {marks : Marks} {sig : MethodSig}
    {t : TypeId} {m : Method} (h : (s.table store marks (some sig) t).method? sig = some m) :
    marks.has m = false ∨ (s.definition store t).bind (·.method? sig) = some m := by
  have hbuilt : (MemberTable.ofDefinition? (s.definition store t)).method? sig =
      (s.definition store t).bind (·.method? sig) := by
    cases s.definition store t with
    | none => rfl
    | some c => exact MemberTable.method?_ofClass c sig
  cases hkept : s.cache.get? t with
  | none =>
      rw [table_of_not_mem hkept, hbuilt] at h
      exact .inr h
  | some kept =>
      cases hstale : stale marks (some sig) kept with
      | true =>
          rw [table_of_stale hkept hstale, hbuilt] at h
          exact .inr h
      | false =>
          rw [table_of_get? hkept hstale] at h
          refine .inl (Bool.eq_false_iff.2 fun hmarked => Bool.eq_false_iff.1 hstale ?_)
          exact stale_eq_true_iff.2 ⟨sig, m, rfl, h, hmarked⟩

/-- What a look-up finds in a snapshot is not marked, or its type supplies it now. -/
theorem unmarked_or_supplies {s : Snapshot} {types : TypeTable} {store : ClassStore} {marks : Marks}
    {sig : MethodSig} {t : TypeId} {m : Method}
    (h : (s.view types store marks (some sig)).Yields t sig m) :
    marks.has m = false ∨ (s.uncachedView types store).Supplies t sig m := by
  rcases h with hfound | hpolymorphic
  · refine (unmarked_or_current hfound).imp_right fun hdeclared => .inl ?_
    exact Option.bind_eq_some_iff.1 hdeclared
  · -- a signature-polymorphic method is looked for in the definition itself
    exact .inr (.inr hpolymorphic)

end Snapshot

namespace Answer

/-- A target answers with its method. -/
@[simp] theorem mem_methods_target {target? : Option (TypeId × Method)} {m : Method} :
    m ∈ (target target?).methods ↔ ∃ t, target? = some (t, m) := by
  simp [methods]

/-- A look-up answers with the method that it found. -/
@[simp] theorem mem_methods_method {m? : Option Method} {m : Method} :
    m ∈ (method m?).methods ↔ m? = some m := by
  simp [methods]

end Answer

namespace Query

/-- The type on which an answer has its method: the one that the answer names, or else the one that
was asked about. Of methods that are out of reach or in conflict it is not said. -/
def site? (q : Query) : Answer → Option TypeId
  | .resolution r => r.resolvedHolder?
  | .target t => t.map Prod.fst
  | .method _ => q.named.head?
  | _ => none

end Query

namespace View

variable {v : View} {sig : MethodSig}

/-- The methods of a justified outcome were found by look-ups. -/
theorem Justified.yields {start : TypeId} {r : Resolution} (h : v.Justified start sig r)
    {m : Method} (hm : m ∈ r.methods) :
    ∃ t, (∀ u, r.resolvedHolder? = some u → u = t) ∧ v.Yields t sig m := by
  cases r with
  | single i t n =>
      obtain rfl := List.mem_singleton.1 hm
      exact ⟨t, fun u hu => (Option.some.inj hu).symm, h.2.2.1⟩
  | illegalAccess n =>
      obtain rfl := List.mem_singleton.1 hm
      obtain ⟨-, t, -, -, -, -, -, hfound⟩ := h
      exact ⟨t, fun u hu => (nomatch hu), .inl hfound⟩
  | incompatibleClass ms =>
      rcases h with rfl | ⟨offers, rfl, -, -, hoffers⟩
      · exact absurd hm List.not_mem_nil
      · obtain ⟨o, ho, rfl⟩ := List.mem_map.1 hm
        exact ⟨o.1, fun u hu => (nomatch hu), .inl (hoffers o ho).2.2.1⟩
  | classNotFound => exact absurd hm List.not_mem_nil
  | noSuchMethod => exact absurd hm List.not_mem_nil
  | arrayClone => exact absurd hm List.not_mem_nil

/-- What is chosen among the superinterfaces was found in the table of one of them. -/
theorem yields_of_target? (htyped : v.Typed) {c : ClassDef} {t : TypeId} {m : Method}
    (h : (Candidates.empty.collectFromClass v sig c).value.target? = some (t, m)) :
    v.Yields t sig m :=
  .inl (Candidates.of_mem_offers htyped (Candidates.mem_offers_of_target? h)).2

/-- The target that a type inherits is a method of the type where it was found. -/
theorem yields_of_inheritedTarget (htyped : v.Typed) {t u : TypeId} {m : Method}
    (h : (v.inheritedTarget t sig).value = some (u, m)) : v.Yields u sig m := by
  rw [inheritedTarget] at h
  split at h
  · cases h
  · exact yields_of_target? htyped h

/-- The target of a lambda is a method of the type where it was found. -/
theorem yields_of_lambdaTarget (htyped : v.Typed) {interfaces : List TypeId} {u : TypeId}
    {m : Method} (h : (v.lambdaTarget interfaces sig).value = some (u, m)) : v.Yields u sig m := by
  let c : ClassDef :=
    { ClassDef.ofClass v.wellKnown.object (some v.wellKnown.object) with interfaces := interfaces }
  exact yields_of_target? (c := c) htyped h

/-- A method found on the type itself is one of its methods. -/
theorem yields_of_directOnItself {ref : MethodRef} {context : TypeId} {m : Method}
    (h : (v.directOnItself ref context).value = some m) : v.Yields context ref.sig m := by
  rw [directOnItself] at h
  split at h
  · split at h
    · split at h
      · exact .inl (Option.filter_eq_some_iff.1 h).1
      · cases h
    · cases h
  · cases h

/-- **Every method that is returned was found by a look-up** on some type; and if the answer or the
query says on which, it was this one. -/
theorem yields_of_run (htyped : v.Typed) {q : Query} {a : Answer} (hsig : q.sig? = some sig)
    (h : (q.run v).value = .ok a) {m : Method} (hm : m ∈ a.methods) :
    ∃ t, (∀ u, q.site? a = some u → u = t) ∧ v.Yields t sig m := by
  have hresolved {holder : TypeId} {w : Walk (Except WalkFault Resolution)}
      (hholder : q.resolvedOn? = some holder) (hw : q.run v = Answer.ofResolution <$> w) :
      ∃ t, (∀ u, q.site? a = some u → u = t) ∧ v.Yields t sig m := by
    obtain ⟨r, rfl⟩ : ∃ r, a = .resolution r := by
      rw [hw, Walk.value_map] at h
      cases hvalue : w.value with
      | error e =>
          rw [hvalue] at h
          cases h
      | ok r =>
          rw [hvalue] at h
          exact ⟨r, (Except.ok.inj h).symm⟩
    exact (justified_of_run htyped hholder hsig h).yields hm
  cases q <;> simp only [Query.sig?, reduceCtorEq, Option.some.injEq] at hsig <;> subst hsig
  case resolveOnClass => exact hresolved rfl rfl
  case resolveOnInterface => exact hresolved rfl rfl
  case resolve => exact hresolved rfl rfl
  case resolveStructural => exact hresolved rfl rfl
  case inheritedTarget t =>
    cases h
    obtain ⟨u, hu⟩ := Answer.mem_methods_target.1 hm
    refine ⟨u, fun w hw => ?_, yields_of_inheritedTarget htyped hu⟩
    exact Option.some.inj (hw.symm.trans (congrArg (Option.map Prod.fst) hu))
  case lambdaTarget interfaces =>
    cases h
    obtain ⟨u, hu⟩ := Answer.mem_methods_target.1 hm
    refine ⟨u, fun w hw => ?_, yields_of_lambdaTarget htyped hu⟩
    exact Option.some.inj (hw.symm.trans (congrArg (Option.map Prod.fst) hu))
  case staticTarget ref context =>
    cases h
    have hfound := Answer.mem_methods_method.1 hm
    refine ⟨context, fun w hw => (Option.some.inj hw).symm, yields_of_directOnItself ?_⟩
    exact (Option.filter_eq_some_iff.1 hfound).1
  case directTarget ref context =>
    cases h
    have hfound := Answer.mem_methods_method.1 hm
    refine ⟨context, fun w hw => (Option.some.inj hw).symm, yields_of_directOnItself ?_⟩
    exact (Option.filter_eq_some_iff.1 hfound).1
  case method ref =>
    cases h
    exact ⟨ref.holder, fun w hw => (Option.some.inj hw).symm, .inl (Answer.mem_methods_method.1 hm)⟩

end View

namespace Workspace

/-- **Superseded methods do not escape.** Whatever state the stores and caches are in, every method
that a query returns was found on some type, the one that the answer or the query names if they name
one; and it is not marked obsolete, or that type's definition, as it is now, supplies it for the
query's signature. The same holds of every look-up in the course of the query, whatever was read and
evicted before. -/
theorem ask_current {w : Workspace} {i : Nat} {q : Query} {sig : MethodSig} {a : Answer}
    (hsig : q.sig? = some sig) (h : (w.ask i q).result = .ok a) :
    ∃ s store, w.live i = .ok (s, store) ∧
      (∀ m ∈ a.methods, ∃ t, (∀ u, q.site? a = some u → u = t) ∧
        (s.view w.types store w.marks q.sig?).Yields t sig m ∧
        (w.marks.has m = false ∨ (s.uncachedView w.types store).Supplies t sig m)) ∧
      ∀ reads t m, ((s.afterReads store w.marks q.sig? reads).cache.readFresh (s.definition store)
          (Snapshot.stale w.marks q.sig?) t).1.method? sig = some m →
        w.marks.has m = false ∨ (s.definition store t).bind (·.method? sig) = some m := by
  cases hlive : w.live i with
  | error e =>
      rw [ask, hlive] at h
      cases h
  | ok p =>
      obtain ⟨s, store⟩ := p
      refine ⟨s, store, rfl, ?_, ?_⟩
      · intro m hm
        rw [result_ask hlive] at h
        have hvalue : (q.run (s.view w.types store w.marks q.sig?)).value = .ok a := by
          cases hrun : (q.run (s.view w.types store w.marks q.sig?)).value with
          | error e =>
              rw [hrun] at h
              cases h
          | ok b =>
              rw [hrun] at h
              cases h
              rfl
        obtain ⟨t, hsite, hm⟩ := View.yields_of_run (s.typed_view _ _ _ _) hsig hvalue hm
        exact ⟨t, hsite, hm, Snapshot.unmarked_or_supplies (hsig ▸ hm)⟩
      · intro reads t m hread
        rw [Snapshot.table_read_afterReads, hsig] at hread
        exact Snapshot.unmarked_or_current hread

/-- The method that replaces the old one. -/
def replacement : Method := ⟨⟨1⟩, replacedRef.holder, replacedRef.sig, .publicFlag, none⟩

/-- A workspace where a class was replaced and the old method marked, and no snapshot was told. -/
def untold : Workspace :=
  (fresh (.freshWith SymbolTable.byteSum) false).after replacementRun.dropLast

/-- The snapshot keeps the old table, and returns the new method all the same. -/
theorem ask_untold :
    (untold.ask 0 (.method replacedRef)).result = .ok (.method (some replacement)) ∧
    ∃ s store, untold.live 0 = .ok (s, store) ∧
      s.cache.get? replacedRef.holder = some (.ofClass (replacedClass 0)) ∧
      (untold.marks.has replacement = false ∨
        (s.uncachedView untold.types store).Supplies replacedRef.holder replacedRef.sig
          replacement) := by
  have hresult : (untold.ask 0 (.method replacedRef)).result = .ok (.method (some replacement)) :=
    rfl
  obtain ⟨s, store, hlive, hmethods, -⟩ := ask_current rfl hresult
  obtain ⟨t, hsite, -, hcurrent⟩ := hmethods replacement (List.mem_singleton_self _)
  obtain rfl : replacedRef.holder = t := hsite _ rfl
  refine ⟨hresult, s, store, hlive, ?_, hcurrent⟩
  cases hlive
  rfl

end Workspace

end Linkage
