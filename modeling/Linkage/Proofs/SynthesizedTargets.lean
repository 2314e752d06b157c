import Linkage.Proofs.CacheRefinement
import Linkage.Proofs.ClassResolution
import Linkage.Proofs.LinkCount
import Linkage.Proofs.Locality
import Linkage.Proofs.LostDefaults

/-!
# Targets of Classes to Come

A lambda is desugared into a class that extends the root class and implements some interfaces. What
this class would inherit is asked before it exists, and what is answered must be what it does
inherit once it is made visible in the snapshot.

This holds because the class is looked at by nobody else. It is new, so nothing above the interfaces
or the root class names it, and the search goes through the same types before and after. And the
table that was kept for the class while it had no definition, if there was one, is evicted.

The one thing that can come between the target and a reference to the class is the climb along the
superclasses of the root class, which under the largest bound breaks off if they never end.

## Main definitions

* `Snapshot.extend`: a snapshot with one more class of its own.

## Main results

* `agree_extend`: a class that nothing names changes nothing for others.
* `inheritedTarget_eq_lambdaTarget`: the two look-ups agree.
* `resolveInherited_eq_single_iff`, `resolveInherited_eq_failed_iff`: the two forms of the result.
* `lambdaTarget_synthesized`: what is asked before is what the class has after.
* `lambdaTarget_endless`: a root class that extends itself, and a reference that breaks off.
-/

namespace Linkage

namespace Snapshot

variable {s : Snapshot} {store : ClassStore}

/-- A snapshot with one more class of its own. -/
def extend (s : Snapshot) (c : ClassDef) : Snapshot :=
  { s with synthesized := s.synthesized.put c, cache := s.cache.invalidate c.type }

/-- The definitions of a snapshot with one more class. -/
theorem definition_extend (s : Snapshot) (store : ClassStore) (c : ClassDef) (t : TypeId) :
    (s.extend c).definition store t = if c.type = t then some c else s.definition store t := by
  rw [definition, extend, ClassStore.get?_put]
  split <;> rfl

/-- The new class evicts the table that its type had without it. -/
theorem UpToDate.extend (h : s.UpToDate store) (c : ClassDef) : (s.extend c).UpToDate store := by
  intro t table hkept
  rw [Snapshot.extend, MemberCache.get?_invalidate] at hkept
  split at hkept
  · cases hkept
  · next hne =>
      rw [definition_extend, if_neg hne]
      exact h hkept

/-- Without a cache definitions are found under their own types, with their own tables. -/
theorem coherent_uncachedView (s : Snapshot) (types : TypeTable) (store : ClassStore) :
    (s.uncachedView types store).Coherent where
  typed := fun h => s.typed_view types store .empty none h
  table_eq _ := rfl

/-- **A class that nothing names** changes nothing for what is above some types. -/
theorem agree_extend {types : TypeTable} {roots : List TypeId} {c : ClassDef}
    (hnew : ¬ (s.uncachedView types store).Above roots c.type) :
    (s.uncachedView types store).Agree ((s.extend c).uncachedView types store)
      ((s.uncachedView types store).Above roots) := by
  have hsame : ∀ {t}, (s.uncachedView types store).Above roots t →
      (s.extend c).definition store t = s.definition store t := by
    intro t ht
    rw [definition_extend, if_neg]
    rintro rfl
    exact hnew ht
  exact
    { types := rfl
      maxDepth := rfl
      closed := View.Above.step
      definition := hsame
      table := fun ht => congrArg MemberTable.ofDefinition? (hsame ht) }

end Snapshot

namespace View

variable {v w : View} {P : TypeId → Prop} {c : ClassDef} {sig : MethodSig}

/-- The superclass chain on a part of the hierarchy. -/
theorem Agree.superclasses_congr (h : Agree v w P) (n : Nat) {s : Option TypeId}
    (hs : ∀ t, s = some t → P t) : w.superclasses n s = v.superclasses n s := by
  induction n generalizing s with
  | zero => rfl
  | succ n ih =>
      have hdefinition : s.bind w.definition = s.bind v.definition :=
        Option.bind_congr fun t ht => h.definition (hs t ht)
      cases hd : s.bind v.definition with
      | none => rw [superclasses_undefined hd, superclasses_undefined (hdefinition.trans hd)]
      | some d =>
          obtain ⟨t, ht, hdt⟩ := Option.bind_eq_some_iff.1 hd
          rw [superclasses_succ hd, superclasses_succ (hdefinition.trans hd),
            ih fun u hu => h.mem_superType (hs t ht) hdt hu]

/-- Whether a class has anything is told from the class and the types. -/
theorem Agree.hasNothing_iff (h : Agree v w P) : w.HasNothing sig c ↔ v.HasNothing sig c := by
  simp only [HasNothing, ← polymorphic?_eq_none_iff, h.polymorphic?]

/-! ### The two look-ups, and the two forms of the result -/

/-- **What a class is said to inherit before it exists is what it inherits**, if the hierarchy above
it stays as it is. -/
theorem inheritedTarget_eq_lambdaTarget (h : Agree v w P) (hobject : P v.wellKnown.object)
    (hinterfaces : ∀ i ∈ c.interfaces, P i) (hc : w.definition c.type = some c)
    (hsuper : c.superType = some v.wellKnown.object) :
    w.inheritedTarget c.type sig = v.lambdaTarget c.interfaces sig := by
  have hsuper' : c.superType = some w.wellKnown.object := by rw [hsuper, h.wellKnown]
  rw [inheritedTarget, hc, ← h.lambdaTarget_congr hobject hinterfaces, lambdaTarget_eq hsuper']

/-- The choice among the superinterfaces, as an outcome and as a target. -/
theorem resolveInherited_eq_single_iff (hc : v.definition c.type = some c) {t : TypeId}
    {m : Method} : (v.resolveInherited c sig).value = .single c.type t m ↔
      (v.inheritedTarget c.type sig).value = some (t, m) := by
  rw [resolveInherited, inheritedTarget, hc]
  exact Candidates.resolve_eq_single_iff.trans (and_iff_right rfl)

/-- There is no target if nothing is inherited, or if methods compete. -/
theorem resolveInherited_eq_failed_iff (hc : v.definition c.type = some c) :
    ((v.resolveInherited c sig).value = .noSuchMethod ∨
      ∃ ms, ms ≠ [] ∧ (v.resolveInherited c sig).value = .incompatibleClass ms) ↔
      (v.inheritedTarget c.type sig).value = none := by
  rw [resolveInherited, inheritedTarget, hc]
  exact (Candidates.target?_eq_none_iff c.type).symm

/-- **A class without a method of its own** or of its superclasses resolves a reference to its
target, and fails if it has none. -/
theorem resolveOnClass_of_hasNothing (hcoherent : v.Coherent) (harray : v.isArray c.type = false)
    (hc : v.definition c.type = some c) (hclass : c.isInterface = false)
    (hnothing : ∀ d ∈ c :: v.superclasses v.bound c.superType, v.HasNothing sig d) :
    ((v.superclasses (v.bound + 1) c.superType).length ≤ maxLinks →
      ∃ a, (v.resolveOnClass c.type sig).value = .ok a ∧
        (∀ t m, a = .single c.type t m ↔ (v.inheritedTarget c.type sig).value = some (t, m)) ∧
        ((a = .noSuchMethod ∨ ∃ ms, ms ≠ [] ∧ a = .incompatibleClass ms) ↔
          (v.inheritedTarget c.type sig).value = none)) ∧
    (maxLinks < (v.superclasses (v.bound + 1) c.superType).length →
      (v.resolveOnClass c.type sig).value = .error .linkOverflow) := by
  rw [value_resolveOnClass_of_hasNothing hcoherent harray hc hclass hnothing]
  constructor
  · intro hcount
    rw [if_neg (Nat.not_lt.2 hcount)]
    exact ⟨_, rfl, fun t m => resolveInherited_eq_single_iff hc, resolveInherited_eq_failed_iff hc⟩
  · exact fun hcount => if_pos hcount

end View

namespace Workspace

/-- A live snapshot with an up-to-date cache answers as if it had none. -/
theorem result_ask_of_upToDate {w : Workspace} {i : Nat} {s : Snapshot} {store : ClassStore}
    (hlive : w.live i = .ok (s, store)) (hcache : s.UpToDate store) (q : Query) :
    (w.ask i q).result = Failure.ofWalk (q.run (s.uncachedView w.types store)).value := by
  rw [result_ask hlive, hcache.view_eq]

/-- A class for a type without a definition is taken, and changes the snapshot only. -/
theorem synthesize_of_undefined {w : Workspace} {i : Nat} {s : Snapshot} {store : ClassStore}
    {c : ClassDef} (hlive : w.live i = .ok (s, store)) (hnew : s.definition store c.type = none) :
    w.synthesize i c = (w.setSnapshot i (s.extend c)).answer () := by
  rw [Snapshot.definition, Option.orElse_eq_or, Option.or_eq_none_iff] at hnew
  have hstore : store.contains c.type = false := by
    rw [ClassStore.contains_eq, hnew.2]
    rfl
  exact synthesize_of_new hlive hstore hnew.1

/-- After a query a new class can be added, and then the snapshot answers with this class. -/
theorem result_ask_of_synthesized {w : Workspace} {i : Nat} {s : Snapshot} {store : ClassStore}
    {c : ClassDef} (hlive : w.live i = .ok (s, store)) (hcache : s.UpToDate store)
    (hnew : s.definition store c.type = none) (p : Query) :
    ((w.ask i p).workspace.synthesize i c).result = .ok () ∧
      ∀ q, (((w.ask i p).workspace.synthesize i c).workspace.ask i q).result =
        Failure.ofWalk (q.run ((s.extend c).uncachedView w.types store)).value := by
  have hasked := live_ask hlive p
  rw [synthesize_of_undefined hasked hnew, answer]
  refine ⟨rfl, fun q => ?_⟩
  have hadded := live_setSnapshot hasked ((s.afterReads store w.marks p.sig?
    (p.run (s.view w.types store w.marks p.sig?)).reads).extend c) rfl rfl rfl
  rw [result_ask_of_upToDate hadded ((hcache.afterReads _ _ _).extend c), setSnapshot, types_ask]
  rfl

/-- **The target of a lambda is what its class inherits.** A live snapshot, whose cache is up to
date, is asked for the target of a lambda with some interfaces. Then a class is made visible that
extends the root class, implements these interfaces and declares no methods, and whose type is not
an array type, has no definition, and is named nowhere above the interfaces or the root class. This
succeeds, and the class inherits what was answered.

If besides no class above it has anything for the signature, a reference to the class resolves to
this target, and if there is none fails for want of a method or because several compete. (Under the
largest bound the root class may come to have more superclass links above it than can be counted, if
they never end; then the climb breaks off.) -/
theorem lambdaTarget_synthesized {w : Workspace} {i : Nat} {s : Snapshot} {store : ClassStore}
    {v : View} {c : ClassDef} {sig : MethodSig} {asked : Outcome Answer} {added : Outcome Unit}
    (hlive : w.live i = .ok (s, store)) (hcache : s.UpToDate store)
    (hv : s.uncachedView w.types store = v)
    (hasked : w.ask i (.lambdaTarget c.interfaces sig) = asked)
    (hadded : asked.workspace.synthesize i c = added)
    (hsuper : c.superType = some v.wellKnown.object) (hclass : c.isInterface = false)
    (hmethods : c.methods = []) (harray : v.isArray c.type = false)
    (hobject : c.type ≠ v.wellKnown.object) (hnew : v.definition c.type = none)
    (hlisted : c.type ∉ c.interfaces)
    (hnamed : ∀ t d, v.Above (v.wellKnown.object :: c.interfaces) t → v.definition t = some d →
      c.type ∉ d.supertypes) :
    ∃ r, asked.result = .ok (.target r) ∧ added.result = .ok () ∧
      (added.workspace.ask i (.inheritedTarget c.type sig)).result = .ok (.target r) ∧
      ((∀ d ∈ v.superclasses v.bound c.superType, v.HasNothing sig d) →
        ((v.superclasses (v.bound + 1) c.superType).length ≤ maxLinks →
          ∃ a, (added.workspace.ask i (.resolveOnClass c.type sig)).result = .ok (.resolution a) ∧
            (∀ t m, a = .single c.type t m ↔ r = some (t, m)) ∧
            ((a = .noSuchMethod ∨ ∃ ms, ms ≠ [] ∧ a = .incompatibleClass ms) ↔ r = none)) ∧
        (maxLinks < (v.superclasses (v.bound + 1) c.superType).length →
          (added.workspace.ask i (.resolveOnClass c.type sig)).result =
            .error (.walk .linkOverflow))) := by
  subst hv hasked hadded
  generalize hv : s.uncachedView w.types store = v at *
  generalize hu : (s.extend c).uncachedView w.types store = u
  -- afterwards the snapshot answers from `u`, where nothing but the class is different
  have hnew' : s.definition store c.type = none := by
    rw [← hv] at hnew
    exact hnew
  obtain ⟨hadded, hanswer⟩ :=
    result_ask_of_synthesized hlive hcache hnew' (.lambdaTarget c.interfaces sig)
  rw [hu] at hanswer
  have hagree : v.Agree u (v.Above (v.wellKnown.object :: c.interfaces)) := by
    rw [← hu, ← hv]
    refine Snapshot.agree_extend (hv ▸ View.not_above ?_ hnamed)
    simpa [hv] using ⟨hobject, hlisted⟩
  have hcoherent : u.Coherent := hu ▸ Snapshot.coherent_uncachedView _ _ _
  have hc : u.definition c.type = some c := by
    rw [← hu]
    exact (Snapshot.definition_extend ..).trans (if_pos rfl)
  have habove {t : TypeId} (ht : t ∈ v.wellKnown.object :: c.interfaces) :=
    View.above_of_mem (v := v) ht
  have htarget : u.inheritedTarget c.type sig = v.lambdaTarget c.interfaces sig :=
    View.inheritedTarget_eq_lambdaTarget hagree (habove List.mem_cons_self)
      (fun t ht => habove (List.mem_cons_of_mem _ ht)) hc hsuper
  refine ⟨(v.lambdaTarget c.interfaces sig).value, ?_, hadded, ?_, fun hnothing => ?_⟩
  · rw [result_ask_of_upToDate hlive hcache, hv]
    rfl
  · rw [hanswer, Query.run, htarget]
    rfl
  · have hchain (n : Nat) : u.superclasses n c.superType = v.superclasses n c.superType :=
      hagree.superclasses_congr n fun t ht => habove (by simp_all)
    have hnothing' : ∀ d ∈ c :: u.superclasses u.bound c.superType, u.HasNothing sig d := by
      intro d hd
      rcases List.mem_cons.1 hd with rfl | hd
      · exact View.hasNothing_of_methods_eq_nil hmethods
      · rw [hagree.bound, hchain] at hd
        exact hagree.hasNothing_iff.2 (hnothing d hd)
    obtain ⟨hresolved, hoverflow⟩ := View.resolveOnClass_of_hasNothing hcoherent
      ((hagree.isArray c.type).trans harray) hc hclass hnothing'
    rw [hagree.bound, hchain, htarget] at hresolved
    rw [hagree.bound, hchain] at hoverflow
    refine ⟨fun hcount => ?_, fun hcount => ?_⟩
    · obtain ⟨a, hvalue, ha⟩ := hresolved hcount
      refine ⟨a, ?_, ha⟩
      rw [hanswer, Query.run, Walk.value_map, hvalue]
      rfl
    · rw [hanswer, Query.run, Walk.value_map, hoverflow hcount]
      rfl

/-! ### A lambda with one interface -/

/-- A store of the root class and an interface with a default. -/
def defaultStore : ClassStore :=
  (ClassStore.empty.put (.ofClass .object none)).put (Candidates.withDefault ⟨60⟩ [])

/-- A workspace with a snapshot of this store. -/
def interfaced : Workspace := (fresh (.freshWith SymbolTable.byteSum) false).after
  [.openStore [.ofClass .object none, Candidates.withDefault ⟨60⟩ []], .openSnapshot 0 {}]

/-- The snapshot, which has read nothing yet. -/
def unread : Snapshot := ⟨0, Snapshot.firstGeneration, 0, .empty, .empty, {}⟩

/-- The snapshot is live. -/
theorem live_interfaced : interfaced.live 0 = .ok (unread, defaultStore) := rfl

/-- Nothing is kept that could be out of date. -/
theorem upToDate_unread : unread.UpToDate defaultStore := by
  intro t table hkept
  cases hkept

/-- What a query sees of it. -/
def interfacedView : View := unread.uncachedView interfaced.types defaultStore

/-- The root class has its usual number. -/
theorem object_interfaced : interfacedView.wellKnown.object = .object := by decide +kernel

/-- The target of the lambda is the default. -/
theorem value_lambdaTarget_interfaced :
    (interfacedView.lambdaTarget [⟨60⟩] Candidates.defaultSig).value =
      some (⟨60⟩, Candidates.defaultOf ⟨60⟩) := by
  have hsweep : interfacedView.sweep Candidates.defaultSig []
      [.interface ⟨60⟩, .superclass .object 0] =
        [.declares ⟨60⟩ (Candidates.withDefault ⟨60⟩ []) (Candidates.defaultOf ⟨60⟩)] := by
    rw [View.sweep_interface_declares (c := Candidates.withDefault ⟨60⟩ [])
      (m := Candidates.defaultOf ⟨60⟩) rfl rfl,
      View.sweep_superclass_enters (c := .ofClass .object none) (by decide) rfl]
    exact congrArg _ (View.sweep_nil ..)
  rw [View.lambdaTarget, Walk.value_bind, Walk.value_pure, object_interfaced, Candidates.collect]
  change Candidates.target? (Candidates.record _ (interfacedView.sweep Candidates.defaultSig []
    [.interface ⟨60⟩, .superclass .object 0]) _) = _
  rw [hsweep, Candidates.record]
  change Candidates.target? { Candidates.empty.add _ _ _ with expanded := _ } = _
  rw [Candidates.add_withDefault]
  rfl

/-- A class with this interface inherits it, once it is there. -/
theorem lambdaTarget_interfaced :
    (interfaced.ask 0 (.lambdaTarget [⟨60⟩] Candidates.defaultSig)).result =
        .ok (.target (some (⟨60⟩, Candidates.defaultOf ⟨60⟩))) ∧
      (((interfaced.ask 0 (.lambdaTarget [⟨60⟩] Candidates.defaultSig)).workspace.synthesize 0
        (Candidates.implementing [⟨60⟩])).workspace.ask 0
          (.resolveOnClass ⟨62⟩ Candidates.defaultSig)).result =
            .ok (.resolution (.single ⟨62⟩ ⟨60⟩ (Candidates.defaultOf ⟨60⟩))) := by
  have hdefinition {t : TypeId} {d : ClassDef} (hd : interfacedView.definition t = some d) :
      t = .object ∧ d = .ofClass .object none ∨
        t = ⟨60⟩ ∧ d = Candidates.withDefault ⟨60⟩ [] :=
    ClassStore.eq_of_get?_put_put hd
  have hasked : interfaced.ask 0 (.lambdaTarget [⟨60⟩] Candidates.defaultSig) = _ := rfl
  obtain ⟨r, hanswer, -, -, hresolved⟩ := lambdaTarget_synthesized (v := interfacedView)
    (c := Candidates.implementing [⟨60⟩]) live_interfaced upToDate_unread rfl hasked rfl
    (congrArg some object_interfaced.symm) rfl rfl (by decide +kernel) (by decide +kernel) rfl
    (by decide) fun t d _ hd => by
      rcases hdefinition hd with ⟨-, rfl⟩ | ⟨-, rfl⟩ <;> decide
  have htarget : (interfaced.ask 0 (.lambdaTarget [⟨60⟩] Candidates.defaultSig)).result =
      .ok (.target (some (⟨60⟩, Candidates.defaultOf ⟨60⟩))) := by
    rw [← value_lambdaTarget_interfaced]
    exact result_ask_of_upToDate live_interfaced upToDate_unread _
  obtain rfl : r = some (⟨60⟩, Candidates.defaultOf ⟨60⟩) := by
    exact Answer.target.inj (Except.ok.inj (hanswer.symm.trans htarget))
  have hnothing : ∀ d ∈ interfacedView.superclasses interfacedView.bound (some .object),
      interfacedView.HasNothing Candidates.defaultSig d := by
    intro d hd
    obtain rfl : d = .ofClass .object none := List.mem_singleton.1 hd
    exact View.hasNothing_of_methods_eq_nil rfl
  have hcount := (interfacedView.length_superclasses_le (interfacedView.bound + 1)
    (some .object)).trans (show interfacedView.bound + 1 ≤ maxLinks by decide)
  obtain ⟨a, ha, hsingle, -⟩ := (hresolved hnothing).1 hcount
  obtain rfl := (hsingle ⟨60⟩ (Candidates.defaultOf ⟨60⟩)).2 rfl
  exact ⟨htarget, ha⟩

/-! ### A root class that extends itself -/

/-- A root class that extends itself. -/
def endlessRoot : ClassDef := .ofClass .object (some .object)

/-- A store of this class and an interface with a default. -/
def endlessStore : ClassStore :=
  (ClassStore.empty.put endlessRoot).put (Candidates.withDefault ⟨60⟩ [])

/-- A workspace with a snapshot of this store, under the largest bound. -/
def endless : Workspace := (fresh (.freshWith SymbolTable.byteSum) false).after
  [.openStore [endlessRoot, Candidates.withDefault ⟨60⟩ []],
    .openSnapshot 0 { maxDepth := 4294967295 }]

/-- The snapshot, which has read nothing yet. -/
def unreadEndless : Snapshot :=
  ⟨0, Snapshot.firstGeneration, 0, .empty, .empty, { maxDepth := 4294967295 }⟩

/-- What a query sees of it. -/
def endlessView : View := unreadEndless.uncachedView endless.types endlessStore

/-- A superclass that extends itself and has no interfaces is followed until it is cut off. -/
theorem sweep_superclass_loop {v : View} {sig : MethodSig} {seen : List TypeId} {t : TypeId}
    {c : ClassDef} (hc : v.definition t = some c) (hsuper : c.superType = some t)
    (hinterfaces : c.interfaces = []) (links : Nat) :
    v.sweep sig seen [.superclass t links] = [.cut t] := by
  by_cases hl : links < v.bound
  · rw [View.sweep_superclass_enters hl hc, ClassDef.ahead, hsuper, hinterfaces]
    exact sweep_superclass_loop hc hsuper hinterfaces (links + 1)
  · rw [View.sweep_superclass_cut (Nat.not_lt.1 hl), View.sweep_nil]
termination_by v.bound - links

/-- The target of the lambda is the default, however long the root class is followed. -/
theorem value_lambdaTarget_endless :
    (endlessView.lambdaTarget [⟨60⟩] Candidates.defaultSig).value =
      some (⟨60⟩, Candidates.defaultOf ⟨60⟩) := by
  have hobject : endlessView.wellKnown.object = .object := by decide +kernel
  have hsweep : endlessView.sweep Candidates.defaultSig []
      [.interface ⟨60⟩, .superclass .object 0] =
        [.declares ⟨60⟩ (Candidates.withDefault ⟨60⟩ []) (Candidates.defaultOf ⟨60⟩),
          .cut .object] := by
    rw [View.sweep_interface_declares (c := Candidates.withDefault ⟨60⟩ [])
      (m := Candidates.defaultOf ⟨60⟩) rfl rfl]
    exact congrArg _ (sweep_superclass_loop (c := endlessRoot) rfl rfl rfl 0)
  rw [View.lambdaTarget, Walk.value_bind, Walk.value_pure, hobject, Candidates.collect]
  change Candidates.target? (Candidates.record _ (endlessView.sweep Candidates.defaultSig []
    [.interface ⟨60⟩, .superclass .object 0]) _) = _
  rw [hsweep, Candidates.record]
  change Candidates.target? { Candidates.empty.add _ _ _ with expanded := _ } = _
  rw [Candidates.add_withDefault]
  rfl

/-- The climb from a class with this interface follows the root class until the count overflows. -/
theorem value_resolveOnClass_endless :
    (((unreadEndless.extend (Candidates.implementing [⟨60⟩])).uncachedView endless.types
      endlessStore).resolveOnClass ⟨62⟩ Candidates.defaultSig).value = .error .linkOverflow := by
  generalize hu : (unreadEndless.extend (Candidates.implementing [⟨60⟩])).uncachedView
    endless.types endlessStore = u
  have hcoherent : u.Coherent := hu ▸ Snapshot.coherent_uncachedView ..
  have hself : u.definition ⟨62⟩ = some (Candidates.implementing [⟨60⟩]) := by
    rw [← hu]
    rfl
  have hroot : u.Loops endlessRoot := by
    rw [← hu]
    exact ⟨rfl, rfl⟩
  have hmax : u.bound = maxLinks := by
    rw [← hu]
    decide
  have harray : u.isArray ⟨62⟩ = false := by
    rw [← hu]
    decide +kernel
  have hnothing : ∀ d ∈ Candidates.implementing [⟨60⟩] :: u.superclasses u.bound (some .object),
      u.HasNothing Candidates.defaultSig d := by
    intro d hd
    refine View.hasNothing_of_methods_eq_nil ?_
    rcases List.mem_cons.1 hd with rfl | hd
    · rfl
    · rw [hroot.eq_of_mem_superclasses hd]
      rfl
  have hmany : maxLinks < (u.superclasses (u.bound + 1) (some .object)).length := by
    have hlength := hroot.length_superclasses (u.bound + 1)
    rw [hmax] at hlength ⊢
    exact Nat.lt_of_lt_of_eq (Nat.lt_succ_self maxLinks) hlength.symm
  exact (View.resolveOnClass_of_hasNothing hcoherent harray hself rfl hnothing).2 hmany

/-- **Under the largest bound an endless chain is not cut off but breaks off.** A lambda's interface
has a default, which is its target. The class that is made visible then meets all that is asked of
it, and yet a reference to it resolves to nothing at all: the count of its superclass links
overflows. -/
theorem lambdaTarget_endless :
    (endless.live 0 = .ok (unreadEndless, endlessStore) ∧
      unreadEndless.UpToDate endlessStore ∧ 1 ≤ unreadEndless.options.maxDepth.toNat) ∧
    (endlessView.wellKnown.object = .object ∧
      endlessView.isArray ⟨62⟩ = false ∧ endlessView.definition ⟨62⟩ = none ∧
      (∀ t d, endlessView.definition t = some d → ⟨62⟩ ∉ d.supertypes) ∧
      ∀ d ∈ endlessView.superclasses endlessView.bound (some .object),
        endlessView.HasNothing Candidates.defaultSig d) ∧
    Candidates.implementing [⟨60⟩] = { ClassDef.ofClass ⟨62⟩ (some .object) with
      interfaces := [⟨60⟩] } ∧
    (endless.ask 0 (.lambdaTarget [⟨60⟩] Candidates.defaultSig)).result =
      .ok (.target (some (⟨60⟩, Candidates.defaultOf ⟨60⟩))) ∧
    ((endless.ask 0 (.lambdaTarget [⟨60⟩] Candidates.defaultSig)).workspace.synthesize 0
      (Candidates.implementing [⟨60⟩])).result = .ok () ∧
    (((endless.ask 0 (.lambdaTarget [⟨60⟩] Candidates.defaultSig)).workspace.synthesize 0
      (Candidates.implementing [⟨60⟩])).workspace.ask 0
        (.resolveOnClass ⟨62⟩ Candidates.defaultSig)).result = .error (.walk .linkOverflow) := by
  have hlive : endless.live 0 = .ok (unreadEndless, endlessStore) := rfl
  have hcache : unreadEndless.UpToDate endlessStore := by
    intro t table hkept
    cases hkept
  have hobject : endlessView.wellKnown.object = .object := by decide +kernel
  have hdefinition {t : TypeId} {d : ClassDef} (hd : endlessView.definition t = some d) :
      t = .object ∧ d = endlessRoot ∨ t = ⟨60⟩ ∧ d = Candidates.withDefault ⟨60⟩ [] :=
    ClassStore.eq_of_get?_put_put hd
  have hnamed (t : TypeId) (d : ClassDef) (hd : endlessView.definition t = some d) :
      ⟨62⟩ ∉ d.supertypes := by
    rcases hdefinition hd with ⟨-, rfl⟩ | ⟨-, rfl⟩ <;> decide
  have hroot : endlessView.Loops endlessRoot := ⟨rfl, rfl⟩
  have hchain : ∀ d ∈ endlessView.superclasses endlessView.bound (some .object),
      endlessView.HasNothing Candidates.defaultSig d := by
    intro d hd
    rw [hroot.eq_of_mem_superclasses hd]
    exact View.hasNothing_of_methods_eq_nil rfl
  obtain ⟨hadded, hanswer⟩ := result_ask_of_synthesized hlive hcache
    (c := Candidates.implementing [⟨60⟩]) rfl (.lambdaTarget [⟨60⟩] Candidates.defaultSig)
  refine ⟨⟨hlive, hcache, by decide⟩, ⟨hobject, by decide +kernel, rfl, hnamed, hchain⟩, rfl,
    ?_, hadded, ?_⟩
  · rw [result_ask_of_upToDate hlive hcache, ← value_lambdaTarget_endless]
    rfl
  · rw [hanswer, Query.run, Walk.value_map]
    exact congrArg (fun r => Failure.ofWalk (Answer.ofResolution r)) value_resolveOnClass_endless

end Workspace

end Linkage
