import Linkage.Proofs.ByteOrder
import Linkage.Proofs.SynthesizedClasses
import Linkage.Proofs.TypeIdentity
import Mathlib.Data.List.Forall2

/-!
# The Listing of a Snapshot's Own Classes

The classes that a snapshot was given are listed by their descriptors. What is listed depends on
what was given and on nothing else: not on the order, not on repetitions, not on what else was done
in the meantime, and not on the order in which the classes happen to be stored. The order of the
listing is strict, because no two types that are named by descriptors read alike.

Two runs from one workspace may hand out numbers in different orders, so that one class can be told
in different numbers. `Identifies` says what it takes to speak of the same classes in both.

## Main definitions

* `madeVisible`: the classes that a run has given to a lineage.
* `Identifies`: which classes of two runs are the same.
* `ListsOnce`: a listing has every class once, in the order of the bytes of the descriptors.

## Main results

* `render_injective`: no two types are written alike.
* `Ordered.gathers_after`: what a lineage has after a run.
* `listing_after`: the listing after one run.
* `listing_independent_of_order`: the listings of two runs.
-/

namespace Linkage

/-! ### No two types are written alike -/

/-- Base types that are written alike are the same. -/
theorem BaseType.render_injective {b b' : BaseType} (h : b.render = b'.render) : b = b' := by
  cases b with
  | primitive p =>
      cases b' with
      | primitive q =>
          have hletter : p.letter = q.letter := (List.cons.inj h).1
          have hp : Primitive.ofLetter? p.letter = some p := Primitive.ofLetter?_eq_some_iff.2 rfl
          rw [hletter, Primitive.ofLetter?_eq_some_iff.2 rfl, Option.some.injEq] at hp
          rw [hp]
      | object name =>
          exact absurd (List.cons.inj h).1 (p.letter_ne_of_mem (by decide))
  | object name =>
      cases b' with
      | primitive q =>
          exact absurd (List.cons.inj h).1.symm (q.letter_ne_of_mem (by decide))
      | object name' =>
          have hname := List.append_cancel_right (List.cons.inj h).2
          rw [String.toList_inj.1 hname]

/-- **No two types are written alike**: the brackets are counted, and what follows starts with
none. -/
theorem FieldDescriptor.render_injective {d e : FieldDescriptor} (h : d.render = e.render) :
    d = e := by
  obtain ⟨n, b⟩ := d
  obtain ⟨m, b'⟩ := e
  have hd := Descriptor.takeWhile_dropWhile_brackets n b []
  have he := Descriptor.takeWhile_dropWhile_brackets m b' []
  simp only [List.append_nil] at hd he
  change List.replicate n '[' ++ b.render = List.replicate m '[' ++ b'.render at h
  rw [h] at hd
  have hbrackets := congrArg List.length (hd.1.symm.trans he.1)
  rw [List.length_replicate, List.length_replicate] at hbrackets
  rw [hbrackets, BaseType.render_injective (hd.2.symm.trans he.2)]

/-- Types that are named by descriptors read differently. -/
theorem TypeTable.Denotes.id_eq_of_descriptor?_eq {t : TypeTable} {d e : FieldDescriptor}
    {id id' : TypeId} (hfiled : t.symbols.Filed) (h : t.Denotes d id) (h' : t.Denotes e id')
    (heq : t.descriptor? id = t.descriptor? id') : id = id' := by
  rw [h.descriptor?_eq, h'.descriptor?_eq, Option.some.injEq, String.ofList_inj] at heq
  rw [FieldDescriptor.render_injective heq] at h
  exact h.id_unique hfiled h'

/-! ### Sorted lists -/

section Sorted

variable {α β : Type}

/-- Where keys increase, the heads of two lists correspond if each has something for the other: both
have the least key. -/
theorem related_of_least {f : α → String} {g : β → String} {R : α → β → Prop} {a : α} {as : List α}
    {b : β} {bs : List β} (hkey : ∀ a b, R a b → f a = g b) (ha : ∀ a' ∈ as, f a < f a')
    (hb : ∀ b' ∈ bs, g b < g b') (hright : ∃ b' ∈ b :: bs, R a b')
    (hleft : ∃ a' ∈ a :: as, R a' b) : R a b := by
  obtain ⟨b', hb', hR⟩ := hright
  rcases List.mem_cons.1 hb' with rfl | hb'
  · exact hR
  · obtain ⟨a', ha', hR'⟩ := hleft
    have hlt := hb b' hb'
    rw [← hkey a b' hR, ← hkey a' b hR'] at hlt
    rcases List.mem_cons.1 ha' with rfl | ha'
    · exact absurd hlt (String.lt_irrefl _)
    · exact absurd hlt (String.lt_asymm (ha a' ha'))

/-- Two lists in strict order of their keys correspond, one by one, if each has something for
everything in the other. -/
theorem forall₂_of_increasing {f : α → String} {g : β → String} {R : α → β → Prop}
    {as : List α} {bs : List β} (hkey : ∀ a b, R a b → f a = g b)
    (has : as.Pairwise fun a a' => f a < f a') (hbs : bs.Pairwise fun b b' => g b < g b')
    (hright : ∀ a ∈ as, ∃ b ∈ bs, R a b) (hleft : ∀ b ∈ bs, ∃ a ∈ as, R a b) :
    List.Forall₂ R as bs := by
  induction as generalizing bs with
  | nil =>
      cases bs with
      | nil => exact .nil
      | cons b bs =>
          obtain ⟨a, ha, -⟩ := hleft b List.mem_cons_self
          cases ha
  | cons a as ih =>
      cases bs with
      | nil =>
          obtain ⟨b, hb, -⟩ := hright a List.mem_cons_self
          cases hb
      | cons b bs =>
          obtain ⟨hfirst, has⟩ := List.pairwise_cons.1 has
          obtain ⟨hfirst', hbs⟩ := List.pairwise_cons.1 hbs
          have hab := related_of_least hkey hfirst hfirst' (hright a List.mem_cons_self)
            (hleft b List.mem_cons_self)
          refine .cons hab (ih has hbs (fun a' ha' => ?_) fun b' hb' => ?_)
          · obtain ⟨b', hb', hR⟩ := hright a' (List.mem_cons_of_mem a ha')
            rcases List.mem_cons.1 hb' with rfl | hb'
            · have hlt := hfirst a' ha'
              rw [hkey a b' hab, hkey a' b' hR] at hlt
              exact absurd hlt (String.lt_irrefl _)
            · exact ⟨b', hb', hR⟩
          · obtain ⟨a', ha', hR⟩ := hleft b' (List.mem_cons_of_mem b hb')
            rcases List.mem_cons.1 ha' with rfl | ha'
            · have hlt := hfirst' b' hb'
              rw [← hkey a' b hab, ← hkey a' b' hR] at hlt
              exact absurd hlt (String.lt_irrefl _)
            · exact ⟨a', ha', hR⟩

/-- Sorting things with different keys brings them into strict order. -/
theorem increasing_mergeSort {f : α → String} {as : List α}
    (h : as.Pairwise fun a a' => f a ≠ f a') :
    (as.mergeSort fun a a' => f a ≤ f a').Pairwise fun a a' => f a < f a' := by
  have htrans (a b c : α) (hab : decide (f a ≤ f b) = true) (hbc : decide (f b ≤ f c) = true) :
      decide (f a ≤ f c) = true :=
    decide_eq_true (String.le_trans (of_decide_eq_true hab) (of_decide_eq_true hbc))
  have htotal (a b : α) : (decide (f a ≤ f b) || decide (f b ≤ f a)) = true := by
    simpa using String.le_total (f a) (f b)
  have hle := List.pairwise_mergeSort htrans htotal as
  have hne := (List.mergeSort_perm as fun a a' => f a ≤ f a').symm.pairwise h fun hab => hab.symm
  refine (hle.and hne).imp fun hab => ?_
  exact Std.lt_of_le_of_ne (of_decide_eq_true hab.1) hab.2

/-- And into the same order wherever they were before. -/
theorem mergeSort_eq_of_perm {f : α → String} {as bs : List α}
    (h : as.Pairwise fun a a' => f a ≠ f a') (hperm : bs.Perm as) :
    (bs.mergeSort fun a a' => f a ≤ f a') = as.mergeSort fun a a' => f a ≤ f a' := by
  have has := increasing_mergeSort h
  have hbs := increasing_mergeSort (hperm.symm.pairwise h fun hab => hab.symm)
  have hsame := ((List.mergeSort_perm bs fun a a' => f a ≤ f a').trans hperm).trans
    (List.mergeSort_perm as fun a a' => f a ≤ f a').symm
  exact hsame.eq_of_pairwise (fun a b _ _ hab hba => absurd hba (String.lt_asymm hab)) hbs has

/-- What holds of one thing in a list, and of no two, is counted once. -/
theorem countP_eq_one {p : α → Bool} {as : List α} {a : α} (ha : a ∈ as) (hpa : p a = true)
    (h : as.Pairwise fun b b' => ¬ (p b = true ∧ p b' = true)) : as.countP p = 1 := by
  induction as with
  | nil => cases ha
  | cons b as ih =>
      obtain ⟨hfirst, has⟩ := List.pairwise_cons.1 h
      by_cases hb : p b = true
      · have hnone : as.countP p = 0 :=
          List.countP_eq_zero.2 fun b' hb' hp => hfirst b' hb' ⟨hb, hp⟩
        rw [List.countP_cons_of_pos hb, hnone]
      · rw [List.countP_cons_of_neg hb]
        rcases List.mem_cons.1 ha with rfl | ha
        · exact absurd hpa hb
        · exact ih ha has

end Sorted

/-! ### What a store lists -/

namespace ClassStore

/-- The values of a store are what is found under their types. -/
theorem mem_values_iff {s : ClassStore} {c : ClassDef} :
    c ∈ s.classes.values ↔ s.get? c.type = some c := by
  rw [OrderedMap.values, List.mem_map]
  constructor
  · rintro ⟨⟨t, d⟩, hmem, rfl⟩
    have hget : s.get? t = some d := OrderedMap.mem_entries_iff.1 hmem
    rw [type_eq_of_get? hget]
    exact hget
  · intro h
    exact ⟨(c.type, c), OrderedMap.mem_entries_iff.2 h, rfl⟩

/-- Each type has one value. -/
theorem pairwise_values (s : ClassStore) :
    s.classes.values.Pairwise fun c d => c.type ≠ d.type := by
  have hkeys := s.classes.nodup_keys
  rw [OrderedMap.keys, List.Nodup, List.pairwise_map] at hkeys
  rw [OrderedMap.values, List.pairwise_map]
  refine hkeys.imp_of_mem fun {e e'} he he' hne => ?_
  rwa [s.coherent e.1 e.2 (OrderedMap.mem_entries_iff.1 he),
    s.coherent e'.1 e'.2 (OrderedMap.mem_entries_iff.1 he')]

end ClassStore

namespace ClassDef

/-- Classes are the same exactly if they are alike but for the stamps of their methods. -/
theorem sameAs_iff {c d : ClassDef} : c.sameAs d = true ↔ c.unstamped = d.unstamped := by
  rw [sameAs, beq_iff_eq]

end ClassDef

namespace Workspace

variable {w : Workspace} {i : Nat} {s : Snapshot} {store : ClassStore} {c : ClassDef}

/-! ### What a run gives to a lineage -/

/-- The class that an operation makes visible in a lineage. -/
def visible? (w : Workspace) (lineage : Nat) : Operation → Option ClassDef
  | .synthesize i c =>
    match w.snapshots[i]?, (w.synthesize i c).result with
    | some s, .ok () => if s.lineage = lineage then some c else none
    | _, _ => none
  | _ => none

/-- The classes that some operations make visible in a lineage. -/
def madeVisible (w : Workspace) (lineage : Nat) : List Operation → List ClassDef
  | [] => []
  | op :: ops =>
    (w.visible? lineage op).toList ++ (w.perform op).workspace.madeVisible lineage ops

/-- An operation makes a class visible exactly if it was asked for this, and it succeeded. -/
theorem visible?_eq_some_iff {lineage : Nat} {op : Operation} :
    w.visible? lineage op = some c ↔ ∃ i s, op = .synthesize i c ∧ w.snapshots[i]? = some s ∧
      s.lineage = lineage ∧ (w.synthesize i c).result = .ok () := by
  constructor
  · intro h
    cases op <;> try cases h
    next i d =>
      rw [visible?] at h
      split at h
      · next s hs hresult =>
        split at h
        · next hlineage =>
          cases h
          exact ⟨i, s, rfl, hs, hlineage, hresult⟩
        · cases h
      · cases h
  · rintro ⟨i, s, rfl, hs, rfl, hresult⟩
    simp only [visible?, hs, hresult, if_true]

/-- A snapshot has the classes of an earlier one, and those of a list. Classes that read alike count
as one, and the first of them is kept. -/
structure Gathers (s : Snapshot) (cs : List ClassDef) (u : Snapshot) : Prop where
  old {t : TypeId} {c : ClassDef} : s.synthesized.get? t = some c → u.synthesized.get? t = some c
  new {c : ClassDef} : c ∈ cs → ∃ d, u.synthesized.get? c.type = some d ∧ d.sameAs c = true
  only {t : TypeId} {c : ClassDef} : u.synthesized.get? t = some c →
    s.synthesized.get? t = some c ∨ c ∈ cs

/-- A snapshot with the same classes of its own has gathered none. -/
theorem gathers_of_eq {u : Snapshot} (h : u.synthesized = s.synthesized) : Gathers s [] u where
  old hget := by rw [h, hget]
  new hmem := by cases hmem
  only hget := by
    rw [h] at hget
    exact .inl hget

/-- What is gathered in two steps is gathered. -/
theorem Gathers.trans {u v : Snapshot} {cs ds : List ClassDef} (h : Gathers s cs u)
    (h' : Gathers u ds v) : Gathers s (cs ++ ds) v where
  old hget := h'.old (h.old hget)
  new hmem := by
    rcases List.mem_append.1 hmem with hmem | hmem
    · obtain ⟨d, hget, hsame⟩ := h.new hmem
      exact ⟨d, h'.old hget, hsame⟩
    · exact h'.new hmem
  only hget := by
    rcases h'.only hget with hget | hmem
    · rcases h.only hget with hget | hmem
      · exact .inl hget
      · exact .inr (List.mem_append_left _ hmem)
    · exact .inr (List.mem_append_right _ hmem)

/-- A class that is new is all that a snapshot gains with it. -/
theorem gathers_extend (hnew : s.synthesized.get? c.type = none) : Gathers s [c] (s.extend c) := by
  have hput := s.synthesized.get?_put c
  refine ⟨fun {t d} hget => ?_, fun {d} hmem => ?_, fun {t d} hget => ?_⟩
  · refine (hput t).trans ?_
    rw [if_neg, hget]
    rintro rfl
    rw [hnew] at hget
    cases hget
  · obtain rfl := List.mem_singleton.1 hmem
    exact ⟨d, (hput d.type).trans (if_pos rfl), d.sameAs_refl⟩
  · have hget' := (hput t).symm.trans hget
    split at hget'
    · cases hget'
      exact .inr List.mem_cons_self
    · exact .inl hget'

/-- A class that is made visible is gathered, and one that reads alike may have been before. -/
theorem gathers_synthesize (hlive : w.live i = .ok (s, store))
    (hresult : (w.synthesize i c).result = .ok ()) :
    ∃ u, (w.synthesize i c).workspace.Leads i u ∧ u.lineage = s.lineage ∧ Gathers s [c] u := by
  rcases synthesize_cases hlive c with
    ⟨-, heq⟩ | ⟨-, ⟨d, -, -, heq⟩ | ⟨d, hown, hsame, heq⟩ | ⟨hnew, heq⟩⟩
  · rw [heq] at hresult
    cases hresult
  · rw [heq] at hresult
    cases hresult
  · rw [heq]
    refine ⟨s, leads_of_live hlive, rfl, fun hget => hget, fun hmem => ?_, fun hget => .inl hget⟩
    obtain rfl := List.mem_singleton.1 hmem
    exact ⟨d, hown, hsame⟩
  · rw [heq]
    exact ⟨s.extend c, leads_of_live (live_setSnapshot hlive _ rfl rfl rfl), rfl,
      gathers_extend hnew⟩

/-- **One operation** gives a lineage the class that it makes visible in it, and no other. -/
theorem Ordered.gathers (hord : w.Ordered) (hs : w.Leads i s) (op : Operation) :
    ∃ j u, (w.perform op).workspace.Leads j u ∧ u.lineage = s.lineage ∧
      Gathers s (w.visible? s.lineage op).toList u := by
  cases hvisible : w.visible? s.lineage op with
  | none =>
      obtain ⟨j, u, hu, hlineage, hbecomes⟩ := hord.becomes hs op
      refine ⟨j, u, hu, hlineage, ?_⟩
      cases hbecomes with
      | same => exact gathers_of_eq rfl
      | evicted => exact gathers_of_eq rfl
      | asked => exact gathers_of_eq rfl
      | succeeded => exact gathers_of_eq rfl
      | @extended c _ hlive hstore hnew =>
          have hsome : w.visible? s.lineage (.synthesize i c) = some c :=
            visible?_eq_some_iff.2 ⟨i, s, rfl, hs.1, rfl, by
              rw [synthesize_of_new hlive hstore hnew]
              rfl⟩
          rw [hvisible] at hsome
          cases hsome
  | some c =>
      obtain ⟨k, s', rfl, hs', hlineage, hresult⟩ := visible?_eq_some_iff.1 hvisible
      cases hlive : w.live k with
      | error e =>
          rw [synthesize, hlive] at hresult
          cases hresult
      | ok p =>
          obtain ⟨v, store⟩ := p
          have hv := leads_of_live hlive
          obtain rfl : v = s' := Option.some.inj (hv.1.symm.trans hs')
          obtain ⟨rfl, rfl⟩ := hord.leads_unique hv hs hlineage
          obtain ⟨u, hu, hlineage', hgathers⟩ := gathers_synthesize hlive hresult
          exact ⟨k, u, hu, hlineage', hgathers⟩

/-- **A run gives a lineage the classes that it makes visible in it**, and no others. -/
theorem Ordered.gathers_after (hord : w.Ordered) (hs : w.Leads i s) (ops : List Operation) :
    ∃ j u, (w.after ops).Leads j u ∧ u.lineage = s.lineage ∧
      Gathers s (w.madeVisible s.lineage ops) u := by
  induction ops generalizing w i s with
  | nil => exact ⟨i, s, hs, rfl, gathers_of_eq rfl⟩
  | cons op ops ih =>
      obtain ⟨j, u, hu, hlineage, hgathers⟩ := hord.gathers hs op
      obtain ⟨k, v, hv, hlineage', hgathers'⟩ := ih (hord.step (w.step_perform op)) hu
      refine ⟨k, v, hv, hlineage'.trans hlineage, ?_⟩
      rw [hlineage] at hgathers'
      exact hgathers.trans hgathers'

/-! ### Types that are named by descriptors -/

/-- A workspace's type table changes by requests only. -/
theorem exists_types_after (w : Workspace) (ops : List Operation) :
    ∃ rs, (w.after ops).types = w.types.after rs := by
  induction ops generalizing w with
  | nil => exact ⟨[], rfl⟩
  | cons op ops ih =>
      obtain ⟨rs, hrs⟩ := ih (w.perform op).workspace
      rw [after_cons, hrs]
      cases op with
      | intern r => exact ⟨r :: rs, rfl⟩
      | _ =>
          refine ⟨rs, congrArg (TypeTable.after · rs) ?_⟩
          simp only [perform, declare, markObsolete, openStore, insertClass, replaceClass,
            removeClass, openSnapshot, derive, checkLive, invalidate, synthesize,
            synthesizedClasses, storeClasses, types_ask, askStore]
          repeat' split
          all_goals rfl

/-- A new workspace has the types that it is given. -/
theorem types_fresh (t : TypeTable) (tracing : Bool) : (fresh t tracing).types = t := rfl

/-- The types of a workspace that comes about are those of a table that comes about. -/
theorem Reachable.types {w : Workspace} (h : w.Reachable) : w.types.Reachable := by
  obtain ⟨shardOf, tracing, ops, hw⟩ := h
  obtain ⟨rs, hrs⟩ := exists_types_after (fresh (.freshWith shardOf) tracing) ops
  rw [hw, types_fresh] at hrs
  exact ⟨shardOf, rs, hrs.symm⟩

/-- What a number stands for, it stands for in the course of every run. -/
theorem Reachable.denotes_after {d : FieldDescriptor} {id : TypeId} (h : w.Reachable)
    (hd : w.types.Denotes d id) (ops : List Operation) : (w.after ops).types.Denotes d id := by
  obtain ⟨rs, hrs⟩ := exists_types_after w ops
  rw [hrs]
  exact hd.growsTo (h.types.founded.after rs).2

/-- A type that is obtained by its name is named by a descriptor ever after. -/
theorem Reachable.denotes_of_classNamed {name : String} {id : TypeId} (h : w.Reachable)
    (hid : (TypeTable.classNamed name w.types).1 = id) (later : List Operation) :
    (w.after (.intern (.classNamed name) :: later)).types.Denotes ⟨0, .object name⟩ id := by
  rw [← hid]
  exact (h.perform (.intern (.classNamed name))).denotes_after
    (TypeTable.denotes_classNamed h.types.founded.filed name) later

/-! ### Listings -/

/-- **A listing has every class once**, in the order of the bytes of the descriptors, however the
classes are stored. -/
structure ListsOnce (w : Workspace) (own : List ClassDef) (u : Snapshot) (cs : List ClassDef) :
    Prop where
  increasing : ∃ texts : List String,
    (cs.map fun c => w.types.descriptor? c.type) = texts.map some ∧
    (texts.map fun text => text.toUTF8.data.toList).Pairwise (· < ·)
  once : ∀ c ∈ own, cs.countP (·.sameAs c) = 1
  only : ∀ c ∈ cs, c ∈ own
  unordered : ∀ ds : List ClassDef, ds.Perm u.synthesized.classes.values →
    sortByDescriptor? w.types ds = some cs

/-- What a class is sorted by where the descriptor of its type is written. -/
def sortKey (t : TypeTable) (c : ClassDef) : String := (t.descriptor? c.type).getD ""

/-- The text by which a class is sorted is its type's descriptor. -/
theorem descriptor?_eq_sortKey {t : TypeTable} {c : ClassDef} {d : FieldDescriptor}
    (h : t.Denotes d c.type) : t.descriptor? c.type = some (sortKey t c) := by
  rw [sortKey, h.descriptor?_eq, Option.getD_some]

/-- Each class is looked at once, and put beside its key. -/
theorem mapM_keyed {t : TypeTable} {cs : List ClassDef}
    (h : ∀ c ∈ cs, t.descriptor? c.type = some (sortKey t c)) :
    (cs.mapM fun c => do return (← t.descriptor? c.type, c)) =
      some (cs.map fun c => (sortKey t c, c)) := by
  induction cs with
  | nil => rfl
  | cons c cs ih =>
      rw [List.forall_mem_cons] at h
      rw [List.mapM_cons, ih h.2, h.1]
      rfl

/-- Classes in the order of what they are sorted by. -/
def inOrder (t : TypeTable) (cs : List ClassDef) : List ClassDef :=
  cs.mergeSort fun c d => sortKey t c ≤ sortKey t d

/-- **Where all descriptors are written**, classes are sorted by them. -/
theorem sortByDescriptor?_eq {t : TypeTable} {cs : List ClassDef}
    (h : ∀ c ∈ cs, t.descriptor? c.type = some (sortKey t c)) :
    sortByDescriptor? t cs = some (inOrder t cs) := by
  rw [sortByDescriptor?]
  split
  · next hshort =>
    -- a list that is this short is sorted as it is
    match cs, hshort with
    | [], _ => rw [inOrder, List.mergeSort_nil]
    | [c], _ => rw [inOrder, List.mergeSort_singleton]
  · have hsorted : ((cs.map fun c => (sortKey t c, c)).mergeSort fun x y => x.1 ≤ y.1) =
        (inOrder t cs).map fun c => (sortKey t c, c) := by
      refine (List.map_mergeSort (f := fun c => (sortKey t c, c)) fun _ _ _ _ => ?_).symm
      rfl
    rw [mapM_keyed h, Option.bind_eq_bind, Option.bind_some, hsorted, List.map_map]
    exact congrArg some (List.map_id _)

/-- The classes of a snapshot's own that it has after a run: those that it had, and those that the
run has made visible in its lineage. -/
def ownAfter (w : Workspace) (s : Snapshot) (ops : List Operation) : List ClassDef :=
  s.synthesized.classes.values ++ w.madeVisible s.lineage ops

/-- After a run each class has its type's place to itself. -/
theorem Gathers.mem_values {u : Snapshot} {cs : List ClassDef} (h : Gathers s cs u) :
    (∀ c ∈ s.synthesized.classes.values ++ cs, ∃ d ∈ u.synthesized.classes.values,
      d.sameAs c = true) ∧
    ∀ c ∈ u.synthesized.classes.values, c ∈ s.synthesized.classes.values ++ cs := by
  constructor
  · intro c hc
    rcases List.mem_append.1 hc with hc | hc
    · exact ⟨c, ClassStore.mem_values_iff.2 (h.old (ClassStore.mem_values_iff.1 hc)), c.sameAs_refl⟩
    · obtain ⟨d, hd, hsame⟩ := h.new hc
      rw [← ClassDef.type_eq_of_sameAs hsame] at hd
      exact ⟨d, ClassStore.mem_values_iff.2 hd, hsame⟩
  · intro c hc
    rcases h.only (ClassStore.mem_values_iff.1 hc) with hold | hnew
    · exact List.mem_append_left _ (ClassStore.mem_values_iff.2 hold)
    · exact List.mem_append_right _ hnew

/-- **The listing of a run.** It has every class once if their types are named by descriptors, which
read differently then. -/
theorem listsOnce_synthesizedClasses {u : Snapshot} {cs : List ClassDef} {j : Nat}
    (hfiled : w.types.symbols.Filed) (hlive : w.live j = .ok (u, store)) (hgathers : Gathers s cs u)
    (htypes : ∀ c ∈ s.synthesized.classes.values ++ cs, ∃ d, w.types.Denotes d c.type) :
    ∃ classes, (w.synthesizedClasses j).result = .ok classes ∧
      (∀ c, c ∈ classes ↔ c ∈ u.synthesized.classes.values) ∧
      (classes.Pairwise fun c d => sortKey w.types c < sortKey w.types d) ∧
      w.ListsOnce (s.synthesized.classes.values ++ cs) u classes := by
  obtain ⟨hgained, honly⟩ := hgathers.mem_values
  have hwritten : ∀ c ∈ u.synthesized.classes.values,
      w.types.descriptor? c.type = some (sortKey w.types c) := by
    intro c hc
    obtain ⟨d, hd⟩ := htypes c (honly c hc)
    exact descriptor?_eq_sortKey hd
  have hdistinct : u.synthesized.classes.values.Pairwise fun c d =>
      sortKey w.types c ≠ sortKey w.types d := by
    refine u.synthesized.pairwise_values.imp_of_mem fun {c d} hc hd hne heq => hne ?_
    obtain ⟨e, he⟩ := htypes c (honly c hc)
    obtain ⟨e', he'⟩ := htypes d (honly d hd)
    refine he.id_eq_of_descriptor?_eq hfiled he' ?_
    rw [hwritten c hc, hwritten d hd, heq]
  -- wherever the classes stand before, sorting them brings them into one order
  have hsort (ds : List ClassDef) (hds : ds.Perm u.synthesized.classes.values) :
      sortByDescriptor? w.types ds = some (inOrder w.types u.synthesized.classes.values) := by
    rw [sortByDescriptor?_eq fun c hc => hwritten c (hds.mem_iff.1 hc), inOrder, inOrder,
      mergeSort_eq_of_perm hdistinct hds]
  have hlisting : u.synthesized.listing.Perm u.synthesized.classes.values :=
    List.mergeSort_perm _ _
  have hresult : (w.synthesizedClasses j).result =
      .ok (inOrder w.types u.synthesized.classes.values) := by
    simp only [synthesizedClasses, hlive, hsort _ hlisting, answer]
  have hperm : (inOrder w.types u.synthesized.classes.values).Perm u.synthesized.classes.values :=
    List.mergeSort_perm _ _
  have hsorted : (inOrder w.types u.synthesized.classes.values).Pairwise fun c d =>
      sortKey w.types c < sortKey w.types d := increasing_mergeSort hdistinct
  refine ⟨_, hresult, fun c => hperm.mem_iff, hsorted,
    ⟨(inOrder w.types u.synthesized.classes.values).map (sortKey w.types), ?_, ?_⟩,
    fun c hc => ?_, fun c hc => ?_, hsort⟩
  · rw [List.map_map]
    exact List.map_congr_left fun c hc => hwritten c (hperm.mem_iff.1 hc)
  · rw [List.map_map, List.pairwise_map]
    exact hsorted.imp fun h => Text.toUTF8_lt_iff.2 h
  · obtain ⟨d, hd, hsame⟩ := hgained c hc
    refine countP_eq_one (hperm.mem_iff.2 hd) hsame (hsorted.imp fun {c' d'} hlt hboth => ?_)
    rw [sortKey, sortKey, ClassDef.type_eq_of_sameAs hboth.1,
      ClassDef.type_eq_of_sameAs hboth.2] at hlt
    exact String.lt_irrefl _ hlt
  · exact honly c (hperm.mem_iff.1 hc)

/-- **After a run one snapshot of a lineage is live**, and its listing has every class of the
lineage once. -/
theorem listing_after (h : w.Reachable) (hlive : w.live i = .ok (s, store)) (ops : List Operation)
    (htypes : ∀ c ∈ w.ownAfter s ops, ∃ d, (w.after ops).types.Denotes d c.type) :
    (∃ j u store, (w.after ops).live j = .ok (u, store) ∧ u.lineage = s.lineage) ∧
    ∀ j u store, (w.after ops).live j = .ok (u, store) → u.lineage = s.lineage →
      ∃ classes, ((w.after ops).synthesizedClasses j).result = .ok classes ∧
        (∀ c ∈ w.ownAfter s ops, ∃ d ∈ classes, d.sameAs c = true) ∧
        (classes.Pairwise fun c d =>
          sortKey (w.after ops).types c < sortKey (w.after ops).types d) ∧
        (w.after ops).ListsOnce (w.ownAfter s ops) u classes := by
  have hord := ordered_of_reachable h
  obtain ⟨j, u, hu, hlineage, hgathers⟩ := hord.gathers_after (leads_of_live hlive) ops
  obtain ⟨storeU, hliveU⟩ := ((stored_of_reachable h).after ops).live hu
  refine ⟨⟨j, u, storeU, hliveU, hlineage⟩, fun j' u' store' hlive' hlineage' => ?_⟩
  obtain ⟨rfl, rfl⟩ := (hord.after ops).leads_unique hu (leads_of_live hlive')
    (hlineage.trans hlineage'.symm)
  have hfiled : (w.after ops).types.symbols.Filed := by
    obtain ⟨rs, hrs⟩ := exists_types_after w ops
    rw [hrs]
    exact (h.types.founded.after rs).1.filed
  obtain ⟨classes, hresult, hmem, hsorted, honce⟩ :=
    listsOnce_synthesizedClasses hfiled hlive' hgathers htypes
  refine ⟨classes, hresult, fun c hc => ?_, hsorted, honce⟩
  obtain ⟨d, hd, hsame⟩ := hgathers.mem_values.1 c hc
  exact ⟨d, (hmem d).2 hd, hsame⟩

/-- Which classes that are told in one type table are the same as classes told in another one: their
types are named by one descriptor, and it makes no difference which of two classes that read alike
is meant. -/
structure Identifies (t u : TypeTable) (R : ClassDef → ClassDef → Prop) : Prop where
  denotes {c d : ClassDef} : R c d → ∃ e, t.Denotes e c.type ∧ u.Denotes e d.type
  sameAs {c c' d d' : ClassDef} : R c d → c'.sameAs c = true → d'.sameAs d = true → R c' d'

/-- Classes that are told in the same numbers, where these stand for the same types, are the same if
they read alike. -/
theorem identifies_sameAs (t u : TypeTable) :
    Identifies t u fun c d => c.sameAs d = true ∧ ∃ e, t.Denotes e c.type ∧ u.Denotes e c.type where
  denotes {c d} h := by
    rw [← ClassDef.type_eq_of_sameAs h.1]
    exact h.2
  sameAs {c c' d d'} h hc hd := by
    rw [ClassDef.type_eq_of_sameAs hc]
    rw [ClassDef.sameAs_iff] at *
    exact ⟨hc.trans (h.1.trans hd.symm), h.2⟩

/-- **The listing does not depend on the order of work.** Two runs from one workspace, in which the
same classes have been made visible in the lineage of a live snapshot, may do so in any order and
any number of times, and do anything else beside it. In both, one snapshot of the lineage is live in
the end, and its listing succeeds; it has every class that was made visible once, and no others, in
strictly increasing order of the bytes of the descriptors, however the classes are stored. The
listings agree place by place: the descriptors are the same, and so are the classes; and if the same
classes are those that read alike, as where both runs tell them in numbers that were handed out
before, the listings read alike as a whole. -/
theorem listing_independent_of_order (h : w.Reachable) (hlive : w.live i = .ok (s, store))
    {ops₁ ops₂ : List Operation} {R : ClassDef → ClassDef → Prop}
    (hR : Identifies (w.after ops₁).types (w.after ops₂).types R)
    (hright : ∀ c ∈ w.ownAfter s ops₁, ∃ d ∈ w.ownAfter s ops₂, R c d)
    (hleft : ∀ d ∈ w.ownAfter s ops₂, ∃ c ∈ w.ownAfter s ops₁, R c d) :
    (∃ j u store, (w.after ops₁).live j = .ok (u, store) ∧ u.lineage = s.lineage) ∧
    (∃ j u store, (w.after ops₂).live j = .ok (u, store) ∧ u.lineage = s.lineage) ∧
    ∀ j₁ u₁ store₁ j₂ u₂ store₂,
      (w.after ops₁).live j₁ = .ok (u₁, store₁) → u₁.lineage = s.lineage →
      (w.after ops₂).live j₂ = .ok (u₂, store₂) → u₂.lineage = s.lineage →
      ∃ classes₁ classes₂, ((w.after ops₁).synthesizedClasses j₁).result = .ok classes₁ ∧
        ((w.after ops₂).synthesizedClasses j₂).result = .ok classes₂ ∧
        (w.after ops₁).ListsOnce (w.ownAfter s ops₁) u₁ classes₁ ∧
        (w.after ops₂).ListsOnce (w.ownAfter s ops₂) u₂ classes₂ ∧
        (classes₁.map fun c => (w.after ops₁).types.descriptor? c.type) =
          (classes₂.map fun c => (w.after ops₂).types.descriptor? c.type) ∧
        List.Forall₂ R classes₁ classes₂ ∧
        ((∀ c d, R c d → c.sameAs d = true) →
          classes₁.map ClassDef.unstamped = classes₂.map ClassDef.unstamped) := by
  have htypes₁ : ∀ c ∈ w.ownAfter s ops₁, ∃ e, (w.after ops₁).types.Denotes e c.type := by
    intro c hc
    obtain ⟨d, -, hcd⟩ := hright c hc
    obtain ⟨e, he, -⟩ := hR.denotes hcd
    exact ⟨e, he⟩
  have htypes₂ : ∀ d ∈ w.ownAfter s ops₂, ∃ e, (w.after ops₂).types.Denotes e d.type := by
    intro d hd
    obtain ⟨c, -, hcd⟩ := hleft d hd
    obtain ⟨e, -, he⟩ := hR.denotes hcd
    exact ⟨e, he⟩
  obtain ⟨hlive₁, hlisting₁⟩ := listing_after h hlive ops₁ htypes₁
  obtain ⟨hlive₂, hlisting₂⟩ := listing_after h hlive ops₂ htypes₂
  refine ⟨hlive₁, hlive₂, fun j₁ u₁ store₁ j₂ u₂ store₂ hl₁ hlineage₁ hl₂ hlineage₂ => ?_⟩
  obtain ⟨classes₁, hresult₁, hgained₁, hsorted₁, honce₁⟩ := hlisting₁ j₁ u₁ store₁ hl₁ hlineage₁
  obtain ⟨classes₂, hresult₂, hgained₂, hsorted₂, honce₂⟩ := hlisting₂ j₂ u₂ store₂ hl₂ hlineage₂
  have hsame : ∀ c d, R c d → (w.after ops₁).types.descriptor? c.type =
      (w.after ops₂).types.descriptor? d.type := by
    intro c d hcd
    obtain ⟨e, he, he'⟩ := hR.denotes hcd
    rw [he.descriptor?_eq, he'.descriptor?_eq]
  have hkey : ∀ c d, R c d → sortKey (w.after ops₁).types c = sortKey (w.after ops₂).types d := by
    intro c d hcd
    rw [sortKey, sortKey, hsame c d hcd]
  have hlists : List.Forall₂ R classes₁ classes₂ := by
    refine forall₂_of_increasing hkey hsorted₁ hsorted₂ (fun c hc => ?_) fun d hd => ?_
    · obtain ⟨d, hd, hcd⟩ := hright c (honce₁.only c hc)
      obtain ⟨d', hd', hsame⟩ := hgained₂ d hd
      exact ⟨d', hd', hR.sameAs hcd c.sameAs_refl hsame⟩
    · obtain ⟨c, hc, hcd⟩ := hleft d (honce₂.only d hd)
      obtain ⟨c', hc', hsame⟩ := hgained₁ c hc
      exact ⟨c', hc', hR.sameAs hcd hsame d.sameAs_refl⟩
  refine ⟨classes₁, classes₂, hresult₁, hresult₂, honce₁, honce₂, ?_, hlists, fun halike => ?_⟩
  · rw [← List.forall₂_eq_eq_eq, List.forall₂_map_left_iff, List.forall₂_map_right_iff]
    exact hlists.imp hsame
  · rw [← List.forall₂_eq_eq_eq, List.forall₂_map_left_iff, List.forall₂_map_right_iff]
    exact hlists.imp fun c d hcd => ClassDef.sameAs_iff.1 (halike c d hcd)

/-! ### Two classes in two orders -/

/-- A workspace with a snapshot over an empty store. -/
def unlisted : Workspace :=
  (fresh (.freshWith SymbolTable.byteSum) false).after [.openStore [], .openSnapshot 0 {}]

/-- A class without members under a number. -/
def numbered (n : Nat) : ClassDef := .ofClass ⟨n⟩ (some .object)

/-- `p/B` is named and given to the snapshot, and then `p/A` to its successor. -/
def backwards : List Operation :=
  [.intern (.classNamed "p/B"), .intern (.classNamed "p/A"), .synthesize 0 (numbered 13),
    .derive 0 [⟨13⟩] none, .synthesize 1 (numbered 14)]

/-- `p/A` is named and given to the snapshot, and then `p/B`, and `p/A` once more. -/
def forwards : List Operation :=
  [.intern (.classNamed "p/A"), .synthesize 0 (numbered 13), .intern (.classNamed "p/B"),
    .ask 0 (.members ⟨14⟩), .synthesize 0 (numbered 14), .synthesize 0 (numbered 13),
    .invalidate 0 ⟨13⟩]

/-- The classes that two descriptors name alike are the same here. -/
theorem identifies_named (t u : TypeTable) :
    Identifies t u fun c d => ∃ e, t.Denotes e c.type ∧ u.Denotes e d.type where
  denotes h := h
  sameAs h hc hd := by
    rw [ClassDef.type_eq_of_sameAs hc, ClassDef.type_eq_of_sameAs hd]
    exact h

/-- This workspace comes about. -/
theorem reachable_unlisted : unlisted.Reachable := ⟨_, _, _, rfl⟩

/-- The one run gives the lower number to `p/B`. -/
theorem denotes_backwards :
    (unlisted.after backwards).types.Denotes ⟨0, .object "p/B"⟩ ⟨13⟩ ∧
    (unlisted.after backwards).types.Denotes ⟨0, .object "p/A"⟩ ⟨14⟩ := by
  have hB : (TypeTable.classNamed "p/B" unlisted.types).1 = ⟨13⟩ := by decide +kernel
  have hA : (TypeTable.classNamed "p/A"
    (unlisted.perform (.intern (.classNamed "p/B"))).workspace.types).1 = ⟨14⟩ := by decide +kernel
  rw [backwards]
  refine ⟨reachable_unlisted.denotes_of_classNamed hB _, ?_⟩
  rw [after_cons]
  exact (reachable_unlisted.perform _).denotes_of_classNamed hA _

/-- The other run gives the lower number to `p/A`. -/
theorem denotes_forwards :
    (unlisted.after forwards).types.Denotes ⟨0, .object "p/A"⟩ ⟨13⟩ ∧
    (unlisted.after forwards).types.Denotes ⟨0, .object "p/B"⟩ ⟨14⟩ := by
  have hA : (TypeTable.classNamed "p/A" unlisted.types).1 = ⟨13⟩ := by decide +kernel
  have hB : (TypeTable.classNamed "p/B"
    ((unlisted.perform (.intern (.classNamed "p/A"))).workspace.perform
      (.synthesize 0 (numbered 13))).workspace.types).1 = ⟨14⟩ := by decide +kernel
  rw [forwards]
  refine ⟨reachable_unlisted.denotes_of_classNamed hA _, ?_⟩
  rw [after_cons, after_cons]
  exact ((reachable_unlisted.perform _).perform _).denotes_of_classNamed hB _

/-- The snapshot of this workspace. -/
def unlistedSnapshot : Snapshot := ⟨0, Snapshot.firstGeneration, 0, .empty, .empty, {}⟩

/-- The numbers are handed out the other way round, and so are the classes; the listings agree. -/
theorem listing_independent_of_numbers :
    unlisted.Reachable ∧ unlisted.live 0 = .ok (unlistedSnapshot, .empty) ∧
    ∃ classes₁ classes₂,
      ((unlisted.after backwards).synthesizedClasses 1).result = .ok classes₁ ∧
      ((unlisted.after forwards).synthesizedClasses 0).result = .ok classes₂ ∧
      (classes₁.map fun c => (unlisted.after backwards).types.descriptor? c.type) =
        (classes₂.map fun c => (unlisted.after forwards).types.descriptor? c.type) ∧
      ∀ n ∈ [13, 14], classes₁.countP (·.sameAs (numbered n)) = 1 ∧
        classes₂.countP (·.sameAs (numbered n)) = 1 := by
  obtain ⟨hB, hA⟩ := denotes_backwards
  obtain ⟨hA', hB'⟩ := denotes_forwards
  have hlive : unlisted.live 0 = .ok (unlistedSnapshot, .empty) := rfl
  have hown : unlisted.ownAfter unlistedSnapshot backwards = [numbered 13, numbered 14] := by
    decide +kernel
  have hown' : unlisted.ownAfter unlistedSnapshot forwards =
      [numbered 13, numbered 14, numbered 13] := by decide +kernel
  have hright : ∀ c ∈ unlisted.ownAfter unlistedSnapshot backwards,
      ∃ d ∈ unlisted.ownAfter unlistedSnapshot forwards, ∃ e,
        (unlisted.after backwards).types.Denotes e c.type ∧
          (unlisted.after forwards).types.Denotes e d.type := by
    rw [hown, hown']
    intro c hc
    rcases List.mem_pair.1 hc with rfl | rfl
    · exact ⟨numbered 14, by decide, _, hB, hB'⟩
    · exact ⟨numbered 13, by decide, _, hA, hA'⟩
  have hleft : ∀ d ∈ unlisted.ownAfter unlistedSnapshot forwards,
      ∃ c ∈ unlisted.ownAfter unlistedSnapshot backwards, ∃ e,
        (unlisted.after backwards).types.Denotes e c.type ∧
          (unlisted.after forwards).types.Denotes e d.type := by
    rw [hown, hown']
    intro d hd
    have hd' : d = numbered 13 ∨ d = numbered 14 := by
      simp only [List.mem_cons, List.not_mem_nil, or_false] at hd
      tauto
    rcases hd' with rfl | rfl
    · exact ⟨numbered 14, by decide, _, hA, hA'⟩
    · exact ⟨numbered 13, by decide, _, hB, hB'⟩
  obtain ⟨-, -, hlistings⟩ := listing_independent_of_order reachable_unlisted hlive
    (identifies_named _ _) hright hleft
  obtain ⟨classes₁, classes₂, hresult₁, hresult₂, honce₁, honce₂, hsame, -⟩ :=
    hlistings 1 _ _ 0 _ _ rfl rfl rfl rfl
  refine ⟨reachable_unlisted, hlive, classes₁, classes₂, hresult₁, hresult₂, hsame, fun n hn => ?_⟩
  rw [hown] at honce₁
  rw [hown'] at honce₂
  rcases List.mem_pair.1 hn with rfl | rfl
  · exact ⟨honce₁.once _ (by decide), honce₂.once _ (by decide)⟩
  · exact ⟨honce₁.once _ (by decide), honce₂.once _ (by decide)⟩

end Workspace

end Linkage
