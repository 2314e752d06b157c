import Linkage.Candidates
import Linkage.Proofs.Tour
import Mathlib.Data.List.Basic

/-!
# Shadowing

What is on record after declarations were added in some order: a type is shadowed exactly if it
is defined and one of the declaring types extends it, no matter in which order they came, and the
candidates left are among the declarations, in their order. The links need not be acyclic for
this: a type that extends itself shadows itself.

## Main results

* `shade_eq`: shadowing is a tour of the superinterfaces.
* `Shadowing.add`, `shadowing_foldl`: what one more declaration preserves, and what a whole list
  leaves on record.
* `Shadowing.mem_offers_iff`: the candidates left.
-/

namespace Linkage

open Relation

namespace View

/-- One type lists another among its interfaces. -/
def Lists (v : View) (t i : TypeId) : Prop := ∃ c, v.definition t = some c ∧ i ∈ c.interfaces

/-- The links from a type to its interfaces, in the order of their declaration. -/
def interfaceLinks (v : View) : Links where
  next t := (v.definition t).map ClassDef.interfaces
  domain := v.domain
  mem_domain h := by
    obtain ⟨c, hc, -⟩ := Option.map_eq_some_iff.1 h
    exact v.mem_domain hc

/-- Links lead from a type to the interfaces that its definition lists. -/
theorem next_interfaceLinks (v : View) (t : TypeId) :
    v.interfaceLinks.next t = (v.definition t).map ClassDef.interfaces := rfl

/-- Links lead from a type with a definition to all interfaces that this lists. -/
theorem next_interfaceLinks_defined {v : View} {t : TypeId} {c : ClassDef}
    (h : v.definition t = some c) : v.interfaceLinks.next t = some c.interfaces := by
  rw [next_interfaceLinks, h, Option.map_some]

/-- No links lead on from a type without a definition. -/
theorem next_interfaceLinks_undefined {v : View} {t : TypeId} (h : v.definition t = none) :
    v.interfaceLinks.next t = none := by
  rw [next_interfaceLinks, h, Option.map_none]

/-- A type has links exactly if it has a definition. -/
@[simp] theorem isSome_next_interfaceLinks (v : View) (t : TypeId) :
    (v.interfaceLinks.next t).isSome = (v.definition t).isSome := Option.isSome_map

/-- A link leads to an interface that is listed. -/
theorem step_interfaceLinks (v : View) : v.interfaceLinks.Step = v.Lists := by
  funext t i
  refine propext ⟨?_, ?_⟩
  · rintro ⟨us, hus, hi⟩
    obtain ⟨c, hc, rfl⟩ := Option.map_eq_some_iff.1 hus
    exact ⟨c, hc, hi⟩
  · rintro ⟨c, hc, hi⟩
    exact ⟨c.interfaces, next_interfaceLinks_defined hc, hi⟩

/-- From the interfaces of a type, links lead to what the type extends. -/
theorem reaches_interfaces_iff {v : View} {t u : TypeId} {c : ClassDef}
    (h : v.definition t = some c) :
    v.interfaceLinks.Reaches c.interfaces u ↔
      (v.definition u).isSome ∧ TransGen v.Lists t u := by
  rw [Links.Reaches, isSome_next_interfaceLinks, step_interfaceLinks, TransGen.head'_iff]
  refine and_congr_right fun _ => ⟨?_, ?_⟩
  · rintro ⟨i, hi, hpath⟩
    exact ⟨i, ⟨c, h, hi⟩, hpath⟩
  · rintro ⟨i, ⟨d, hd, hi⟩, hpath⟩
    obtain rfl : c = d := Option.some.inj (h.symm.trans hd)
    exact ⟨i, hi, hpath⟩

/-! ### Shadowing some types and all above them -/

/-- **Shadowing is a tour** of the superinterfaces that are not shadowed yet. -/
theorem shade_eq {v : View} {slots : OrderedMap TypeId Slot} {met ts : List TypeId}
    (hmet : ∀ t, t ∈ met ↔ slots.get? t = some .shadowed) :
    v.shade slots ts =
      (v.interfaceLinks.tour met ts).foldl (fun s t => s.insert t .shadowed) slots := by
  induction slots, ts using shade.induct v generalizing met with
  | case1 slots => simp
  | case2 slots t rest hc ih =>
      rw [shade_undefined hc, Links.tour_unlinked (next_interfaceLinks_undefined hc), ih hmet]
  | case3 slots t rest c hc hs ih =>
      rw [shade_shadowed hs, Links.tour_met ((hmet t).2 hs), ih hmet]
  | case4 slots t rest c hc hs _ ih =>
      have hmet' : ∀ u, u ∈ t :: met ↔
          (slots.insert t .shadowed).get? u = some .shadowed := by
        intro u
        rw [OrderedMap.get?_insert, List.mem_cons, hmet]
        by_cases htu : t = u
        · simp [htu]
        · simp [htu, Ne.symm htu]
      rw [shade_fresh hc hs, Links.tour_fresh (next_interfaceLinks_defined hc) fun h =>
        hs ((hmet t).1 h), List.foldl_cons, ih hmet']

/-- Whatever a list of types is shadowed in, the others keep what they have. -/
theorem get?_foldl_shadowed (ts : List TypeId) (slots : OrderedMap TypeId Slot) (u : TypeId) :
    (ts.foldl (fun s t => s.insert t Slot.shadowed) slots).get? u =
      if u ∈ ts then some .shadowed else slots.get? u := by
  induction ts generalizing slots with
  | nil => rfl
  | cons t ts ih =>
      rw [List.foldl_cons, ih, OrderedMap.get?_insert]
      by_cases hu : u ∈ ts
      · simp [hu]
      · by_cases htu : t = u
        · simp [htu]
        · simp [hu, htu, Ne.symm htu]

/-- What is on record is shadowed upwards: with a type, everything defined that it lists. -/
def ShadowsUpwards (v : View) (slots : OrderedMap TypeId Slot) : Prop :=
  ∀ {t u : TypeId}, slots.get? t = some .shadowed → v.Lists t u → (v.definition u).isSome →
    slots.get? u = some .shadowed

/-- **After shadowing**, the types are shadowed that were before, and those that links lead to. -/
theorem get?_shade_eq_shadowed_iff {v : View} {slots : OrderedMap TypeId Slot}
    (h : v.ShadowsUpwards slots) {ts : List TypeId} {u : TypeId} :
    (v.shade slots ts).get? u = some .shadowed ↔
      slots.get? u = some .shadowed ∨ v.interfaceLinks.Reaches ts u := by
  have hmet : ∀ t, t ∈ slots.keys.filter (fun t => slots.get? t = some .shadowed) ↔
      slots.get? t = some .shadowed := by
    intro t
    rw [List.mem_filter, decide_eq_true_eq, and_iff_right_iff_imp, ← slots.contains_iff_mem_keys]
    intro ht
    rw [OrderedMap.contains, ht]
    rfl
  have hclosed : v.interfaceLinks.Closed
      (slots.keys.filter fun t => slots.get? t = some .shadowed) := by
    intro t w ht hstep hw
    rw [step_interfaceLinks] at hstep
    rw [isSome_next_interfaceLinks] at hw
    exact (hmet w).2 (h ((hmet t).1 ht) hstep hw)
  rw [shade_eq hmet, get?_foldl_shadowed]
  have hmem := @Links.mem_tour_iff v.interfaceLinks _ ts u hclosed
  rw [hmet] at hmem
  by_cases hu : slots.get? u = some .shadowed
  · simp [hu]
  · by_cases hreach : v.interfaceLinks.Reaches ts u
    · simp [hmem.2 ⟨hreach, hu⟩, hreach]
    · rw [if_neg fun ht => hreach (hmem.1 ht).1]
      simp [hu, hreach]

end View

/-! ### The candidates on record -/

namespace Candidates

/-- The candidate that an entry holds. -/
def offer? : TypeId × Slot → Option (TypeId × Method)
  | (t, .candidate m) => some (t, m)
  | (_, .shadowed) => none

/-- The candidates are the entries that offer a method. -/
theorem offers_eq (cs : Candidates) : cs.offers = cs.slots.entries.filterMap offer? := by
  rw [offers]
  congr 1

/-- A type offers the method that it is recorded with. -/
theorem mem_offers {cs : Candidates} {t : TypeId} {m : Method} :
    (t, m) ∈ cs.offers ↔ cs.slots.get? t = some (.candidate m) := by
  rw [offers_eq, List.mem_filterMap, ← OrderedMap.mem_entries_iff]
  constructor
  · rintro ⟨⟨u, n | -⟩, hmem, heq⟩
    · obtain ⟨rfl, rfl⟩ : u = t ∧ n = m := by simpa [offer?] using heq
      exact hmem
    · simp [offer?] at heq
  · intro hmem
    exact ⟨_, hmem, rfl⟩

/-- A type is a candidate at most once. -/
theorem nodup_holders (cs : Candidates) : cs.holders.Nodup := by
  have hsublist (es : List (TypeId × Slot)) :
      ((es.filterMap offer?).map Prod.fst).Sublist (es.map Prod.fst) := by
    induction es with
    | nil => exact List.Sublist.refl _
    | cons e es ih =>
        obtain ⟨t, m | -⟩ := e
        · rw [List.filterMap_cons_some (f := offer?) rfl]
          exact ih.cons_cons t
        · rw [List.filterMap_cons_none (f := offer?) rfl]
          exact ih.cons t
  rw [holders, offers_eq]
  exact (hsublist cs.slots.entries).nodup cs.slots.nodup

/-- A shadowed type goes out of the candidates; the others keep their places. -/
theorem offers_put_shadowed (t : TypeId) (es : List (TypeId × Slot)) :
    ((OrderedMap.put t Slot.shadowed es).filterMap offer?).Sublist (es.filterMap offer?) := by
  induction es with
  | nil => exact List.Sublist.refl _
  | cons e es ih =>
      obtain ⟨u, s⟩ := e
      rw [OrderedMap.put]
      by_cases hu : u = t
      · rw [if_pos hu, List.filterMap_cons_none rfl]
        exact (List.sublist_cons_self _ _).filterMap _
      · rw [if_neg hu]
        cases s with
        | candidate m =>
            rw [List.filterMap_cons_some (f := offer?) rfl,
              List.filterMap_cons_some (f := offer?) rfl]
            exact ih.cons_cons _
        | shadowed =>
            rw [List.filterMap_cons_none rfl, List.filterMap_cons_none rfl]
            exact ih

/-- Shading a hierarchy leaves some of the candidates, in their order. -/
theorem offers_shade (v : View) (slots : OrderedMap TypeId Slot) (ts : List TypeId) :
    ((v.shade slots ts).entries.filterMap offer?).Sublist (slots.entries.filterMap offer?) := by
  induction slots, ts using View.shade.induct v with
  | case1 slots => rw [View.shade_nil]
  | case2 slots t rest hc ih => rwa [View.shade_undefined hc]
  | case3 slots t rest c hc hs ih => rwa [View.shade_shadowed hs]
  | case4 slots t rest c hc hs _ ih =>
      rw [View.shade_fresh hc hs]
      exact ih.trans (offers_put_shadowed t slots.entries)

/-- What is recorded stays so when a hierarchy is shaded. -/
theorem contains_shade (v : View) (slots : OrderedMap TypeId Slot) (ts : List TypeId) {u : TypeId}
    (h : slots.contains u = true) : (v.shade slots ts).contains u = true := by
  induction slots, ts using View.shade.induct v with
  | case1 slots => rwa [View.shade_nil]
  | case2 slots t rest hc ih =>
      rw [View.shade_undefined hc]
      exact ih h
  | case3 slots t rest c hc hs ih =>
      rw [View.shade_shadowed hs]
      exact ih h
  | case4 slots t rest c hc hs _ ih =>
      rw [View.shade_fresh hc hs]
      refine ih ?_
      rw [OrderedMap.contains, OrderedMap.get?_insert]
      split
      · rfl
      · exact h

/-! ### Adding declarations -/

/-- A type that is not recorded becomes a candidate, and what it extends is shaded. -/
theorem add_of_not_recorded {cs : Candidates} {c : ClassDef}
    (h : cs.slots.contains c.type = false) (v : View) (m : Method) :
    (cs.add v c m).slots = v.shade (cs.slots.insert c.type (.candidate m)) c.interfaces := by
  rw [add, if_neg (by simp [h])]

/-- Adding takes nothing off the record. -/
theorem contains_add (v : View) (c : ClassDef) (m : Method) {cs : Candidates} {u : TypeId}
    (h : cs.slots.contains u = true) : (cs.add v c m).slots.contains u = true := by
  cases hc : cs.slots.contains c.type with
  | true => rwa [add_of_recorded hc]
  | false =>
      rw [add_of_not_recorded hc]
      refine contains_shade v _ _ ?_
      rw [OrderedMap.contains, OrderedMap.get?_insert]
      split
      · rfl
      · exact h

/-- What is added is on record. -/
theorem contains_add_self (v : View) (c : ClassDef) (m : Method) (cs : Candidates) :
    (cs.add v c m).slots.contains c.type = true := by
  cases hc : cs.slots.contains c.type with
  | true => rwa [add_of_recorded hc]
  | false =>
      rw [add_of_not_recorded hc]
      refine contains_shade v _ _ ?_
      rw [OrderedMap.contains, OrderedMap.get?_insert_self]
      rfl

/-- A declaration adds one candidate at most, behind those that there are. -/
theorem offers_add (v : View) (c : ClassDef) (m : Method) (cs : Candidates) :
    (cs.add v c m).offers.Sublist (cs.offers ++ [(c.type, m)]) := by
  cases hc : cs.slots.contains c.type with
  | true =>
      rw [add_of_recorded hc]
      exact List.sublist_append_left _ _
  | false =>
      have hnew : cs.slots.get? c.type = none := by
        simpa [OrderedMap.contains] using hc
      have hentries : (cs.slots.insert c.type (.candidate m)).entries =
          cs.slots.entries ++ [(c.type, .candidate m)] :=
        OrderedMap.put_of_notMem _ (OrderedMap.find_eq_none_iff.1 hnew)
      have hsublist := offers_shade v (cs.slots.insert c.type (.candidate m)) c.interfaces
      rw [hentries, List.filterMap_append, ← offers_eq] at hsublist
      rw [offers_eq, add_of_not_recorded hc]
      exact hsublist

/-- A list of declarations adds no more candidates than there are declarations. -/
theorem offers_foldl_add (v : View) (ds : List (ClassDef × Method)) (cs : Candidates) :
    (ds.foldl (fun cs d => cs.add v d.1 d.2) cs).offers.Sublist
      (cs.offers ++ ds.map fun d => (d.1.type, d.2)) := by
  induction ds generalizing cs with
  | nil => exact List.sublist_append_left _ _
  | cons d ds ih =>
      have hadd := (offers_add v d.1 d.2 cs).append_right (ds.map fun d => (d.1.type, d.2))
      rw [List.append_assoc] at hadd
      exact (ih (cs.add v d.1 d.2)).trans hadd

/-- What is on record once the declarations `ds` were added in order. -/
structure Shadowing (v : View) (ds : List (ClassDef × Method)) (cs : Candidates) : Prop where
  recorded : ∀ {d}, d ∈ ds → cs.slots.contains d.1.type = true
  shadowed_iff : ∀ {t}, cs.slots.get? t = some .shadowed ↔
    (v.definition t).isSome ∧ ∃ d ∈ ds, TransGen v.Lists d.1.type t
  offers_sublist : cs.offers.Sublist (ds.map fun d => (d.1.type, d.2))

variable {v : View}

/-- At the start nothing is on record. -/
theorem shadowing_empty (v : View) : Shadowing v [] empty where
  recorded h := absurd h List.not_mem_nil
  shadowed_iff := by simp [empty]
  offers_sublist := List.Sublist.refl _

/-- What is shadowed is shadowed upwards. -/
theorem Shadowing.shadowsUpwards {ds : List (ClassDef × Method)} {cs : Candidates}
    (h : Shadowing v ds cs) : v.ShadowsUpwards cs.slots := by
  intro t u ht hlists hu
  obtain ⟨-, d, hd, hpath⟩ := h.shadowed_iff.1 ht
  exact h.shadowed_iff.2 ⟨hu, d, hd, hpath.tail hlists⟩

/-- A type on record has been added, or a type that was added extends it. -/
theorem Shadowing.exists_of_contains {ds : List (ClassDef × Method)} {cs : Candidates}
    (h : Shadowing v ds cs) {t : TypeId} (ht : cs.slots.contains t = true) :
    ∃ d ∈ ds, ReflTransGen v.Lists d.1.type t := by
  obtain ⟨m | -, hs⟩ := Option.isSome_iff_exists.1 ht
  · have hmem := h.offers_sublist.subset (mem_offers.2 hs)
    obtain ⟨d, hd, heq⟩ := List.mem_map.1 hmem
    obtain ⟨rfl, -⟩ := Prod.mk.inj heq
    exact ⟨d, hd, .refl⟩
  · obtain ⟨-, d, hd, hpath⟩ := h.shadowed_iff.1 hs
    exact ⟨d, hd, hpath.to_reflTransGen⟩

/-- A declaration of a type on record adds nothing: what the type extends is shadowed already. -/
theorem Shadowing.add_of_contains {ds : List (ClassDef × Method)} {cs : Candidates}
    (h : Shadowing v ds cs) {d : ClassDef × Method}
    (hc : cs.slots.contains d.1.type = true) : Shadowing v (ds ++ [d]) (cs.add v d.1 d.2) := by
  rw [add_of_recorded hc]
  refine ⟨?_, ?_, ?_⟩
  · intro e he
    rcases List.mem_append.1 he with he | he
    · exact h.recorded he
    · obtain rfl := List.mem_singleton.1 he
      exact hc
  · intro t
    rw [h.shadowed_iff]
    refine and_congr_right fun _ => ⟨?_, ?_⟩
    · rintro ⟨e, he, hpath⟩
      exact ⟨e, List.mem_append_left _ he, hpath⟩
    · rintro ⟨e, he, hpath⟩
      rcases List.mem_append.1 he with he | he
      · exact ⟨e, he, hpath⟩
      · obtain rfl := List.mem_singleton.1 he
        obtain ⟨f, hf, hto⟩ := h.exists_of_contains hc
        exact ⟨f, hf, TransGen.trans_right hto hpath⟩
  · rw [List.map_append]
    exact h.offers_sublist.trans (List.sublist_append_left _ _)

/-- A declaration of a new type makes it the last candidate, and shadows what it extends. -/
theorem Shadowing.add_of_not_contains {ds : List (ClassDef × Method)} {cs : Candidates}
    (h : Shadowing v ds cs) {d : ClassDef × Method} (hd : v.definition d.1.type = some d.1)
    (hc : cs.slots.contains d.1.type = false) : Shadowing v (ds ++ [d]) (cs.add v d.1 d.2) := by
  have hnew : cs.slots.get? d.1.type = none := by
    simpa [OrderedMap.contains] using hc
  have hinsert : ∀ t, (cs.slots.insert d.1.type (.candidate d.2)).get? t = some .shadowed ↔
      cs.slots.get? t = some .shadowed := by
    intro t
    rw [OrderedMap.get?_insert]
    split
    · next heq => simp [← heq, hnew]
    · rfl
  have hupwards : v.ShadowsUpwards (cs.slots.insert d.1.type (.candidate d.2)) := by
    intro t u ht hlists hu
    rw [hinsert] at ht ⊢
    exact h.shadowsUpwards ht hlists hu
  refine ⟨?_, ?_, ?_⟩
  · intro e he
    rcases List.mem_append.1 he with he | he
    · exact contains_add v _ _ (h.recorded he)
    · obtain rfl := List.mem_singleton.1 he
      exact contains_add_self v _ _ cs
  · intro t
    rw [add_of_not_recorded hc, View.get?_shade_eq_shadowed_iff hupwards, hinsert,
      h.shadowed_iff, View.reaches_interfaces_iff hd, ← and_or_left]
    refine and_congr_right fun _ => ?_
    simp only [List.mem_append, List.mem_singleton, or_and_right, exists_or, exists_eq_left]
  · rw [List.map_append]
    exact (offers_add v d.1 d.2 cs).trans (h.offers_sublist.append (List.Sublist.refl _))

/-- **One more declaration** leaves the record as described. -/
theorem Shadowing.add {ds : List (ClassDef × Method)} {cs : Candidates} (h : Shadowing v ds cs)
    {d : ClassDef × Method} (hd : v.definition d.1.type = some d.1) :
    Shadowing v (ds ++ [d]) (cs.add v d.1 d.2) := by
  cases hc : cs.slots.contains d.1.type with
  | true => exact h.add_of_contains hc
  | false => exact h.add_of_not_contains hd hc

/-- **A list of declarations** is on record as described once all were added. -/
theorem shadowing_foldl {ds : List (ClassDef × Method)}
    (hds : ∀ d ∈ ds, v.definition d.1.type = some d.1) :
    Shadowing v ds (ds.foldl (fun cs d => cs.add v d.1 d.2) empty) := by
  have hfold : ∀ (es fs : List (ClassDef × Method)) (cs : Candidates), Shadowing v es cs →
      (∀ d ∈ fs, v.definition d.1.type = some d.1) →
      Shadowing v (es ++ fs) (fs.foldl (fun cs d => cs.add v d.1 d.2) cs) := by
    intro es fs
    induction fs generalizing es with
    | nil =>
        intro cs h _
        rwa [List.append_nil]
    | cons d fs ih =>
        intro cs h hfs
        have hrest := ih (es ++ [d]) _ (h.add (hfs d List.mem_cons_self)) fun e he =>
          hfs e (List.mem_cons_of_mem _ he)
        rwa [List.append_assoc] at hrest
  exact hfold [] ds empty (shadowing_empty v) hds

/-- **The candidates left** are the declarations of types that no declaring type extends. Of each
type there must be one declaration only. -/
theorem Shadowing.mem_offers_iff {ds : List (ClassDef × Method)} {cs : Candidates}
    (h : Shadowing v ds cs) (hds : ∀ d ∈ ds, v.definition d.1.type = some d.1)
    (hfun : ∀ d ∈ ds, ∀ e ∈ ds, d.1.type = e.1.type → d.2 = e.2) {t : TypeId} {m : Method} :
    (t, m) ∈ cs.offers ↔
      (∃ d ∈ ds, d.1.type = t ∧ d.2 = m) ∧ ∀ d ∈ ds, ¬ TransGen v.Lists d.1.type t := by
  constructor
  · intro hmem
    have hslot := mem_offers.1 hmem
    obtain ⟨d, hd, heq⟩ := List.mem_map.1 (h.offers_sublist.subset hmem)
    obtain ⟨rfl, rfl⟩ := Prod.mk.inj heq
    refine ⟨⟨d, hd, rfl, rfl⟩, fun e he hpath => ?_⟩
    have hshadowed := h.shadowed_iff.2 ⟨by rw [hds d hd]; rfl, e, he, hpath⟩
    rw [hslot] at hshadowed
    simp at hshadowed
  · rintro ⟨⟨d, hd, rfl, rfl⟩, hnone⟩
    rw [mem_offers]
    obtain ⟨n | -, hs⟩ := Option.isSome_iff_exists.1 (h.recorded hd)
    · obtain ⟨e, he, heq⟩ := List.mem_map.1 (h.offers_sublist.subset (mem_offers.2 hs))
      obtain ⟨htype, rfl⟩ := Prod.mk.inj heq
      rw [hs, hfun d hd e he htype.symm]
    · obtain ⟨-, e, he, hpath⟩ := h.shadowed_iff.1 hs
      exact absurd hpath (hnone e he)

end Candidates

end Linkage
