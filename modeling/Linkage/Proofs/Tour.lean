import Linkage.View
import Mathlib.Logic.Relation

/-!
# Depth-First Tours

The order in which a depth-first traversal first meets the types of a hierarchy. Which links it
follows is a parameter, `Links`: the links to superinterfaces, or those to all supertypes. A type
without links of its own is one without a definition, and is not met.

The tour is written over a list of what is pending, like the searches it is compared with; the
types met so far are passed along. A search that looks at part of a hierarchy only, or that
stops early, is compared with the tour by restricting the links.

## Main results

* `mem_tour_iff`: a tour meets the linked types that can be reached, no more and no fewer.
* `nodup_tour`: it meets each of them once.
* `filter_tour`: the types of a part that is never entered from outside come in the order in
  which a tour of the part meets them.
-/

namespace Linkage

open Relation

/-- Links between types, in order. Only finitely many types have links of their own. -/
structure Links where
  next : TypeId → Option (List TypeId)
  domain : List TypeId
  mem_domain : ∀ {t : TypeId} {us : List TypeId}, next t = some us → t ∈ domain

namespace Links

/-- A link from one type to another. -/
def Step (g : Links) (t u : TypeId) : Prop := ∃ us, g.next t = some us ∧ u ∈ us

/-- Links lead from one of the given types to a type that has links of its own. -/
def Reaches (g : Links) (roots : List TypeId) (t : TypeId) : Prop :=
  (g.next t).isSome ∧ ∃ r ∈ roots, ReflTransGen g.Step r t

/-- The number of linked types that are not in a list. -/
def outside (g : Links) (met : List TypeId) : Nat := g.domain.countP fun t => t ∉ met

/-- Fewer types are left when one more with links is met. -/
theorem outside_cons_lt {g : Links} {t : TypeId} {us met : List TypeId}
    (hnext : g.next t = some us) (hnew : t ∉ met) : g.outside (t :: met) < g.outside met := by
  refine View.countP_lt_countP ?_ (g.mem_domain hnext) (by simp) (by simpa using hnew)
  intro u hu
  simp only [List.mem_cons, not_or, decide_eq_true_eq] at hu ⊢
  exact hu.2

/-- **The depth-first tour** of what is pending: each linked type where it is first met, before
the types that it links to. The types in `met` have been met already. -/
def tour (g : Links) (met : List TypeId) : List TypeId → List TypeId
  | [] => []
  | t :: rest =>
    match h : g.next t with
    | none => g.tour met rest
    | some us =>
      if ht : t ∈ met then g.tour met rest
      else
        have := outside_cons_lt h ht
        t :: g.tour (t :: met) (us ++ rest)
termination_by pending => (g.outside met, pending.length)

/-! ### The tour, type by type -/

/-- A tour of nothing is over. -/
@[simp] theorem tour_nil (g : Links) (met : List TypeId) : g.tour met [] = [] := by
  rw [tour]

/-- A type without links is left out. -/
theorem tour_unlinked {g : Links} {t : TypeId} (h : g.next t = none) (met rest : List TypeId) :
    g.tour met (t :: rest) = g.tour met rest := by
  rw [tour]
  split <;> simp_all

/-- A type that was met is left out. -/
theorem tour_met {g : Links} {t : TypeId} {met : List TypeId} (h : t ∈ met)
    (rest : List TypeId) : g.tour met (t :: rest) = g.tour met rest := by
  rw [tour]
  split <;> simp_all

/-- Any other type is met, and its links come next. -/
theorem tour_fresh {g : Links} {t : TypeId} {us met : List TypeId} (h : g.next t = some us)
    (ht : t ∉ met) (rest : List TypeId) :
    g.tour met (t :: rest) = t :: g.tour (t :: met) (us ++ rest) := by
  rw [tour]
  split <;> simp_all

/-! ### Which types a tour meets -/

/-- A tour meets only linked types that can be reached, and none again. -/
theorem of_mem_tour {g : Links} {met pending : List TypeId} {t : TypeId}
    (h : t ∈ g.tour met pending) : g.Reaches pending t ∧ t ∉ met := by
  induction met, pending using tour.induct g with
  | case1 met => simp at h
  | case2 met u rest hu ih =>
      rw [tour_unlinked hu] at h
      obtain ⟨⟨hlinked, r, hr, hpath⟩, hmet⟩ := ih h
      exact ⟨⟨hlinked, r, List.mem_cons_of_mem _ hr, hpath⟩, hmet⟩
  | case3 met u rest us hu humet ih =>
      rw [tour_met humet] at h
      obtain ⟨⟨hlinked, r, hr, hpath⟩, hmet⟩ := ih h
      exact ⟨⟨hlinked, r, List.mem_cons_of_mem _ hr, hpath⟩, hmet⟩
  | case4 met u rest us hu humet _ ih =>
      rw [tour_fresh hu humet] at h
      rcases List.mem_cons.1 h with rfl | h
      · exact ⟨⟨by rw [hu]; rfl, t, List.mem_cons_self, .refl⟩, humet⟩
      · obtain ⟨⟨hlinked, r, hr, hpath⟩, hmet⟩ := ih h
        refine ⟨⟨hlinked, ?_⟩, fun hmem => hmet (List.mem_cons_of_mem _ hmem)⟩
        rcases List.mem_append.1 hr with hr | hr
        · exact ⟨u, List.mem_cons_self, .head ⟨us, hu, hr⟩ hpath⟩
        · exact ⟨r, List.mem_cons_of_mem _ hr, hpath⟩

/-- A tour meets no type twice. -/
theorem nodup_tour (g : Links) (met pending : List TypeId) : (g.tour met pending).Nodup := by
  induction met, pending using tour.induct g with
  | case1 met => simp
  | case2 met u rest hu ih => rwa [tour_unlinked hu]
  | case3 met u rest us hu humet ih => rwa [tour_met humet]
  | case4 met u rest us hu humet _ ih =>
      rw [tour_fresh hu humet, List.nodup_cons]
      exact ⟨fun hmem => (of_mem_tour hmem).2 List.mem_cons_self, ih⟩

/-- The invariant of a tour: what the types met so far link to has been met or is pending. -/
def Covered (g : Links) (met pending : List TypeId) : Prop :=
  ∀ {u w : TypeId}, u ∈ met → g.Step u w → (g.next w).isSome → w ∈ met ∨ w ∈ pending

/-- With the invariant, everything pending is met, and so is everything it links to. -/
theorem tour_complete {g : Links} {met pending : List TypeId} (h : g.Covered met pending) :
    (∀ w ∈ pending, (g.next w).isSome → w ∈ met ∨ w ∈ g.tour met pending) ∧
      ∀ u w, (u ∈ met ∨ u ∈ g.tour met pending) → g.Step u w → (g.next w).isSome →
        w ∈ met ∨ w ∈ g.tour met pending := by
  induction met, pending using tour.induct g with
  | case1 met =>
      refine ⟨by simp, fun u w hu hstep hw => ?_⟩
      rw [tour_nil] at hu ⊢
      exact h (hu.resolve_right List.not_mem_nil) hstep hw
  | case2 met u rest hu ih =>
      have hrest := ih fun {a b} ha hstep hb => by
        rcases h ha hstep hb with hmet | hmem
        · exact .inl hmet
        · refine .inr ((List.mem_cons.1 hmem).resolve_left ?_)
          rintro rfl
          rw [hu] at hb
          simp at hb
      rw [tour_unlinked hu]
      refine ⟨fun w hw hlinked => ?_, hrest.2⟩
      rcases List.mem_cons.1 hw with rfl | hw
      · rw [hu] at hlinked
        simp at hlinked
      · exact hrest.1 w hw hlinked
  | case3 met u rest us hu humet ih =>
      have hrest := ih fun {a b} ha hstep hb => by
        rcases h ha hstep hb with hmet | hmem
        · exact .inl hmet
        · rcases List.mem_cons.1 hmem with rfl | hmem
          · exact .inl humet
          · exact .inr hmem
      rw [tour_met humet]
      refine ⟨fun w hw hlinked => ?_, hrest.2⟩
      rcases List.mem_cons.1 hw with rfl | hw
      · exact .inl humet
      · exact hrest.1 w hw hlinked
  | case4 met u rest us hu humet _ ih =>
      have hrest := ih fun {a b} ha hstep hb => by
        rcases List.mem_cons.1 ha with rfl | ha
        · obtain ⟨ws, hws, hmem⟩ := hstep
          obtain rfl : us = ws := Option.some.inj (hu.symm.trans hws)
          exact .inr (List.mem_append_left _ hmem)
        · rcases h ha hstep hb with hmet | hmem
          · exact .inl (List.mem_cons_of_mem _ hmet)
          · rcases List.mem_cons.1 hmem with rfl | hmem
            · exact .inl List.mem_cons_self
            · exact .inr (List.mem_append_right _ hmem)
      have hmove : ∀ w, (w ∈ u :: met ∨ w ∈ g.tour (u :: met) (us ++ rest)) ↔
          (w ∈ met ∨ w ∈ u :: g.tour (u :: met) (us ++ rest)) := by
        intro w
        rw [List.mem_cons, List.mem_cons, or_right_comm, or_assoc, or_comm, or_assoc]
        refine ⟨?_, ?_⟩ <;> rintro (h | h | h) <;> simp [h]
      rw [tour_fresh hu humet]
      constructor
      · intro w hw hlinked
        rw [← hmove]
        rcases List.mem_cons.1 hw with rfl | hw
        · exact .inl List.mem_cons_self
        · exact hrest.1 w (List.mem_append_right _ hw) hlinked
      · intro a b ha hstep hb
        rw [← hmove] at ha ⊢
        exact hrest.2 a b ha hstep hb

/-- A list of types from which no link leads out, save to types without links of their own. -/
def Closed (g : Links) (met : List TypeId) : Prop :=
  ∀ {u w : TypeId}, u ∈ met → g.Step u w → (g.next w).isSome → w ∈ met

/-- No links lead out of nothing. -/
theorem closed_nil (g : Links) : g.Closed [] := fun h => absurd h List.not_mem_nil

/-- **A tour meets exactly the linked types that can be reached**, save those met before, if
everything that these lead to has been met before as well. -/
theorem mem_tour_iff {g : Links} {met roots : List TypeId} {t : TypeId} (h : g.Closed met) :
    t ∈ g.tour met roots ↔ g.Reaches roots t ∧ t ∉ met := by
  constructor
  · exact of_mem_tour
  · rintro ⟨⟨hlinked, r, hr, hpath⟩, hmet⟩
    obtain ⟨hroots, hclosed⟩ :=
      @tour_complete g met roots fun ha hstep hb => .inl (h ha hstep hb)
    refine Or.resolve_left ?_ hmet
    -- every type on the path has links: the last one by assumption, the others by their step
    clear hmet
    induction hpath with
    | refl => exact hroots r hr hlinked
    | @tail a b hpath hstep ih =>
        obtain ⟨us, hus, -⟩ := id hstep
        exact hclosed a b (ih (by rw [hus]; rfl)) hstep hlinked

/-! ### Tours of a part of a hierarchy -/

/-- The links among the types of a part. -/
def restrict (g : Links) (p : TypeId → Bool) : Links where
  next t := (g.next t).map (List.filter p)
  domain := g.domain
  mem_domain h := by
    obtain ⟨us, hus, -⟩ := Option.map_eq_some_iff.1 h
    exact g.mem_domain hus

/-- The links of a part are those that stay in it. -/
@[simp] theorem next_restrict (g : Links) (p : TypeId → Bool) (t : TypeId) :
    (g.restrict p).next t = (g.next t).map (List.filter p) := rfl

/-- **The order among the types of a part** is that of a tour of the part alone, if no link leads
back into the part from outside. Links may be left out of the part as long as they are left out
of types that cannot be reached. -/
theorem filter_tour {g h : Links} {p : TypeId → Bool} {met met' pending : List TypeId}
    (hout : ∀ ⦃r t u⦄, r ∈ pending → ReflTransGen g.Step r t → p t = false → g.Step t u →
      p u = false)
    (hnext : ∀ ⦃r t⦄, r ∈ pending → ReflTransGen g.Step r t → p t = true →
      h.next t = (g.restrict p).next t)
    (hmet : ∀ ⦃t⦄, p t = true → (t ∈ met ↔ t ∈ met')) :
    (g.tour met pending).filter p = h.tour met' (pending.filter p) := by
  induction met, pending using tour.induct g generalizing met' with
  | case1 met => simp
  | case2 met u rest hu ih =>
      have hrest := ih (fun _ _ _ hr => hout (List.mem_cons_of_mem _ hr))
        (fun _ _ hr => hnext (List.mem_cons_of_mem _ hr)) hmet
      rw [tour_unlinked hu, hrest]
      cases hp : p u with
      | false => rw [List.filter_cons_of_neg (by simp [hp])]
      | true =>
          have hu' : h.next u = none := by
            rw [hnext List.mem_cons_self .refl hp, next_restrict, hu]
            rfl
          rw [List.filter_cons_of_pos hp, tour_unlinked hu']
  | case3 met u rest us hu humet ih =>
      have hrest := ih (fun _ _ _ hr => hout (List.mem_cons_of_mem _ hr))
        (fun _ _ hr => hnext (List.mem_cons_of_mem _ hr)) hmet
      rw [tour_met humet, hrest]
      cases hp : p u with
      | false => rw [List.filter_cons_of_neg (by simp [hp])]
      | true => rw [List.filter_cons_of_pos hp, tour_met ((hmet hp).1 humet)]
  | case4 met u rest us hu humet _ ih =>
      -- what can be reached from the links of a pending type can be reached from the type
      have hfrom : ∀ ⦃r t⦄, r ∈ us ++ rest → ReflTransGen g.Step r t →
          ∃ s ∈ u :: rest, ReflTransGen g.Step s t := by
        intro r t hr hpath
        rcases List.mem_append.1 hr with hr | hr
        · exact ⟨u, List.mem_cons_self, .head ⟨us, hu, hr⟩ hpath⟩
        · exact ⟨r, List.mem_cons_of_mem _ hr, hpath⟩
      have hout' : ∀ ⦃r t w⦄, r ∈ us ++ rest → ReflTransGen g.Step r t → p t = false →
          g.Step t w → p w = false := by
        intro r t w hr hpath
        obtain ⟨s, hs, hpath⟩ := hfrom hr hpath
        exact hout hs hpath
      have hnext' : ∀ ⦃r t⦄, r ∈ us ++ rest → ReflTransGen g.Step r t → p t = true →
          h.next t = (g.restrict p).next t := by
        intro r t hr hpath
        obtain ⟨s, hs, hpath⟩ := hfrom hr hpath
        exact hnext hs hpath
      rw [tour_fresh hu humet]
      cases hp : p u with
      | false =>
          have hrest := @ih met' hout' hnext' fun t ht => by
            rw [← hmet ht, List.mem_cons, or_iff_right]
            rintro rfl
            rw [hp] at ht
            exact absurd ht Bool.false_ne_true
          -- outside the part, everything above stays outside
          have hus : us.filter p = [] := by
            rw [List.filter_eq_nil_iff]
            intro w hw
            simpa using hout List.mem_cons_self .refl hp ⟨us, hu, hw⟩
          rw [List.filter_cons_of_neg (by simp [hp]), List.filter_cons_of_neg (by simp [hp]),
            hrest, List.filter_append, hus, List.nil_append]
      | true =>
          have hrest := @ih (u :: met') hout' hnext' fun t ht => by
            rw [List.mem_cons, List.mem_cons, hmet ht]
          have hu' : h.next u = some (us.filter p) := by
            rw [hnext List.mem_cons_self .refl hp, next_restrict, hu]
            rfl
          rw [List.filter_cons_of_pos hp, List.filter_cons_of_pos hp,
            tour_fresh hu' fun hmem => humet ((hmet hp).2 hmem), hrest, List.filter_append]

end Links

end Linkage
