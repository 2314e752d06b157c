import Linkage.FieldSearch
import Mathlib.Logic.Relation

/-!
# Pruning of the Field Search

The field search enters no type twice. Its depth bound is counted along each path, though, while
the types it has entered are shared by all paths: a type that was entered close to the bound is
passed over when a shorter path leads to it, and what lies above it within the reach of the shorter
path is not looked at. The answer may differ from that of the plain recursion that keeps no record
of the types it was at.

Here the two are compared exactly. A run of the search is written out as the list of its visits,
and the plain recursion finds what the search finds unless a field is missed at a type passed over
before. In a hierarchy without cycles, the first field missed is always above a type that was
entered on a longer path.

## Main definitions

* `View.look`: the plain recursion.
* `View.visits`: the types that the search enters and those that it passes over.
* `View.missed?`: what the plain recursion finds at a type passed over.

## Main results

* `findSome?_look`: the plain recursion finds what is missed first, or else what the search finds.
* `exists_enters_of_missed`: where something is missed in a hierarchy without cycles.
* `resolveField_eq_look_iff`: when pruning changes nothing.
* `resolveField_ne_look`: a hierarchy in which it does.
-/

namespace Linkage

open Relation

namespace View

variable {v : View} {sig : FieldSig}

/-! ### The plain recursion -/

/-- Looks for a field at a type and above it, fewer than `n` links away. -/
def lookWithin (v : View) (sig : FieldSig) : Nat → TypeId → Option Field
  | 0, _ => none
  | n + 1, t =>
    match v.definition t with
    | none => none
    | some c =>
      ((v.table t).field? sig).or
        ((c.interfaces.findSome? (v.lookWithin sig n)).or
          (c.superType.bind (v.lookWithin sig n)))

/-- Looks for a field at a type that `k` links lead to. -/
def look (v : View) (sig : FieldSig) (t : TypeId) (k : Nat) : Option Field :=
  v.lookWithin sig (v.bound + 1 - k) t

/-- **The plain recursion**: nothing beyond the bound, and nothing at a type that is not known;
otherwise the type's own field, or what is found at its interfaces in order, or at its super
type. -/
theorem look_eq (v : View) (sig : FieldSig) (t : TypeId) (k : Nat) :
    v.look sig t k =
      if v.bound < k then none
      else
        match v.definition t with
        | none => none
        | some c =>
          ((v.table t).field? sig).or
            ((c.interfaces.findSome? fun i => v.look sig i (k + 1)).or
              (c.superType.bind fun s => v.look sig s (k + 1))) := by
  by_cases hk : v.bound < k
  · have hzero : v.bound + 1 - k = 0 := by omega
    rw [if_pos hk, look, hzero, lookWithin]
  · have hsucc : v.bound + 1 - k = (v.bound + 1 - (k + 1)) + 1 := by omega
    rw [if_neg hk, look, hsucc, lookWithin]
    rfl

/-- Nothing is found beyond the bound. -/
theorem look_cut {t : TypeId} {k : Nat} (h : v.bound < k) : v.look sig t k = none := by
  rw [look_eq, if_pos h]

/-- Nothing is found above a type without a definition. -/
theorem look_undefined {t : TypeId} (hc : v.definition t = none) (k : Nat) :
    v.look sig t k = none := by
  rw [look_eq, hc]
  split <;> rfl

/-- A type within the bound that declares the field has it. -/
theorem look_declares {t : TypeId} {k : Nat} (hk : k ≤ v.bound) {c : ClassDef}
    (hc : v.definition t = some c) {f : Field} (hf : (v.table t).field? sig = some f) :
    v.look sig t k = some f := by
  rw [look_eq, if_neg (Nat.not_lt.2 hk), hc]
  simp only [hf, Option.some_or]

/-- Where the field is not declared, the supertypes are looked at in order. -/
theorem look_expands {t : TypeId} {k : Nat} (hk : k ≤ v.bound) {c : ClassDef}
    (hc : v.definition t = some c) (hf : (v.table t).field? sig = none) :
    v.look sig t k = (c.supertypes.map (·, k + 1)).findSome? fun p => v.look sig p.1 p.2 := by
  rw [look_eq, if_neg (Nat.not_lt.2 hk), hc]
  simp only [hf, Option.none_or]
  rw [ClassDef.supertypes, List.findSome?_map, List.findSome?_append]
  cases c.superType <;> simp [Function.comp_def]

/-- With more links to go, no less is found. -/
theorem lookWithin_eq_none {m n : Nat} {t : TypeId} (h : v.lookWithin sig n t = none)
    (hmn : m ≤ n) : v.lookWithin sig m t = none := by
  induction n generalizing m t with
  | zero =>
      obtain rfl : m = 0 := by omega
      exact h
  | succ n ih =>
      cases m with
      | zero => rfl
      | succ m =>
          have hle : m ≤ n := by omega
          rw [lookWithin] at h ⊢
          cases hc : v.definition t with
          | none => rfl
          | some c =>
              simp only [hc, Option.or_eq_none_iff, List.findSome?_eq_none_iff,
                Option.bind_eq_none_iff] at h ⊢
              obtain ⟨hown, hinterfaces, hsuper⟩ := h
              exact ⟨hown, fun i hi => ih (hinterfaces i hi) hle,
                fun s hs => ih (hsuper s hs) hle⟩

/-- Nor is less found on a shorter path. -/
theorem look_eq_none_of_le {t : TypeId} {j k : Nat} (h : v.look sig t j = none) (hjk : j ≤ k) :
    v.look sig t k = none :=
  lookWithin_eq_none h (by omega)

/-! ### The visits of the search -/

/-- What the search does at a type within the bound: it enters the type, or passes over it. -/
inductive Visit
  | enters (t : TypeId) (depth : Nat)
  | passes (t : TypeId) (depth : Nat)
deriving DecidableEq, Repr

/-- **The visits of a search**, in order. -/
def visits (v : View) (sig : FieldSig) (searched : List TypeId) :
    List (TypeId × Nat) → List Visit
  | [] => []
  | (t, depth) :: rest =>
    if v.bound < depth then v.visits sig searched rest
    else if ht : t ∈ searched then .passes t depth :: v.visits sig searched rest
    else
      match hc : v.definition t with
      | none => .enters t depth :: v.visits sig (t :: searched) rest
      | some c =>
        match (v.table t).field? sig with
        | some _ => [.enters t depth]
        | none =>
          have := View.outside_cons_lt hc ht
          .enters t depth ::
            v.visits sig (t :: searched) (c.supertypes.map (·, depth + 1) ++ rest)
termination_by pending => (v.outside searched, pending.length)
decreasing_by
  · exact .right _ (Nat.lt_succ_self _)
  · exact .right _ (Nat.lt_succ_self _)
  · rcases Nat.lt_or_eq_of_le (v.outside_cons_le t searched) with hlt | heq
    · exact .left _ _ hlt
    · rw [heq]
      exact .right _ (Nat.lt_succ_self _)
  · exact .left _ _ this

/-- The field that the search misses on a visit: what the plain recursion finds at a type that is
passed over. -/
def missed? (v : View) (sig : FieldSig) : Visit → Option Field
  | .enters _ _ => none
  | .passes t k => v.look sig t k

/-- With no types left, nothing is visited. -/
@[simp] theorem visits_nil (v : View) (sig : FieldSig) (searched : List TypeId) :
    v.visits sig searched [] = [] := by
  rw [visits]

/-- A type beyond the bound is left out. -/
theorem visits_cut {depth : Nat} (hd : v.bound < depth) (t : TypeId) (searched : List TypeId)
    (rest : List (TypeId × Nat)) :
    v.visits sig searched ((t, depth) :: rest) = v.visits sig searched rest := by
  rw [visits, if_pos hd]

/-- A type that was searched is passed by. -/
theorem visits_searched {depth : Nat} (hd : depth ≤ v.bound) {t : TypeId} {searched : List TypeId}
    (ht : t ∈ searched) (rest : List (TypeId × Nat)) :
    v.visits sig searched ((t, depth) :: rest) =
      .passes t depth :: v.visits sig searched rest := by
  rw [visits, if_neg (Nat.not_lt.2 hd), dif_pos ht]

/-- A type without a definition is entered, and leads nowhere. -/
theorem visits_undefined {depth : Nat} (hd : depth ≤ v.bound) {t : TypeId}
    {searched : List TypeId} (ht : t ∉ searched) (hc : v.definition t = none)
    (rest : List (TypeId × Nat)) :
    v.visits sig searched ((t, depth) :: rest) =
      .enters t depth :: v.visits sig (t :: searched) rest := by
  rw [visits, if_neg (Nat.not_lt.2 hd), dif_neg ht]
  split
  · rfl
  · simp_all

/-- A type that declares the field is entered, and ends the search. -/
theorem visits_declares {depth : Nat} (hd : depth ≤ v.bound) {t : TypeId}
    {searched : List TypeId} (ht : t ∉ searched) {c : ClassDef} (hc : v.definition t = some c)
    {f : Field} (hf : (v.table t).field? sig = some f) (rest : List (TypeId × Nat)) :
    v.visits sig searched ((t, depth) :: rest) = [.enters t depth] := by
  rw [visits, if_neg (Nat.not_lt.2 hd), dif_neg ht]
  split
  · simp_all
  · rw [hf]

/-- Any other type is entered, and its supertypes come next. -/
theorem visits_expands {depth : Nat} (hd : depth ≤ v.bound) {t : TypeId}
    {searched : List TypeId} (ht : t ∉ searched) {c : ClassDef} (hc : v.definition t = some c)
    (hf : (v.table t).field? sig = none) (rest : List (TypeId × Nat)) :
    v.visits sig searched ((t, depth) :: rest) =
      .enters t depth ::
        v.visits sig (t :: searched) (c.supertypes.map (·, depth + 1) ++ rest) := by
  rw [visits, if_neg (Nat.not_lt.2 hd), dif_neg ht]
  split
  · simp_all
  · next d hd' =>
    obtain rfl : d = c := Option.some.inj (hd'.symm.trans hc)
    rw [hf]

/-- **What the plain recursion finds**: the first field that the search misses, or else what the
search finds. -/
theorem findSome?_look (v : View) (sig : FieldSig) (searched : List TypeId)
    (pending : List (TypeId × Nat)) :
    pending.findSome? (fun p => v.look sig p.1 p.2) =
      ((v.visits sig searched pending).findSome? (v.missed? sig)).or
        (v.searchField sig searched pending).value := by
  induction searched, pending using visits.induct v sig with
  | case1 searched => rw [visits_nil, searchField_nil]; rfl
  | case2 searched t depth rest hd ih =>
      rw [visits_cut hd, searchField_cut hd, List.findSome?_cons, look_cut hd, Walk.value_bind, ih]
  | case3 searched t depth rest hd ht ih =>
      rw [visits_searched (Nat.not_lt.1 hd) ht, searchField_searched (Nat.not_lt.1 hd) ht,
        List.findSome?_cons, List.findSome?_cons, ih, missed?]
      cases v.look sig t depth <;> rfl
  | case4 searched t depth rest hd ht hc ih =>
      rw [visits_undefined (Nat.not_lt.1 hd) ht hc, searchField_undefined (Nat.not_lt.1 hd) ht hc,
        List.findSome?_cons, List.findSome?_cons, look_undefined hc, missed?, ih]
  | case5 searched t depth rest hd ht c hc f hf =>
      rw [visits_declares (Nat.not_lt.1 hd) ht hc hf,
        searchField_declares (Nat.not_lt.1 hd) ht hc hf, List.findSome?_cons,
        look_declares (Nat.not_lt.1 hd) hc hf]
      rfl
  | case6 searched t depth rest hd ht c hc hf _ ih =>
      rw [visits_expands (Nat.not_lt.1 hd) ht hc hf,
        searchField_expands (Nat.not_lt.1 hd) ht hc hf, Walk.value_bind, List.findSome?_cons,
        List.findSome?_cons, look_expands (Nat.not_lt.1 hd) hc hf, missed?, ← ih,
        List.findSome?_append]
      cases (c.supertypes.map (·, depth + 1)).findSome? fun p => v.look sig p.1 p.2 <;> rfl

/-! ### Where something is missed -/

/-- A type has another as a direct supertype. -/
def Below (v : View) (t u : TypeId) : Prop := ∃ c, v.definition t = some c ∧ u ∈ c.supertypes

/-- An interface that is listed is right above. -/
theorem below_of_interfaces {t i : TypeId} {c : ClassDef} (hc : v.definition t = some c)
    (hi : i ∈ c.interfaces) : v.Below t i :=
  ⟨c, hc, List.mem_append_left _ hi⟩

/-- A superclass is right above. -/
theorem below_of_superType {t s : TypeId} {c : ClassDef} (hc : v.definition t = some c)
    (hs : c.superType = some s) : v.Below t s :=
  ⟨c, hc, List.mem_append_right _ (by simp [hs])⟩

/-- The invariant of a search for the types entered so far, each with the depth at which it was
entered: what is still pending above a type stands in front, and if the plain recursion finds
something at the type, then it does so at one of those. -/
def Settled (v : View) (sig : FieldSig) (entered pending : List (TypeId × Nat)) : Prop :=
  ∀ ⦃t j⦄, (t, j) ∈ entered → ∃ above rest, pending = above ++ rest ∧
    (∀ p ∈ above, TransGen v.Below t p.1) ∧
    (v.look sig t j ≠ none → ∃ p ∈ above, v.look sig p.1 p.2 ≠ none)

/-- What has nothing above it within reach may go. -/
theorem Settled.tail {entered pending : List (TypeId × Nat)} {t : TypeId} {k : Nat}
    (h : v.Settled sig entered ((t, k) :: pending)) (hnone : v.look sig t k = none) :
    v.Settled sig entered pending := by
  intro u j hu
  obtain ⟨above, rest, hsplit, hbelow, hlook⟩ := h hu
  cases above with
  | nil => exact ⟨[], pending, rfl, fun p hp => absurd hp List.not_mem_nil, hlook⟩
  | cons p above =>
      obtain ⟨rfl, rfl⟩ := List.cons.inj hsplit
      refine ⟨above, rest, rfl, fun q hq => hbelow q (List.mem_cons_of_mem _ hq), fun hsome => ?_⟩
      obtain ⟨q, hq, hfound⟩ := hlook hsome
      rcases List.mem_cons.1 hq with rfl | hq
      · exact absurd hnone hfound
      · exact ⟨q, hq, hfound⟩

/-- A type with nothing above it within reach may be entered and go at once. -/
theorem Settled.enter {entered pending : List (TypeId × Nat)} {t : TypeId} {k : Nat}
    (h : v.Settled sig entered ((t, k) :: pending)) (hnone : v.look sig t k = none) :
    v.Settled sig ((t, k) :: entered) pending := by
  intro u j hu
  rcases List.mem_cons.1 hu with heq | hu
  · obtain ⟨rfl, rfl⟩ := Prod.mk.inj heq
    exact ⟨[], pending, rfl, fun p hp => absurd hp List.not_mem_nil, absurd hnone⟩
  · exact h.tail hnone hu

/-- A type that is met again has nothing above it pending, or else it would be above itself. What
is found there now was out of reach then. -/
theorem Settled.lt_of_met (hacyclic : ∀ t, ¬ TransGen v.Below t t)
    {entered pending : List (TypeId × Nat)} {t : TypeId} {j k : Nat}
    (h : v.Settled sig entered ((t, k) :: pending)) (hentered : (t, j) ∈ entered)
    (hsome : v.look sig t k ≠ none) : k < j := by
  obtain ⟨above, rest, hsplit, hbelow, hlook⟩ := h hentered
  cases above with
  | nil =>
      have hnone : v.look sig t j = none := by
        refine Classical.byContradiction fun hne => ?_
        obtain ⟨p, hp, -⟩ := hlook hne
        exact absurd hp List.not_mem_nil
      exact Nat.lt_of_not_le fun hle => hsome (look_eq_none_of_le hnone hle)
  | cons p above =>
      obtain ⟨rfl, -⟩ := List.cons.inj hsplit
      exact absurd (hbelow _ List.mem_cons_self) (hacyclic t)

/-- A type may be replaced by what is above it. -/
theorem Settled.expand {entered pending : List (TypeId × Nat)} {t : TypeId} {k : Nat}
    {c : ClassDef} (h : v.Settled sig entered ((t, k) :: pending)) (hk : k ≤ v.bound)
    (hc : v.definition t = some c) (hf : (v.table t).field? sig = none) :
    v.Settled sig ((t, k) :: entered) (c.supertypes.map (·, k + 1) ++ pending) := by
  have habove : ∀ p ∈ c.supertypes.map (·, k + 1), v.Below t p.1 := by
    intro p hp
    obtain ⟨u, hu, rfl⟩ := List.mem_map.1 hp
    exact ⟨c, hc, hu⟩
  have hlook (hsome : v.look sig t k ≠ none) :
      ∃ p ∈ c.supertypes.map (·, k + 1), v.look sig p.1 p.2 ≠ none := by
    rw [look_expands hk hc hf, Ne, List.findSome?_eq_none_iff] at hsome
    simpa only [Classical.not_forall, exists_prop] using hsome
  intro u j hu
  rcases List.mem_cons.1 hu with heq | hu
  · obtain ⟨rfl, rfl⟩ := Prod.mk.inj heq
    exact ⟨_, _, rfl, fun p hp => .single (habove p hp), hlook⟩
  · obtain ⟨above, rest, hsplit, hbelow, hfound⟩ := h hu
    cases above with
    | nil => exact ⟨[], _, rfl, fun p hp => absurd hp List.not_mem_nil, hfound⟩
    | cons p above =>
        obtain ⟨rfl, rfl⟩ := List.cons.inj hsplit
        refine ⟨c.supertypes.map (·, k + 1) ++ above, rest, (List.append_assoc ..).symm, ?_, ?_⟩
        · intro q hq
          rcases List.mem_append.1 hq with hq | hq
          · exact (hbelow _ List.mem_cons_self).tail (habove q hq)
          · exact hbelow q (List.mem_cons_of_mem _ hq)
        · intro hsome
          obtain ⟨q, hq, hq'⟩ := hfound hsome
          rcases List.mem_cons.1 hq with rfl | hq
          · obtain ⟨r, hr, hr'⟩ := hlook hq'
            exact ⟨r, List.mem_append_left _ hr, hr'⟩
          · exact ⟨q, List.mem_append_right _ hq, hq'⟩

/-- What was searched was entered, and one type more is entered now. -/
theorem entered_cons {searched : List TypeId} {entered : List (TypeId × Nat)} {u : TypeId} {k : Nat}
    (h : ∀ t ∈ searched, ∃ j, (t, j) ∈ entered) :
    ∀ t ∈ u :: searched, ∃ j, (t, j) ∈ (u, k) :: entered := by
  intro t ht
  rcases List.mem_cons.1 ht with rfl | ht
  · exact ⟨k, List.mem_cons_self⟩
  · obtain ⟨j, hj⟩ := h t ht
    exact ⟨j, List.mem_cons_of_mem _ hj⟩

/-- A type that is entered first counts as entered from then on. -/
theorem enters_of_entered_cons {entered : List (TypeId × Nat)} {pre : List Visit} {t u : TypeId}
    {j k : Nat} (h : (t, j) ∈ (u, k) :: entered ∨ .enters t j ∈ pre) :
    (t, j) ∈ entered ∨ .enters t j ∈ Visit.enters u k :: pre := by
  rcases h with h | h
  · rcases List.mem_cons.1 h with heq | h
    · obtain ⟨rfl, rfl⟩ := Prod.mk.inj heq
      exact .inr List.mem_cons_self
    · exact .inl h
  · exact .inr (List.mem_cons_of_mem _ h)

/-- **In a hierarchy without cycles** the first field that a search misses is above a type that was
entered on a longer path before. Induction on the run, with what the types entered so far have left
pending. -/
theorem exists_enters_of_missed (hacyclic : ∀ t, ¬ TransGen v.Below t t)
    {searched : List TypeId} {pending entered : List (TypeId × Nat)}
    (hsearched : ∀ t ∈ searched, ∃ j, (t, j) ∈ entered) (h : v.Settled sig entered pending)
    {pre post : List Visit} {t : TypeId} {k : Nat}
    (hvisits : v.visits sig searched pending = pre ++ .passes t k :: post)
    (hpre : ∀ x ∈ pre, v.missed? sig x = none) (hsome : v.look sig t k ≠ none) :
    ∃ j, k < j ∧ ((t, j) ∈ entered ∨ .enters t j ∈ pre) := by
  induction searched, pending using visits.induct v sig generalizing entered pre with
  | case1 searched =>
      rw [visits_nil] at hvisits
      simp at hvisits
  | case2 searched u depth rest hd ih =>
      rw [visits_cut hd] at hvisits
      exact ih hsearched (h.tail (look_cut hd)) hvisits hpre
  | case3 searched u depth rest hd hu ih =>
      rw [visits_searched (Nat.not_lt.1 hd) hu] at hvisits
      cases pre with
      | nil =>
          obtain ⟨heq, -⟩ := List.cons.inj hvisits
          obtain ⟨rfl, rfl⟩ := Visit.passes.inj heq
          obtain ⟨j, hj⟩ := hsearched u hu
          exact ⟨j, h.lt_of_met hacyclic hj hsome, .inl hj⟩
      | cons x pre =>
          obtain ⟨rfl, hrest⟩ := List.cons.inj hvisits
          have hnone : v.look sig u depth = none := hpre _ List.mem_cons_self
          obtain ⟨j, hj, hentered⟩ := ih hsearched (h.tail hnone) hrest
            fun y hy => hpre y (List.mem_cons_of_mem _ hy)
          exact ⟨j, hj, hentered.imp_right (List.mem_cons_of_mem _)⟩
  | case4 searched u depth rest hd hu hc ih =>
      rw [visits_undefined (Nat.not_lt.1 hd) hu hc] at hvisits
      cases pre with
      | nil => simp at hvisits
      | cons x pre =>
          obtain ⟨rfl, hrest⟩ := List.cons.inj hvisits
          have hnone : v.look sig u depth = none := look_undefined hc depth
          obtain ⟨j, hj, hentered⟩ := ih (entered_cons hsearched) (h.enter hnone) hrest
            fun y hy => hpre y (List.mem_cons_of_mem _ hy)
          exact ⟨j, hj, enters_of_entered_cons hentered⟩
  | case5 searched u depth rest hd hu c hc f hf =>
      rw [visits_declares (Nat.not_lt.1 hd) hu hc hf] at hvisits
      cases pre with
      | nil => simp at hvisits
      | cons x pre => simp at hvisits
  | case6 searched u depth rest hd hu c hc hf _ ih =>
      rw [visits_expands (Nat.not_lt.1 hd) hu hc hf] at hvisits
      cases pre with
      | nil => simp at hvisits
      | cons x pre =>
          obtain ⟨rfl, hrest⟩ := List.cons.inj hvisits
          obtain ⟨j, hj, hentered⟩ := ih (entered_cons hsearched)
            (h.expand (Nat.not_lt.1 hd) hc hf) hrest
            fun y hy => hpre y (List.mem_cons_of_mem _ hy)
          exact ⟨j, hj, enters_of_entered_cons hentered⟩

/-! ### When the two agree -/

/-- **When pruning changes nothing**: exactly if the first field that the search misses, should it
miss one, is the field that it finds in the end. In a hierarchy without cycles a field is only ever
missed above a type that is passed over on a path shorter than the one it was entered on. -/
theorem resolveField_eq_look_iff (v : View) (holder : TypeId) (sig : FieldSig) :
    ((v.resolveField holder sig).value = v.look sig holder 0 ↔
      ∀ f, (v.visits sig [] [(holder, 0)]).findSome? (v.missed? sig) = some f →
        (v.resolveField holder sig).value = some f) ∧
    ((∀ t, ¬ TransGen v.Below t t) →
      ∀ f, (v.visits sig [] [(holder, 0)]).findSome? (v.missed? sig) = some f →
        ∃ t j k, .enters t j ∈ v.visits sig [] [(holder, 0)] ∧
          .passes t k ∈ v.visits sig [] [(holder, 0)] ∧ k < j ∧ v.look sig t k = some f) := by
  constructor
  · have hlook := findSome?_look v sig [] [(holder, 0)]
    rw [List.findSome?_singleton] at hlook
    rw [hlook, resolveField]
    cases (v.visits sig [] [(holder, 0)]).findSome? (v.missed? sig) with
    | none => simp
    | some f => simp
  · intro hacyclic f hf
    obtain ⟨pre, x, post, hvisits, hx, hpre⟩ := List.findSome?_eq_some_iff.1 hf
    cases x with
    | enters t k => exact absurd hx (by simp [missed?])
    | passes t k =>
        have hsettled : v.Settled sig [] [(holder, 0)] := fun _ _ h => absurd h List.not_mem_nil
        have hlook : v.look sig t k = some f := hx
        obtain ⟨j, hj, hentered⟩ := exists_enters_of_missed hacyclic
          (fun _ h => absurd h List.not_mem_nil) hsettled hvisits hpre (by simp [hlook])
        have henters : .enters t j ∈ pre := hentered.resolve_left List.not_mem_nil
        rw [hvisits]
        exact ⟨t, j, k, List.mem_append_left _ henters, by simp, hj, hlook⟩

/-! ### A field that is missed -/

/-- A field of an interface. -/
def constant : Field := ⟨⟨43⟩, ⟨⟨1⟩, ⟨5⟩⟩, .publicFlag, none⟩

/-- A class with two interfaces. The second is above the first as well, and has an interface with a
field above it. Two links may be followed. -/
def shortcut : View :=
  .ofStore .fresh
    ((((ClassStore.empty.put
      { ClassDef.ofClass ⟨40⟩ (some .object) with interfaces := [⟨41⟩, ⟨42⟩] }).put
      { ClassDef.ofInterface ⟨41⟩ with interfaces := [⟨42⟩] }).put
      { ClassDef.ofInterface ⟨42⟩ with interfaces := [⟨43⟩] }).put
      { ClassDef.ofInterface ⟨43⟩ with fields := [constant] }) 2

/-- The field is two links away by the second interface, but this one has been entered by way of
the first, with no link left. -/
theorem resolveField_ne_look :
    (shortcut.resolveField ⟨40⟩ constant.sig).value = none ∧
      shortcut.look constant.sig ⟨40⟩ 0 = some constant := by
  constructor
  · rw [resolveField, searchField_expands (by decide) (by decide) rfl rfl, Walk.value_bind]
    change (shortcut.searchField constant.sig [⟨40⟩] [(⟨41⟩, 1), (⟨42⟩, 1), (.object, 1)]).value = _
    rw [searchField_expands (by decide) (by decide) rfl rfl, Walk.value_bind]
    change (shortcut.searchField constant.sig [⟨41⟩, ⟨40⟩]
      [(⟨42⟩, 2), (.object, 2), (⟨42⟩, 1), (.object, 1)]).value = _
    rw [searchField_expands (by decide) (by decide) rfl rfl, Walk.value_bind]
    change (shortcut.searchField constant.sig [⟨42⟩, ⟨41⟩, ⟨40⟩]
      [(⟨43⟩, 3), (.object, 3), (.object, 2), (⟨42⟩, 1), (.object, 1)]).value = _
    rw [searchField_cut (by decide), Walk.value_bind, searchField_cut (by decide),
      Walk.value_bind, searchField_undefined (by decide) (by decide) rfl,
      searchField_searched (by decide) (by decide), searchField_searched (by decide) (by decide),
      searchField_nil, Walk.value_pure]
  · decide

end View

end Linkage
