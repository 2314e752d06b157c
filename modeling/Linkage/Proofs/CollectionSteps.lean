import Linkage.Proofs.Course
import Linkage.Proofs.ExpandedOnce

/-!
# Collecting Step by Step

A collection written out as a machine, in steps that have nothing to recurse over: it takes up a
call or an interface, follows one superclass link, or shadows one interface, and puts in front of
what is left to do whatever comes of it. Collections begin within collections, and what one declares
is added and shadows others before the next is looked at. So the machine has all the record there is
at every moment, where the sweep only lists what it has seen, to be recorded in the end.

Two marks and one count guard the steps: an interface is expanded if it was not, and shadowed if it
was not, and each collection counts the superclass links that it has followed. Nothing is assumed of
the hierarchy; the guards hold for whatever definitions there are.

## Main definitions

* `Collection.Call`: what is asked of a record of candidates, any number of times.
* `Collection.Step`: a step of the machine, with its move.

## Main results

* `Step.deterministic`: there is only one step to take.
* `nodup_expanded`, `nodup_shadowed`, `count_follows_le`: how often things are done in a course.
* `exists_course_calls`: a course that leaves on record what the calls leave.
-/

namespace Linkage

/-! ### Recording one sight after another -/

namespace Candidates

variable (v : View) (cs : Candidates) (sights : List Sight)

/-- A record of nothing seen is unchanged. -/
theorem record_nil : cs.record v [] = cs :=
  congrArg (Candidates.mk cs.slots) (List.append_nil _)

/-- What is declared is recorded before the rest. -/
theorem record_declares (t : TypeId) (c : ClassDef) (m : Method) :
    cs.record v (.declares t c m :: sights) = (cs.add v c m).record v sights := rfl

/-- What is expanded may be noted before the rest is recorded. -/
theorem record_expands (t : TypeId) :
    cs.record v (.expands t :: sights) =
      { cs with expanded := cs.expanded ++ [t] }.record v sights := by
  have hnoted : cs.slots = { cs with expanded := cs.expanded ++ [t] }.slots := rfl
  have hexpanded : (cs.record v (.expands t :: sights)).expanded =
      ({ cs with expanded := cs.expanded ++ [t] }.record v sights).expanded := by
    rw [expanded_record, expanded_record, List.filterMap_cons_some (f := Sight.expanded?) rfl,
      List.append_assoc, List.singleton_append]
  exact congrArg₂ Candidates.mk (slots_record_congr hnoted v sights) hexpanded

end Candidates

namespace Collection

/-- What can be asked of a record: to collect above a superclass and some interfaces, or to add the
method that a type declares. -/
inductive Call
  | collect (superType : Option TypeId) (interfaces : List TypeId)
  | add (holder : ClassDef) (m : Method)

/-- What is on record after a call. -/
def Call.apply (v : View) (sig : MethodSig) (cs : Candidates) : Call → Candidates
  | .collect superType interfaces => (cs.collect v sig superType interfaces).value
  | .add holder m => cs.add v holder m

/-- What is left to do: to take up a call, to look at something pending in the collection of some
number, or to shadow an interface. -/
inductive Task
  | call (c : Call)
  | look (n : Nat) (p : Pending)
  | shadow (t : TypeId)

/-- What a step does, if it does something that is counted: it expands an interface, follows a
superclass link in the collection of some number, or shadows an interface. -/
inductive Move
  | expands (t : TypeId)
  | follows (n : Nat)
  | shadows (t : TypeId)
  | proceeds
deriving DecidableEq

namespace Move

/-- The interface that was expanded. -/
def expanded? : Move → Option TypeId
  | .expands t => some t
  | _ => none

/-- The interface that was shadowed. -/
def shadowed? : Move → Option TypeId
  | .shadows t => some t
  | _ => none

end Move

/-- The record, the number of collections begun, and what is left to do, in order. -/
structure State where
  record : Candidates
  begun : Nat
  tasks : List Task

/-- Nothing is recorded, and the calls are yet to be taken up. -/
def State.start (calls : List Call) : State := ⟨.empty, 0, calls.map .call⟩

/-- **A step** takes up what is first to do. -/
inductive Step (v : View) (sig : MethodSig) : State → Move → State → Prop
  -- calls
  | collects {cs : Candidates} {n : Nat} {rest : List Task} (superType : Option TypeId)
      (interfaces : List TypeId) :
      Step v sig ⟨cs, n, .call (.collect superType interfaces) :: rest⟩ .proceeds
        ⟨cs, n + 1, (interfaces.map Pending.interface ++
          (superType.map (Pending.superclass · 0)).toList).map (.look n) ++ rest⟩
  | recorded {cs : Candidates} {n : Nat} {rest : List Task} {c : ClassDef} {m : Method}
      (hc : cs.slots.contains c.type = true) :
      Step v sig ⟨cs, n, .call (.add c m) :: rest⟩ .proceeds ⟨cs, n, rest⟩
  | adds {cs : Candidates} {n : Nat} {rest : List Task} {c : ClassDef} {m : Method}
      (hc : ¬ cs.slots.contains c.type = true) :
      Step v sig ⟨cs, n, .call (.add c m) :: rest⟩ .proceeds
        ⟨{ cs with slots := cs.slots.insert c.type (.candidate m) }, n,
          c.interfaces.map .shadow ++ rest⟩
  -- interfaces
  | undefined {cs : Candidates} {n k : Nat} {rest : List Task} {t : TypeId}
      (hc : v.definition t = none) :
      Step v sig ⟨cs, n, .look k (.interface t) :: rest⟩ .proceeds ⟨cs, n, rest⟩
  | declares {cs : Candidates} {n k : Nat} {rest : List Task} {t : TypeId} {c : ClassDef}
      {m : Method} (hc : v.definition t = some c) (hm : v.heritable t sig = some m) :
      Step v sig ⟨cs, n, .look k (.interface t) :: rest⟩ .proceeds
        ⟨cs, n, .call (.add c m) :: rest⟩
  | passes {cs : Candidates} {n k : Nat} {rest : List Task} {t : TypeId} {c : ClassDef}
      (hc : v.definition t = some c) (hm : v.heritable t sig = none) (ht : t ∈ cs.expanded) :
      Step v sig ⟨cs, n, .look k (.interface t) :: rest⟩ .proceeds ⟨cs, n, rest⟩
  | expands {cs : Candidates} {n k : Nat} {rest : List Task} {t : TypeId} {c : ClassDef}
      (hc : v.definition t = some c) (hm : v.heritable t sig = none) (ht : t ∉ cs.expanded) :
      Step v sig ⟨cs, n, .look k (.interface t) :: rest⟩ (.expands t)
        ⟨{ cs with expanded := cs.expanded ++ [t] }, n,
          .call (.collect c.superType c.interfaces) :: rest⟩
  -- superclasses
  | cut {cs : Candidates} {n k : Nat} {rest : List Task} {t : TypeId} {links : Nat}
      (hl : v.bound ≤ links) :
      Step v sig ⟨cs, n, .look k (.superclass t links) :: rest⟩ .proceeds ⟨cs, n, rest⟩
  | ends {cs : Candidates} {n k : Nat} {rest : List Task} {t : TypeId} {links : Nat}
      (hl : links < v.bound) (hc : v.definition t = none) :
      Step v sig ⟨cs, n, .look k (.superclass t links) :: rest⟩ .proceeds ⟨cs, n, rest⟩
  | follows {cs : Candidates} {n k : Nat} {rest : List Task} {t : TypeId} {links : Nat}
      {c : ClassDef} (hl : links < v.bound) (hc : v.definition t = some c) :
      Step v sig ⟨cs, n, .look k (.superclass t links) :: rest⟩ (.follows k)
        ⟨cs, n, (c.ahead (links + 1)).map (.look k) ++ rest⟩
  -- interfaces to shadow
  | unknown {cs : Candidates} {n : Nat} {rest : List Task} {t : TypeId}
      (hc : v.definition t = none) :
      Step v sig ⟨cs, n, .shadow t :: rest⟩ .proceeds ⟨cs, n, rest⟩
  | shadowed {cs : Candidates} {n : Nat} {rest : List Task} {t : TypeId} {c : ClassDef}
      (hc : v.definition t = some c) (hs : cs.slots.get? t = some .shadowed) :
      Step v sig ⟨cs, n, .shadow t :: rest⟩ .proceeds ⟨cs, n, rest⟩
  | shadows {cs : Candidates} {n : Nat} {rest : List Task} {t : TypeId} {c : ClassDef}
      (hc : v.definition t = some c) (hs : cs.slots.get? t ≠ some .shadowed) :
      Step v sig ⟨cs, n, .shadow t :: rest⟩ (.shadows t)
        ⟨{ cs with slots := cs.slots.insert t .shadowed }, n, c.interfaces.map .shadow ++ rest⟩

variable {v : View} {sig : MethodSig} {s s' s'' : State} {m m' : Move}

/-- **There is only one step to take.** -/
theorem Step.deterministic (h : Step v sig s m s') (h' : Step v sig s m' s'') :
    m = m' ∧ s' = s'' := by
  cases h <;> cases h' <;> grind

/-- There is no step without a task. -/
theorem Step.tasks_ne_nil (h : Step v sig s m s') : s.tasks ≠ [] := by
  cases h <;> exact List.cons_ne_nil _ _

/-! ### What is done once -/

/-- What is expanded is noted, and nothing else is. -/
theorem Step.expanded_eq (h : Step v sig s m s') :
    s'.record.expanded = s.record.expanded ++ m.expanded?.toList := by
  cases h
  case expands => rfl
  all_goals exact (List.append_nil _).symm

/-- What is expanded was not, and from then on it is. -/
theorem Step.expands_fresh (h : Step v sig s m s') {t : TypeId} (ht : m.expanded? = some t) :
    t ∉ s.record.expanded ∧ t ∈ s'.record.expanded := by
  refine ⟨?_, ?_⟩
  · cases h <;> cases ht
    assumption
  · rw [h.expanded_eq, ht]
    exact List.mem_append_right _ (List.mem_singleton_self t)

/-- What was expanded stays so. -/
theorem Step.expanded_subset (h : Step v sig s m s') :
    s.record.expanded ⊆ s'.record.expanded := by
  rw [h.expanded_eq]
  exact List.subset_append_left _ _

/-- What is shadowed was not, and from then on it is. -/
theorem Step.shadows_fresh (h : Step v sig s m s') {t : TypeId} (ht : m.shadowed? = some t) :
    s.record.slots.get? t ≠ some .shadowed ∧ s'.record.slots.get? t = some .shadowed := by
  cases h <;> cases ht
  case shadows hnew => exact ⟨hnew, OrderedMap.get?_insert_self ..⟩

/-- **Nothing that is shadowed reverts to a candidate**: only a type that is not on record becomes
one. -/
theorem Step.shadowed_remains (h : Step v sig s m s') {t : TypeId}
    (ht : s.record.slots.get? t = some .shadowed) : s'.record.slots.get? t = some .shadowed := by
  cases h
  case adds c _ hnew =>
    have hne : c.type ≠ t := by
      rintro rfl
      exact hnew (by rw [OrderedMap.contains, ht]; rfl)
    exact (OrderedMap.get?_insert ..).trans ((if_neg hne).trans ht)
  case shadows u _ _ =>
    refine (OrderedMap.get?_insert ..).trans ?_
    split
    · rfl
    · exact ht
  all_goals exact ht

/-! ### What is done so many times -/

/-- The superclass links that the tasks of the collection of some number may still follow. -/
def linksLeft (v : View) (k : Nat) : List Task → Nat
  | [] => 0
  | .look n (.superclass _ links) :: rest =>
    (if n = k then v.bound - links else 0) + linksLeft v k rest
  | _ :: rest => linksLeft v k rest

section linksLeft

variable (v : View) (k n links : Nat) (t : TypeId) (call : Call) (rest : List Task)

/-- A superclass that is looked at by a call counts for the links that the call has left. -/
@[simp] theorem linksLeft_superclass : linksLeft v k (.look n (.superclass t links) :: rest) =
    (if n = k then v.bound - links else 0) + linksLeft v k rest := rfl

/-- An interface that is looked at leaves the links of every call. -/
@[simp] theorem linksLeft_interface :
    linksLeft v k (.look n (.interface t) :: rest) = linksLeft v k rest := rfl

/-- A call that has not begun leaves the links of every call. -/
@[simp] theorem linksLeft_call : linksLeft v k (.call call :: rest) = linksLeft v k rest := rfl

/-- A type that is shaded leaves the links of every call. -/
@[simp] theorem linksLeft_shadow : linksLeft v k (.shadow t :: rest) = linksLeft v k rest := rfl

/-- Calls that have not begun have followed no links. -/
@[simp] theorem linksLeft_calls (calls : List Call) : linksLeft v k (calls.map .call) = 0 := by
  induction calls with
  | nil => rfl
  | cons c calls ih => exact ih

/-- Types that are shaded leave the links of every call. -/
@[simp] theorem linksLeft_shadows (ts : List TypeId) :
    linksLeft v k (ts.map .shadow ++ rest) = linksLeft v k rest := by
  induction ts with
  | nil => rfl
  | cons t ts ih => exact ih

/-- What comes up in a collection may follow the links that a sweep may follow there. -/
@[simp] theorem linksLeft_looks (ps : List Pending) :
    linksLeft v k (ps.map (.look n) ++ rest) =
      (if n = k then v.linksLeft ps else 0) + linksLeft v k rest := by
  induction ps with
  | nil => simp
  | cons p ps ih =>
      rw [List.map_cons, List.cons_append]
      cases p with
      | interface t => rw [linksLeft_interface, ih, View.linksLeft_interface]
      | superclass t links =>
          rw [linksLeft_superclass, ih, View.linksLeft_superclass]
          split <;> omega

end linksLeft

/-- The superclass links that the collection of some number may still follow: those left to its
tasks, and all of them before it has begun. -/
def State.linksLeft (v : View) (k : Nat) (s : State) : Nat :=
  Collection.linksLeft v k s.tasks + if s.begun ≤ k then v.bound else 0

/-- At the start every call has all its links left. -/
theorem linksLeft_start (v : View) (k : Nat) (calls : List Call) :
    (State.start calls).linksLeft v k = v.bound := by
  simp [State.linksLeft, State.start]

/-- Following a link takes one of them, and no step adds any. -/
theorem Step.linksLeft_add_count_le (h : Step v sig s m s') (k : Nat) :
    s'.linksLeft v k + [m].count (.follows k) ≤ s.linksLeft v k := by
  cases h
  case collects n rest superType interfaces =>
    -- before it begins, the collection has all its links left
    have hsuper := v.linksLeft_superType_le superType 0
    have hcount : [Move.proceeds].count (.follows k) = 0 := by simp
    rw [hcount, State.linksLeft, State.linksLeft, linksLeft_looks, linksLeft_call,
      View.linksLeft_append, View.linksLeft_interfaces]
    dsimp only
    split <;> split <;> split <;> omega
  case follows n j rest t links c hl hc =>
    have hahead := v.linksLeft_ahead_le c (links + 1)
    have hcount : [Move.follows j].count (.follows k) = if j = k then 1 else 0 := by
      simp [List.count_singleton]
    rw [hcount, State.linksLeft, State.linksLeft, linksLeft_looks, linksLeft_superclass]
    dsimp only
    split <;> omega
  all_goals simp [State.linksLeft]

/-! ### Courses -/

section Course

variable {moves : List Move} (h : Course (Step v sig) s moves s')
include h

/-- **The record of what was expanded** grows by what each move expands. -/
theorem expanded_eq :
    s'.record.expanded = s.record.expanded ++ moves.filterMap Move.expanded? := by
  induction h with
  | stays s => exact (List.append_nil _).symm
  | @goes s t s'' m moves hstep _ ih =>
      rw [ih, hstep.expanded_eq, List.append_assoc]
      cases hm : m.expanded? with
      | none => rw [List.filterMap_cons_none hm, Option.toList_none, List.nil_append]
      | some u =>
          rw [List.filterMap_cons_some hm, Option.toList_some, List.singleton_append]

/-- **An interface is expanded at most once.** -/
theorem nodup_expanded : (moves.filterMap Move.expanded?).Nodup :=
  (h.nodup_filterMap Move.expanded? (fun s t => t ∈ s.record.expanded)
    (fun hstep ht => hstep.expands_fresh ht) fun hstep ht => hstep.expanded_subset ht).1

/-- **An interface is shadowed at most once.** -/
theorem nodup_shadowed : (moves.filterMap Move.shadowed?).Nodup :=
  (h.nodup_filterMap Move.shadowed? (fun s t => s.record.slots.get? t = some .shadowed)
    (fun hstep ht => hstep.shadows_fresh ht) fun hstep ht => hstep.shadowed_remains ht).1

/-- **What is shadowed remains shadowed.** -/
theorem isShadowed_remains {t : TypeId} (ht : s.record.isShadowed t = true) :
    s'.record.isShadowed t = true := by
  rw [Candidates.isShadowed, beq_iff_eq] at ht ⊢
  exact h.keeps (fun s => s.record.slots.get? t = some .shadowed)
    (fun hstep ht => hstep.shadowed_remains ht) ht

/-- **A collection follows no more superclass links** than it may when the course begins. -/
theorem count_follows_le (k : Nat) : moves.count (.follows k) ≤ s.linksLeft v k :=
  h.count_le (State.linksLeft v k) fun hstep => hstep.linksLeft_add_count_le k

end Course

/-! ### The course of a collection -/

variable (v sig)

/-- Shadowing interfaces leaves them shadowed, with all that they extend. -/
theorem exists_course_shadow (slots : OrderedMap TypeId Slot) (expanded : List TypeId) (n : Nat)
    (ts : List TypeId) (rest : List Task) :
    ∃ moves, Course (Step v sig) ⟨⟨slots, expanded⟩, n, ts.map .shadow ++ rest⟩ moves
      ⟨⟨v.shade slots ts, expanded⟩, n, rest⟩ := by
  induction slots, ts using View.shade.induct v with
  | case1 slots =>
      rw [View.shade_nil]
      exact ⟨[], .stays _⟩
  | case2 slots t us hc ih =>
      obtain ⟨moves, hcourse⟩ := ih
      rw [View.shade_undefined hc]
      exact ⟨_, .goes (.unknown hc) hcourse⟩
  | case3 slots t us c hc hs ih =>
      obtain ⟨moves, hcourse⟩ := ih
      rw [View.shade_shadowed hs]
      exact ⟨_, .goes (.shadowed hc hs) hcourse⟩
  | case4 slots t us c hc hs _ ih =>
      obtain ⟨moves, hcourse⟩ := ih
      rw [List.map_append, List.append_assoc] at hcourse
      rw [View.shade_fresh hc hs]
      exact ⟨_, .goes (.shadows hc hs) hcourse⟩

/-- Adding a method records it. -/
theorem exists_course_add (cs : Candidates) (n : Nat) (c : ClassDef) (m : Method)
    (rest : List Task) :
    ∃ moves, Course (Step v sig) ⟨cs, n, .call (.add c m) :: rest⟩ moves
      ⟨cs.add v c m, n, rest⟩ := by
  by_cases hc : cs.slots.contains c.type = true
  · rw [Candidates.add_of_recorded hc]
    exact ⟨_, .single (.recorded hc)⟩
  · obtain ⟨moves, hcourse⟩ := exists_course_shadow v sig
      (cs.slots.insert c.type (.candidate m)) cs.expanded n c.interfaces rest
    rw [Candidates.add, if_neg hc]
    exact ⟨_, .goes (.adds hc) hcourse⟩

/-- **The machine records what a sweep sees.** Induction on the sweep, which has the same interfaces
marked as expanded; what it has pending are tasks of the one collection or the other. -/
theorem exists_course_sweep {seen : List TypeId} {pending : List Pending} {cs : Candidates}
    {ps : List (Nat × Pending)} (hps : ps.map Prod.snd = pending)
    (hseen : ∀ t, t ∈ cs.expanded ↔ t ∈ seen) (n : Nat) (rest : List Task) :
    ∃ moves n', Course (Step v sig) ⟨cs, n, ps.map (fun p => .look p.1 p.2) ++ rest⟩ moves
      ⟨cs.record v (v.sweep sig seen pending), n', rest⟩ := by
  induction seen, pending using View.sweep.induct v sig generalizing cs ps n with
  | case1 seen =>
      obtain rfl := List.map_eq_nil_iff.1 hps
      rw [View.sweep_nil, Candidates.record_nil]
      exact ⟨[], n, .stays _⟩
  | case2 seen t us hc ih =>
      obtain ⟨⟨k, -⟩, ps, rfl, rfl, rfl⟩ := List.map_eq_cons_iff.1 hps
      obtain ⟨moves, n', hcourse⟩ := ih rfl hseen n
      rw [View.sweep_interface_undefined hc]
      exact ⟨_, n', .goes (.undefined hc) hcourse⟩
  | case3 seen t us c hc m hm ih =>
      obtain ⟨⟨k, -⟩, ps, rfl, rfl, rfl⟩ := List.map_eq_cons_iff.1 hps
      have hadded : ∀ u, u ∈ (cs.add v c m).expanded ↔ u ∈ seen := by
        rwa [Candidates.expanded_add]
      obtain ⟨added, hadd⟩ :=
        exists_course_add v sig cs n c m (ps.map (fun p => .look p.1 p.2) ++ rest)
      obtain ⟨moves, n', hcourse⟩ := ih rfl hadded n
      rw [View.sweep_interface_declares hc hm, Candidates.record_declares]
      exact ⟨_, n', .goes (.declares hc hm) (hadd.append hcourse)⟩
  | case4 seen t us c hc hm ht ih =>
      obtain ⟨⟨k, -⟩, ps, rfl, rfl, rfl⟩ := List.map_eq_cons_iff.1 hps
      obtain ⟨moves, n', hcourse⟩ := ih rfl hseen n
      rw [View.sweep_interface_passes hc hm ht]
      exact ⟨_, n', .goes (.passes hc hm ((hseen t).2 ht)) hcourse⟩
  | case5 seen t us c hc hm ht _ ih =>
      obtain ⟨⟨k, -⟩, ps, rfl, rfl, rfl⟩ := List.map_eq_cons_iff.1 hps
      have hnoted : ∀ u, u ∈ { cs with expanded := cs.expanded ++ [t] }.expanded ↔
          u ∈ t :: seen := by
        intro u
        rw [List.mem_append, List.mem_singleton, List.mem_cons, hseen u, or_comm]
      -- a collection begins, and what it has pending is its own
      have hbegun : ((c.ahead 0).map (n, ·) ++ ps).map Prod.snd = c.ahead 0 ++ ps.map Prod.snd := by
        rw [List.map_append, List.map_map]
        exact congrArg (· ++ _) (List.map_id _)
      obtain ⟨moves, n', hcourse⟩ := ih hbegun hnoted (n + 1)
      rw [List.map_append, List.map_map, List.append_assoc] at hcourse
      rw [View.sweep_interface_expands hc hm ht, Candidates.record_expands]
      exact ⟨_, n', .goes (.expands hc hm fun hmem => ht ((hseen t).1 hmem))
        (.goes (.collects c.superType c.interfaces) hcourse)⟩
  | case6 seen t links us hl ih =>
      obtain ⟨⟨k, -⟩, ps, rfl, rfl, rfl⟩ := List.map_eq_cons_iff.1 hps
      obtain ⟨moves, n', hcourse⟩ := ih rfl hseen n
      rw [View.sweep_superclass_cut hl]
      exact ⟨_, n', .goes (.cut hl) hcourse⟩
  | case7 seen t links us hl hc ih =>
      obtain ⟨⟨k, -⟩, ps, rfl, rfl, rfl⟩ := List.map_eq_cons_iff.1 hps
      obtain ⟨moves, n', hcourse⟩ := ih rfl hseen n
      rw [View.sweep_superclass_undefined (Nat.not_le.1 hl) hc]
      exact ⟨_, n', .goes (.ends (Nat.not_le.1 hl) hc) hcourse⟩
  | case8 seen t links us hl c hc ih =>
      obtain ⟨⟨k, -⟩, ps, rfl, rfl, rfl⟩ := List.map_eq_cons_iff.1 hps
      have hahead : ((c.ahead (links + 1)).map (k, ·) ++ ps).map Prod.snd =
          c.ahead (links + 1) ++ ps.map Prod.snd := by
        rw [List.map_append, List.map_map]
        exact congrArg (· ++ _) (List.map_id _)
      obtain ⟨moves, n', hcourse⟩ := ih hahead hseen n
      rw [List.map_append, List.map_map, List.append_assoc] at hcourse
      rw [View.sweep_superclass_enters (Nat.not_le.1 hl) hc]
      exact ⟨_, n', .goes (.follows (Nat.not_le.1 hl) hc) hcourse⟩

/-- **The machine leaves on record what a call leaves**, whatever else is to be done. -/
theorem exists_course_call (cs : Candidates) (n : Nat) (call : Call) (rest : List Task) :
    ∃ moves n', Course (Step v sig) ⟨cs, n, .call call :: rest⟩ moves
      ⟨call.apply v sig cs, n', rest⟩ := by
  cases call with
  | add c m =>
      obtain ⟨moves, hcourse⟩ := exists_course_add v sig cs n c m rest
      exact ⟨moves, n, hcourse⟩
  | collect superType interfaces =>
      let pending := interfaces.map Pending.interface ++
        (superType.map (Pending.superclass · 0)).toList
      have hpending : (pending.map (n, ·)).map Prod.snd = pending := by
        rw [List.map_map]
        exact List.map_id _
      have hseen : ∀ t, t ∈ cs.expanded ↔ t ∈ cs.expanded := fun _ => Iff.rfl
      obtain ⟨moves, n', hcourse⟩ := exists_course_sweep v sig hpending hseen (n + 1) rest
      rw [List.map_map] at hcourse
      exact ⟨_, n', .goes (.collects superType interfaces) hcourse⟩

/-- **All calls are answered**, one after the other, and then nothing is left to do. -/
theorem exists_course_calls (cs : Candidates) (n : Nat) (calls : List Call) :
    ∃ moves n', Course (Step v sig) ⟨cs, n, calls.map .call⟩ moves
      ⟨calls.foldl (fun cs call => call.apply v sig cs) cs, n', []⟩ := by
  induction calls generalizing cs n with
  | nil => exact ⟨[], n, .stays _⟩
  | cons call calls ih =>
      obtain ⟨moves, n', hcourse⟩ := exists_course_call v sig cs n call (calls.map .call)
      obtain ⟨moves', n'', hcourse'⟩ := ih (call.apply v sig cs) n'
      exact ⟨moves ++ moves', n'', hcourse.append hcourse'⟩

end Collection

end Linkage
