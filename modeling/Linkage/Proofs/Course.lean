import Mathlib.Data.List.Nodup

/-!
# Courses of a Machine

A search can be told as a machine that goes from state to state, where each step makes a move. A
course is a list of moves that leads from one state to another. If each state leaves only one step
to take, then one course that comes to an end says it all: there are no others but its beginnings,
and none that goes on for ever.

What a course does at most once, or at most so many times, is read off what single steps do.

## Main definitions

* `Course`: a list of moves that leads from one state to another.
* `EndsAfter`: a machine comes to an end, by one course.

## Main results

* `Course.endsAfter`: a machine without choices comes to an end if one course does.
* `Course.nodup_filterMap`: what is marked when it is done, and not done when marked, is done once.
* `Course.count_le`: moves that use up a store are no more than the store holds.
-/

namespace Linkage

variable {σ ε α : Type} {Step : σ → ε → σ → Prop} {s s' s'' : σ} {es es' : List ε}

/-- **A course** of a machine: the moves of its steps from one state to another. -/
inductive Course (Step : σ → ε → σ → Prop) : σ → List ε → σ → Prop
  | stays (s : σ) : Course Step s [] s
  | goes {s s' s'' : σ} {e : ε} {es : List ε} (hstep : Step s e s')
      (hrest : Course Step s' es s'') : Course Step s (e :: es) s''

/-- **A machine comes to an end**: a course leads to a state that leaves no step, and wherever
else a course may lead, the machine goes on from there by the rest of this one. -/
structure EndsAfter (Step : σ → ε → σ → Prop) (s : σ) (es : List ε) (final : σ) : Prop where
  course : Course Step s es final
  halted : ∀ e s', ¬ Step final e s'
  goes_on : ∀ es' s', Course Step s es' s' → ∃ rest, es = es' ++ rest ∧ Course Step s' rest final

namespace Course

/-- One step is a course. -/
theorem single {e : ε} (h : Step s e s') : Course Step s [e] s' := .goes h (.stays s')

/-- Two courses, one after the other, are a course. -/
theorem append (h : Course Step s es s') (h' : Course Step s' es' s'') :
    Course Step s (es ++ es') s'' := by
  induction h with
  | stays s => exact h'
  | goes hstep _ ih => exact .goes hstep (ih h')

/-- What every step keeps is kept. -/
theorem keeps (P : σ → Prop) (hstep : ∀ {s e s'}, Step s e s' → P s → P s')
    (h : Course Step s es s') (hs : P s) : P s' := by
  induction h with
  | stays s => exact hs
  | goes hfirst _ ih => exact ih (hstep hfirst hs)

/-- **Without choices, one course says it all.** -/
theorem endsAfter (hdet : ∀ {s e e' s' s''}, Step s e s' → Step s e' s'' → e = e' ∧ s' = s'')
    (h : Course Step s es s') (hhalted : ∀ e t, ¬ Step s' e t) : EndsAfter Step s es s' where
  course := h
  halted := hhalted
  goes_on es' t h' := by
    induction h' generalizing es with
    | stays s => exact ⟨es, rfl, h⟩
    | goes hstep _ ih =>
        cases h with
        | stays => exact absurd hstep (hhalted _ _)
        | goes hstep' hrest =>
            obtain ⟨rfl, rfl⟩ := hdet hstep hstep'
            obtain ⟨rest, rfl, hcourse⟩ := ih hrest
            exact ⟨rest, rfl, hcourse⟩

/-- **What is done once**: a move that does something finds it not done and leaves it done, and no
step undoes it. -/
theorem nodup_filterMap (does : ε → Option α) (Done : σ → α → Prop)
    (hdoes : ∀ {s e s' a}, Step s e s' → does e = some a → ¬ Done s a ∧ Done s' a)
    (hkeeps : ∀ {s e s' a}, Step s e s' → Done s a → Done s' a) (h : Course Step s es s') :
    (es.filterMap does).Nodup ∧ ∀ a ∈ es.filterMap does, ¬ Done s a := by
  induction h with
  | stays s => exact ⟨List.nodup_nil, List.forall_mem_nil _⟩
  | @goes s t s'' e es hstep _ ih =>
      obtain ⟨hnodup, hnew⟩ := ih
      have hrest : ∀ a ∈ es.filterMap does, ¬ Done s a :=
        fun a ha hdone => hnew a ha (hkeeps hstep hdone)
      cases he : does e with
      | none =>
          rw [List.filterMap_cons_none he]
          exact ⟨hnodup, hrest⟩
      | some a =>
          obtain ⟨hfresh, hdone⟩ := hdoes hstep he
          rw [List.filterMap_cons_some he]
          exact ⟨List.nodup_cons.2 ⟨fun ha => hnew a ha hdone, hnodup⟩,
            List.forall_mem_cons.2 ⟨hfresh, hrest⟩⟩

/-- **What is done at most so many times**: each of these moves takes one from a store that no
step fills. -/
theorem count_le [DecidableEq ε] {e : ε} (store : σ → Nat)
    (hstep : ∀ {s e' s'}, Step s e' s' → store s' + [e'].count e ≤ store s)
    (h : Course Step s es s') : es.count e ≤ store s := by
  induction h with
  | stays s => exact Nat.zero_le _
  | @goes s t s'' e' es hfirst _ ih =>
      have htaken := hstep hfirst
      rw [← List.singleton_append, List.count_append]
      omega

end Course

end Linkage
