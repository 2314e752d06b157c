import Linkage.Proofs.Steps

/-!
# The Life of a Snapshot

A lineage is a succession of snapshots, of which only the last one can be used. Nothing is ever
done to the others: an operation on one of them is refused before it has touched anything, and no
operation on another snapshot brings it back. Lineages do not know of each other, even if they
read the same stores.

## Main definitions

* `Workspace.succession`: the snapshots of a lineage, in the order of their derivation.
* `Workspace.Addresses`: an operation is for a snapshot of a lineage.

## Main results

* `Numbered.step`: every operation keeps the snapshots of a lineage numbered from one.
* `Step.keeps`: no operation touches a superseded snapshot, or one of a lineage that it is not for.
* `lifecycle`: what holds of the snapshots of all lineages in every run.
-/

namespace Linkage

namespace Workspace

/-- The snapshots of a lineage, in the order of their derivation. -/
def succession (w : Workspace) (l : Nat) : List Snapshot := w.snapshots.filter (·.lineage == l)

/-- The generation that a lineage has come to; none is before the first. -/
def reached (w : Workspace) (l : Nat) : Nat := w.generations[l]?.getD 0

/-- An operation is for a snapshot of a lineage. -/
def Addresses (w : Workspace) (l : Nat) (op : Operation) : Prop :=
  ∃ i s, op.snapshot? = some i ∧ w.snapshots[i]? = some s ∧ s.lineage = l

/-- The current generation of a snapshot is the one that its lineage has reached. -/
theorem current_eq_reached (w : Workspace) (s : Snapshot) : w.current s = w.reached s.lineage := rfl

/-- A snapshot is live if its lineage has not moved on. -/
theorem isLive_iff {w : Workspace} {s : Snapshot} :
    w.isLive s = true ↔ s.generation = w.reached s.lineage := by
  rw [isLive, beq_iff_eq, current_eq_reached, eq_comm]

/-- The snapshot that leads its lineage is live. -/
theorem isLive_of_leads {w : Workspace} {i : Nat} {s : Snapshot} (h : w.Leads i s) :
    w.isLive s = true :=
  isLive_iff.2 h.2.symm

/-! ### The numbers of a succession -/

/-- **The snapshots of a lineage are numbered from one**, up to the generation that the lineage has
come to. -/
def Numbered (w : Workspace) : Prop :=
  ∀ l, (w.succession l).map Snapshot.generation =
    List.range' Snapshot.firstGeneration (w.reached l)

/-- The numbers of a succession can be read off the lineages and generations of the snapshots. -/
theorem map_generation_succession (w : Workspace) (l : Nat) :
    (w.succession l).map Snapshot.generation =
      ((w.snapshots.map fun s => (s.lineage, s.generation)).filter (·.1 == l)).map Prod.snd := by
  rw [succession, List.filter_map, List.map_map]
  rfl

/-- One more snapshot comes last in its own lineage, and in no other. -/
theorem succession_concat {w w' : Workspace} {s : Snapshot}
    (hsnapshots : w'.snapshots = w.snapshots ++ [s]) (l : Nat) :
    w'.succession l = w.succession l ++ if s.lineage = l then [s] else [] := by
  rw [succession, hsnapshots, List.filter_append, ← succession]
  by_cases hl : s.lineage = l <;> simp [hl]

/-- Replacing a snapshot by one of the same lineage and generation changes no number. -/
theorem Numbered.of_set {w w' : Workspace} (h : w.Numbered) {i : Nat} {s s' : Snapshot}
    (hi : w.snapshots[i]? = some s) (hsnapshots : w'.snapshots = w.snapshots.set i s')
    (hgenerations : w'.generations = w.generations) (hlineage : s'.lineage = s.lineage)
    (hgeneration : s'.generation = s.generation) : w'.Numbered := by
  have hmap : (w'.snapshots.map fun s => (s.lineage, s.generation)) =
      w.snapshots.map fun s => (s.lineage, s.generation) := by
    obtain ⟨hlt, rfl⟩ := List.getElem?_eq_some_iff.1 hi
    rw [hsnapshots, List.map_set, hlineage, hgeneration,
      ← List.map_set (f := fun s : Snapshot => (s.lineage, s.generation)), List.set_getElem_self]
  intro l
  rw [map_generation_succession, hmap, ← map_generation_succession, h l, reached, reached,
    hgenerations]

/-- A snapshot with the next number of its lineage may be added. -/
theorem Numbered.of_concat {w w' : Workspace} (h : w.Numbered) {s : Snapshot}
    (hsnapshots : w'.snapshots = w.snapshots ++ [s])
    (hgeneration : s.generation = w.reached s.lineage + 1)
    (hreached : ∀ l, w'.reached l = if s.lineage = l then s.generation else w.reached l) :
    w'.Numbered := by
  intro l
  rw [succession_concat hsnapshots, List.map_append, h l, hreached]
  by_cases hl : s.lineage = l
  · subst hl
    rw [if_pos rfl, if_pos rfl, hgeneration, List.range'_concat, Nat.one_mul,
      Snapshot.firstGeneration, Nat.add_comm 1, ← hgeneration]
    rfl
  · rw [if_neg hl, if_neg hl, List.map_nil, List.append_nil]

/-- **Every operation keeps the snapshots of a lineage numbered.** -/
theorem Numbered.step {w w' : Workspace} {op : Operation} (h : w.Numbered) (hord : w.Ordered)
    (hstep : w.Step op w') : w'.Numbered := by
  cases hstep with
  | aside hsnapshots hgenerations =>
      intro l
      rw [succession, hsnapshots, ← succession, h l, reached, reached, hgenerations]
  | evicts hlive => exact h.of_set (leads_of_live hlive).1 rfl rfl rfl rfl
  | synthesizes hlive => exact h.of_set (leads_of_live hlive).1 rfl rfl rfl rfl
  | asks hlive hsnapshots hgenerations =>
      exact h.of_set (leads_of_live hlive).1 hsnapshots hgenerations rfl rfl
  | opens hlineage hgeneration _ hsnapshots hgenerations =>
      refine h.of_concat hsnapshots ?_ fun l => ?_
      · rw [hgeneration, reached, hlineage, List.getElem?_eq_none (Nat.le_refl _)]
        rfl
      · rw [hgeneration, hlineage, reached, reached, hgenerations, List.getElem?_append]
        by_cases hl : l < w.generations.length
        · rw [if_pos hl, if_neg (Nat.ne_of_gt hl)]
        · rw [if_neg hl, List.getElem?_singleton]
          by_cases heq : w.generations.length = l
          · rw [if_pos heq, if_pos (by omega)]
            rfl
          · rw [if_neg heq, if_neg (by omega), List.getElem?_eq_none (by omega)]
  | @derives i changed store? s next store w' hlive hnext hsnapshots hgenerations =>
      have hlead := leads_of_live hlive
      have hlineage : next.lineage = s.lineage := by rw [hnext]
      have hgeneration : next.generation = s.generation + 1 := by rw [hnext]
      refine h.of_concat hsnapshots ?_ fun l => ?_
      · rw [hlineage, ← current_eq_reached, hlead.2, hgeneration]
      · rw [hlineage, hgeneration, reached, reached, hgenerations, List.getElem?_set]
        by_cases hl : s.lineage = l
        · rw [if_pos hl, if_pos hl, if_pos (hl ▸ hord.lineage_lt hlead.1)]
          rfl
        · rw [if_neg hl, if_neg hl]

/-- Without snapshots there is nothing to number. -/
theorem numbered_fresh (types : TypeTable) (tracing : Bool) : (fresh types tracing).Numbered :=
  fun _ => rfl

/-- **The snapshots of a lineage are numbered in every workspace that comes about.** -/
theorem numbered_of_reachable {w : Workspace} (h : w.Reachable) : w.Numbered := by
  obtain ⟨shardOf, tracing, ops, rfl⟩ := h
  have hboth : ∀ w op, Workspace.Ordered w ∧ w.Numbered →
      (w.perform op).workspace.Ordered ∧ (w.perform op).workspace.Numbered := by
    rintro w op ⟨hord, h⟩
    exact ⟨hord.step (w.step_perform op), h.step hord (w.step_perform op)⟩
  exact (after_induction hboth ⟨ordered_fresh _ _, numbered_fresh _ _⟩ ops).2

/-- A lineage has as many snapshots as generations. -/
theorem Numbered.length_succession {w : Workspace} (h : w.Numbered) (l : Nat) :
    (w.succession l).length = w.reached l := by
  rw [← List.length_map Snapshot.generation, h l, List.length_range']

/-- **The last snapshot of a lineage is the live one**, and the others are not. -/
theorem Numbered.live_last {w : Workspace} (h : w.Numbered) {l : Nat} {earlier : List Snapshot}
    {last : Snapshot} (hsplit : w.succession l = earlier ++ [last]) :
    w.isLive last = true ∧ ∀ s ∈ earlier, w.isLive s = false := by
  have hlineage : ∀ s ∈ earlier ++ [last], s.lineage = l := by
    intro s hs
    rw [← hsplit, succession, List.mem_filter, beq_iff_eq] at hs
    exact hs.2
  have hreached : w.reached l = earlier.length + 1 := by
    rw [← h.length_succession, hsplit, List.length_append, List.length_singleton]
  have hmap := h l
  rw [hsplit, hreached, List.map_append, List.range'_concat] at hmap
  obtain ⟨hearlier, hlast⟩ := List.append_inj hmap (by simp)
  rw [List.map_singleton, Nat.one_mul, List.singleton_inj] at hlast
  constructor
  · rw [isLive_iff, hlineage last (by simp), hlast, hreached, Snapshot.firstGeneration,
      Nat.add_comm]
  · intro s hs
    have hmem := List.mem_map_of_mem (f := Snapshot.generation) hs
    rw [hearlier, List.mem_range'_1] at hmem
    rw [Bool.eq_false_iff, Ne, isLive_iff, hlineage s (List.mem_append_left _ hs), hreached]
    have hfirst : Snapshot.firstGeneration = 1 := rfl
    omega

/-! ### What no operation touches -/

/-- An operation on a superseded snapshot is refused, and changes nothing. -/
theorem perform_superseded {w : Workspace} {i : Nat} {s : Snapshot}
    (hi : w.snapshots[i]? = some s) (hdead : w.isLive s = false) {op : Operation}
    (hop : op.snapshot? = some i) :
    w.perform op = w.fail (.superseded s.generation (w.current s)) := by
  refine perform_of_live_error hop ?_
  rw [live, hi]
  exact if_neg (by simp [hdead])

/-- **What an operation leaves alone**: a superseded snapshot, and one of a lineage that the
operation is not for. -/
theorem Step.keeps {w w' : Workspace} {op : Operation} (hstep : w.Step op w') (hord : w.Ordered)
    {i : Nat} {s : Snapshot} (hi : w.snapshots[i]? = some s)
    (h : w.isLive s = false ∨ ¬ w.Addresses s.lineage op) :
    w'.snapshots[i]? = some s ∧ w'.isLive s = w.isLive s := by
  have hlt : i < w.snapshots.length := (List.getElem?_eq_some_iff.1 hi).1
  -- whatever changes is a live snapshot that the operation is for
  have hother {j : Nat} {t : Snapshot} (hop : op.snapshot? = some j) (ht : w.Leads j t) :
      j ≠ i := by
    rintro rfl
    obtain rfl : s = t := Option.some.inj (hi.symm.trans ht.1)
    rcases h with hdead | hnot
    · simp [isLive_of_leads ht] at hdead
    · exact hnot ⟨j, s, hop, hi, rfl⟩
  have hset {j : Nat} {t t' : Snapshot} (hop : op.snapshot? = some j) (ht : w.Leads j t)
      (hsnapshots : w'.snapshots = w.snapshots.set j t')
      (hgenerations : w'.generations = w.generations) :
      w'.snapshots[i]? = some s ∧ w'.isLive s = w.isLive s := by
    rw [hsnapshots, List.getElem?_set_ne (hother hop ht), isLive, current_congr rfl hgenerations]
    exact ⟨hi, rfl⟩
  cases hstep with
  | aside hsnapshots hgenerations =>
      rw [hsnapshots, isLive, current_congr rfl hgenerations]
      exact ⟨hi, rfl⟩
  | evicts hlive => exact hset rfl (leads_of_live hlive) rfl rfl
  | synthesizes hlive => exact hset rfl (leads_of_live hlive) rfl rfl
  | asks hlive hsnapshots hgenerations =>
      exact hset rfl (leads_of_live hlive) hsnapshots hgenerations
  | opens _ _ _ hsnapshots hgenerations =>
      rw [hsnapshots, List.getElem?_append_left hlt, isLive, current, hgenerations,
        List.getElem?_append_left (hord.lineage_lt hi)]
      exact ⟨hi, rfl⟩
  | @derives j changed store? t next store w' hlive hnext hsnapshots hgenerations =>
      have ht := leads_of_live hlive
      rw [hsnapshots, List.getElem?_append_left hlt]
      refine ⟨hi, ?_⟩
      by_cases hl : t.lineage = s.lineage
      · -- the lineage moves on, and further away from the snapshot
        have hdead : w.isLive s = false := h.resolve_right fun hnot => hnot ⟨j, t, rfl, ht.1, hl⟩
        have hle : s.generation ≤ t.generation := by
          rw [← ht.2, current_congr hl rfl]
          exact hord.generation_le hi
        rw [hdead, Bool.eq_false_iff, Ne, isLive_iff, reached, hgenerations, hl,
          List.getElem?_set_self (hord.lineage_lt hi), Option.getD_some]
        omega
      · rw [isLive, isLive, current, current, hgenerations, List.getElem?_set_ne hl]

/-- **A superseded snapshot stays as it is** in every run. -/
theorem after_superseded {w : Workspace} (hord : w.Ordered) {i : Nat} {s : Snapshot}
    (hi : w.snapshots[i]? = some s) (hdead : w.isLive s = false) (ops : List Operation) :
    (w.after ops).snapshots[i]? = some s ∧ (w.after ops).isLive s = false := by
  induction ops generalizing w with
  | nil => exact ⟨hi, hdead⟩
  | cons op ops ih =>
      obtain ⟨hi', hlive⟩ := (w.step_perform op).keeps hord hi (.inl hdead)
      exact ih (hord.step (w.step_perform op)) hi' (hlive.trans hdead)

/-- **A snapshot stays as it is**, live or not, in a run that is not for its lineage. -/
theorem after_of_not_addresses {w : Workspace} (hord : w.Ordered) {i : Nat} {s : Snapshot}
    (hi : w.snapshots[i]? = some s) {ops : List Operation}
    (hops : ∀ pre op, pre ++ [op] <+: ops → ¬ (w.after pre).Addresses s.lineage op) :
    (w.after ops).snapshots[i]? = some s ∧ (w.after ops).isLive s = w.isLive s := by
  induction ops generalizing w with
  | nil => exact ⟨hi, rfl⟩
  | cons op ops ih =>
      have hfirst : ¬ w.Addresses s.lineage op := hops [] op ⟨ops, rfl⟩
      obtain ⟨hi', hlive⟩ := (w.step_perform op).keeps hord hi (.inr hfirst)
      have hrest := ih (hord.step (w.step_perform op)) hi' fun pre op' hpre =>
        hops (op :: pre) op' (List.cons_prefix_cons.2 ⟨rfl, hpre⟩)
      exact ⟨hrest.1, hrest.2.trans hlive⟩

/-! ### Every run -/

/-- **The life of snapshots.** In every workspace that comes about, the snapshots of a lineage have
the generations `1, 2, 3, ...` in the order of their derivation, and exactly the last one is live.
A superseded one refuses every operation with its own generation and the one that its lineage has
come to, and nothing is changed or traced; nor does anything change it ever after. A run that is not
for its lineage changes neither a snapshot nor whether it is live. -/
theorem lifecycle {w : Workspace} (h : w.Reachable) :
    (∀ l, (w.succession l).map Snapshot.generation = List.range' 1 (w.succession l).length) ∧
    (∀ l, w.succession l ≠ [] → ∃ earlier last, w.succession l = earlier ++ [last] ∧
      w.isLive last = true ∧ ∀ s ∈ earlier, w.isLive s = false) ∧
    (∀ (i : Nat) (s : Snapshot), w.snapshots[i]? = some s → w.isLive s = false →
      (∀ op, op.snapshot? = some i → w.perform op =
        ⟨.error (.superseded s.generation (w.current s)), w, []⟩) ∧
      ∀ ops, (w.after ops).snapshots[i]? = some s ∧ (w.after ops).isLive s = false) ∧
    ∀ (i : Nat) (s : Snapshot) (ops : List Operation), w.snapshots[i]? = some s →
      (∀ pre op, pre ++ [op] <+: ops → ¬ (w.after pre).Addresses s.lineage op) →
      (w.after ops).snapshots[i]? = some s ∧ (w.after ops).isLive s = w.isLive s := by
  have hord := ordered_of_reachable h
  have hnumbered := numbered_of_reachable h
  refine ⟨fun l => ?_, fun l hne => ?_, fun i s hi hdead => ⟨fun op hop => ?_, ?_⟩, ?_⟩
  · rw [hnumbered.length_succession]
    exact hnumbered l
  · have hsplit := (List.dropLast_concat_getLast hne).symm
    exact ⟨_, _, hsplit, hnumbered.live_last hsplit⟩
  · exact perform_superseded hi hdead hop
  · exact after_superseded hord hi hdead
  · intro i s ops hi hops
    exact after_of_not_addresses hord hi hops

/-! ### Two lineages over one store -/

/-- Two lineages are started over one store, and the first is continued. -/
def continuedRun : List Operation :=
  [.openStore [], .openSnapshot 0 {}, .openSnapshot 0 {}, .derive 0 [] none]

/-- The workspace after this run. -/
def continued : Workspace := (fresh (.freshWith SymbolTable.byteSum) false).after continuedRun

/-- The first snapshot refuses every query. The one of the other lineage stays live, whatever is
done to the first lineage. -/
theorem lifecycle_continued :
    continued.Reachable ∧
    (continued.succession 0).map Snapshot.generation = [1, 2] ∧
    (∀ q, continued.perform (.ask 0 q) = ⟨.error (.superseded 1 2), continued, []⟩) ∧
    ∀ ops, (∀ pre op, pre ++ [op] <+: ops → ¬ (continued.after pre).Addresses 1 op) →
      ∃ s, (continued.after ops).snapshots[1]? = some s ∧
        (continued.after ops).isLive s = true := by
  have hreachable : continued.Reachable := ⟨_, _, continuedRun, rfl⟩
  obtain ⟨hnumbers, -, hdead, hother⟩ := lifecycle hreachable
  refine ⟨hreachable, hnumbers 0, fun q => (hdead 0 _ rfl rfl).1 (.ask 0 q) rfl, ?_⟩
  intro ops hops
  exact ⟨_, hother 1 _ ops rfl hops⟩

end Workspace

end Linkage
