import Linkage.Symbol.Request
import Mathlib.Data.Finset.Card
import Mathlib.Data.Finset.Dedup

/-!
# Symbols and Texts

A symbol table is a bijection between the texts it has filed and the symbols it has given out,
whichever shards the texts go to. The view of a table is `text?`: the symbols that stand for a text,
each with its text. All that filing a text does to this view is to add the text at its symbol.

A symbol names its shard and a text its shard, so that two symbols of one text are in one shard,
where their places agree. The empty text is the exception: it is symbol 0 in every table, and no
rule assigns it a shard. `Filed` says how these go together.

## Main results

* `Filed.text?_intern_iff`: what filing a text changes.
* `Filed.text?_inj`: a text has one symbol only.
* `Filed.find?_eq_some_iff`: asking for a text finds the symbol that stands for it.
* `identifies_texts`: symbols and texts in every run.
-/

namespace Linkage

namespace Symbol

/-- The shard of a symbol is one of those there are. -/
theorem shard_lt (a : Symbol) : a.shard < shardCount := Nat.mod_lt _ (by decide)

/-- A symbol has one shard and one place. -/
theorem eq_ofParts_iff {a : Symbol} {s n : Nat} (h : s < shardCount) :
    a = ofParts s n ↔ s = a.shard ∧ a.place = n := by
  constructor
  · rintro rfl
    exact ⟨(shard_ofParts h n).symm, place_ofParts h n⟩
  · rintro ⟨rfl, rfl⟩
    exact a.ofParts_shard_place.symm

end Symbol

namespace SymbolTable

/-! ### The view of a table -/

/-- A symbol's text is found in its shard. -/
theorem text?_eq (t : SymbolTable) {a : Symbol} (h : a.shard < Symbol.shardCount) :
    t.text? a = t.shards[a.shard].get? a.place := by
  rw [text?, dif_pos h]

/-- A text is found where it is filed. -/
theorem text?_ofParts (t : SymbolTable) {i : Nat} (h : i < Symbol.shardCount) (n : Nat) :
    t.text? (.ofParts i n) = t.shards[i].get? n := by
  rw [text?_eq t (Symbol.shard_lt _)]
  simp only [Symbol.shard_ofParts h, Symbol.place_ofParts h]

/-- Filing a text leaves the shards of other texts alone. -/
theorem getElem_shards_intern (t : SymbolTable) {s : String} (hs : s ≠ "") {i : Nat}
    (h : i < Symbol.shardCount) :
    (t.intern s).2.shards[i] =
      if (t.shardOf s).val = i then t.shards[i].add s else t.shards[i] := by
  simp only [intern, if_neg hs, Vector.getElem_set, Fin.getElem_fin]
  split
  · next heq =>
    subst heq
    rfl
  · rfl

/-- The texts of a table are filed in their shards, and the empty one is symbol 0. -/
structure Filed (t : SymbolTable) : Prop where
  empty : t.text? .none = some ""
  none_of_empty : ∀ {a : Symbol}, t.text? a = some "" → a = .none
  shard : ∀ {a : Symbol} {s : String}, t.text? a = some s → s ≠ "" → a.shard = t.shardOf s

/-- **What filing a text changes**: its symbol stands for it now, and all other symbols for what
they have stood for. -/
theorem Filed.text?_intern_iff {t : SymbolTable} (h : t.Filed) {s x : String} {a : Symbol} :
    (t.intern s).2.text? a = some x ↔ t.text? a = some x ∨ a = (t.intern s).1 ∧ x = s := by
  by_cases hs : s = ""
  · subst hs
    rw [intern_empty]
    constructor
    · exact .inl
    · rintro (hx | ⟨rfl, rfl⟩)
      · exact hx
      · exact h.empty
  · rw [text?_eq _ a.shard_lt, text?_eq _ a.shard_lt, getElem_shards_intern t hs a.shard_lt,
      intern, if_neg hs, Symbol.eq_ofParts_iff (t.shardOf s).isLt]
    split
    · next hshard =>
      simp only [Fin.getElem_fin, hshard, true_and]
      exact Pool.get?_add_eq_some_iff
    · next hshard => simp [hshard]

/-- **A text has one symbol only.** -/
theorem Filed.text?_inj {t : SymbolTable} (h : t.Filed) {a b : Symbol} {s : String}
    (ha : t.text? a = some s) (hb : t.text? b = some s) : a = b := by
  by_cases hs : s = ""
  · subst hs
    rw [h.none_of_empty ha, h.none_of_empty hb]
  · have hshard : a.shard = b.shard := (h.shard ha hs).trans (h.shard hb hs).symm
    rw [text?_eq t a.shard_lt] at ha
    rw [text?_eq t b.shard_lt] at hb
    simp only [hshard] at ha
    have hplace : a.place = b.place := Pool.get?_inj ha hb
    rw [← a.ofParts_shard_place, ← b.ofParts_shard_place, hshard, hplace]

/-- Filing keeps texts in their shards. -/
theorem Filed.intern {t : SymbolTable} (h : t.Filed) (s : String) : (t.intern s).2.Filed where
  empty := h.text?_intern_iff.2 (.inl h.empty)
  none_of_empty {a} ha := by
    rcases h.text?_intern_iff.1 ha with ha | ⟨rfl, rfl⟩
    · exact h.none_of_empty ha
    · rfl
  shard {a x} ha hx := by
    rw [shardOf_intern]
    rcases h.text?_intern_iff.1 ha with ha | ⟨rfl, rfl⟩
    · exact h.shard ha hx
    · simp only [SymbolTable.intern, if_neg hx]
      exact Symbol.shard_ofParts (t.shardOf x).isLt _

/-- The symbol that a text gets stands for it. -/
theorem Filed.text?_intern_self {t : SymbolTable} (h : t.Filed) (s : String) :
    (t.intern s).2.text? (t.intern s).1 = some s :=
  h.text?_intern_iff.2 (.inr ⟨rfl, rfl⟩)

/-- **Asking for a text** finds the symbol that stands for it. -/
theorem Filed.find?_eq_some_iff {t : SymbolTable} (h : t.Filed) {s : String} {a : Symbol} :
    t.find? s = some a ↔ t.text? a = some s := by
  by_cases hs : s = ""
  · subst hs
    rw [find?_empty, Option.some.injEq]
    constructor
    · rintro rfl
      exact h.empty
    · intro ha
      exact (h.none_of_empty ha).symm
  · rw [find?, if_neg hs, Option.map_eq_some_iff]
    constructor
    · rintro ⟨n, hn, rfl⟩
      rw [text?_ofParts t (t.shardOf s).isLt]
      exact Pool.find?_eq_some_iff.1 hn
    · intro ha
      have hshard := h.shard ha hs
      refine ⟨a.place, ?_, ?_⟩
      · rw [text?_eq t a.shard_lt] at ha
        simp only [hshard] at ha
        exact Pool.find?_eq_some_iff.2 ha
      · rw [← hshard, a.ofParts_shard_place]

/-- A text is found exactly if it has a symbol. -/
theorem Filed.isSome_find?_iff {t : SymbolTable} (h : t.Filed) {s : String} :
    (t.find? s).isSome ↔ ∃ a, t.text? a = some s := by
  simp only [Option.isSome_iff_exists, h.find?_eq_some_iff]

/-! ### Tables that grow -/

/-- One table knows all that another one knows: each symbol stands for the same text. -/
def GrowsTo (t u : SymbolTable) : Prop :=
  ∀ ⦃a : Symbol⦄ ⦃s : String⦄, t.text? a = some s → u.text? a = some s

/-- Every table grows to itself. -/
theorem GrowsTo.refl (t : SymbolTable) : t.GrowsTo t := fun _ _ h => h

/-- A table that grows step by step grows. -/
theorem GrowsTo.trans {t u v : SymbolTable} (h : t.GrowsTo u) (h' : u.GrowsTo v) : t.GrowsTo v :=
  fun _ _ ha => h' (h ha)

/-- A table grows when a text is filed. -/
theorem Filed.growsTo_intern {t : SymbolTable} (h : t.Filed) (s : String) :
    t.GrowsTo (t.intern s).2 :=
  fun _ _ ha => h.text?_intern_iff.2 (.inl ha)

/-- **Two texts that are filed at different times** get one symbol exactly if they are equal. -/
theorem Filed.intern_eq_iff {t u : SymbolTable} (ht : t.Filed) (hu : u.Filed) {s x : String}
    (h : (t.intern s).2.GrowsTo u) : (t.intern s).1 = (u.intern x).1 ↔ s = x := by
  have hs := (hu.growsTo_intern x) (h (ht.text?_intern_self s))
  have hx := hu.text?_intern_self x
  constructor
  · intro heq
    rw [heq, hx] at hs
    exact (Option.some.inj hs).symm
  · rintro rfl
    exact (hu.intern s).text?_inj hs hx

/-- A text that is found would be filed under the same symbol. -/
theorem Filed.eq_intern_of_find? {t : SymbolTable} (h : t.Filed) {s : String} {a : Symbol}
    (ha : t.find? s = some a) : a = (t.intern s).1 :=
  (h.intern s).text?_inj (h.growsTo_intern s (h.find?_eq_some_iff.1 ha)) (h.text?_intern_self s)

/-- Filing several texts keeps all of them in their shards, and forgets none. -/
theorem Filed.internAll {t : SymbolTable} (h : t.Filed) (texts : List String) :
    (t.internAll texts).Filed ∧ t.GrowsTo (t.internAll texts) := by
  induction texts generalizing t with
  | nil => exact ⟨h, .refl t⟩
  | cons s texts ih =>
      obtain ⟨hfiled, hgrows⟩ := ih (h.intern s)
      exact ⟨hfiled, (h.growsTo_intern s).trans hgrows⟩

/-- The texts on file are those that were filed. -/
theorem Filed.exists_text?_internAll_iff {t : SymbolTable} (h : t.Filed) {texts : List String}
    {x : String} :
    (∃ a, (t.internAll texts).text? a = some x) ↔ (∃ a, t.text? a = some x) ∨ x ∈ texts := by
  induction texts generalizing t with
  | nil => simp
  | cons s texts ih =>
      have hfirst : (∃ a, (t.intern s).2.text? a = some x) ↔
          (∃ a, t.text? a = some x) ∨ x = s := by
        simp only [h.text?_intern_iff, exists_or]
        simp
      rw [internAll_cons, ih (h.intern s), hfirst, List.mem_cons, or_assoc]

/-! ### How many texts there are -/

/-- What a shard has more or less after a change, all of them have together. -/
theorem foldr_size_set {shards : List (Pool String)} {i : Nat} (h : i < shards.length)
    (p : Pool String) :
    (shards.set i p).foldr (fun shard n => shard.size + n) 0 + shards[i].size =
      shards.foldr (fun shard n => shard.size + n) 0 + p.size := by
  induction shards generalizing i with
  | nil => simp at h
  | cons q shards ih =>
      cases i with
      | zero =>
          simp only [List.set_cons_zero, List.foldr_cons, List.getElem_cons_zero]
          omega
      | succ i =>
          have := ih (Nat.lt_of_succ_lt_succ h)
          simp only [List.set_cons_succ, List.foldr_cons, List.getElem_cons_succ]
          omega

/-- A text that is on file already adds nothing; a new one adds one. -/
theorem size_intern (t : SymbolTable) (s : String) :
    (t.intern s).2.size = if (t.find? s).isSome then t.size else t.size + 1 := by
  by_cases hs : s = ""
  · rw [hs, intern_empty, find?_empty]
    rfl
  · have hlt : (t.shardOf s).val < t.shards.toList.length := by simp
    have hset := foldr_size_set hlt (t.shards[t.shardOf s].add s)
    rw [Vector.getElem_toList, Fin.getElem_fin, Pool.size_add] at hset
    rw [intern, if_neg hs, find?, if_neg hs, size, size, Vector.toList_set, Fin.getElem_fin,
      Option.isSome_map]
    by_cases hmem : s ∈ t.shards[(t.shardOf s).val].values
    · have hfind : (t.shards[(t.shardOf s).val].find? s).isSome := by
        rw [Option.isSome_iff_ne_none, Ne, Pool.find?_eq_none_iff]
        exact not_not_intro hmem
      rw [if_pos hmem] at hset
      rw [if_pos hfind]
      omega
    · have hfind : ¬ (t.shards[(t.shardOf s).val].find? s).isSome := by
        rw [Pool.find?_eq_none_iff.2 hmem]
        simp
      rw [if_neg hmem] at hset
      rw [if_neg hfind]
      omega

/-! ### Symbols of 32 bits -/

/-- No shard holds more texts than it has places. -/
def Fits (t : SymbolTable) : Prop :=
  ∀ (i : Nat) (h : i < Symbol.shardCount), t.shards[i].size ≤ Symbol.placeCount

/-- Where there is room for a text, filing it fills no shard beyond its places. -/
theorem Fits.intern {t : SymbolTable} (h : t.Fits) {s : String} (hroom : t.HasRoom s) :
    (t.intern s).2.Fits := by
  intro i hi
  by_cases hs : s = ""
  · rw [hs]
    exact h i hi
  · rw [getElem_shards_intern t hs hi]
    split
    · next hshard =>
      subst hshard
      rw [Pool.size_add]
      split
      · exact h _ hi
      · next hnew =>
        rw [HasRoom, find?, if_neg hs, Fin.getElem_fin, Pool.find?_eq_none_iff.2 hnew] at hroom
        exact hroom.resolve_left (by simp)
    · exact h i hi

/-- If every text finds room, no shard is filled beyond its places. -/
theorem Fits.internAll {t : SymbolTable} (h : t.Fits) {texts : List String}
    (hroom : t.Admits texts) : (t.internAll texts).Fits := by
  induction texts generalizing t with
  | nil => exact h
  | cons s texts ih => exact ih (h.intern hroom.1) hroom.2

/-- The symbols of a table that fits are numbers of 32 bits. -/
theorem Fits.raw_lt {t : SymbolTable} (h : t.Fits) {a : Symbol} {s : String}
    (ha : t.text? a = some s) : a.raw < UInt32.size := by
  rw [text?_eq t a.shard_lt] at ha
  have hplace : a.place < Symbol.placeCount :=
    Nat.lt_of_lt_of_le (Pool.lt_size_of_get? ha) (h a.shard a.shard_lt)
  simp only [Symbol.place, Symbol.shardCount, Symbol.placeCount, UInt32.size] at *
  omega

/-! ### Every run -/

/-- At first there is the empty text in the first shard, and nothing else. -/
theorem getElem_shards_fresh (shardOf : String → Fin Symbol.shardCount) {i : Nat}
    (h : i < Symbol.shardCount) :
    (fresh shardOf).shards[i] = if 0 = i then Pool.empty.add "" else Pool.empty := by
  simp only [fresh, Vector.getElem_set, Vector.getElem_replicate]

/-- All that a new table knows is the empty text. -/
theorem text?_fresh_iff {shardOf : String → Fin Symbol.shardCount} {a : Symbol} {s : String} :
    (fresh shardOf).text? a = some s ↔ a = .none ∧ s = "" := by
  have hnone : a = .none ↔ 0 = a.shard ∧ a.place = 0 := @Symbol.eq_ofParts_iff a 0 0 (by decide)
  rw [text?_eq _ a.shard_lt, getElem_shards_fresh, hnone]
  split
  · next hshard =>
    rw [Pool.get?_add_eq_some_iff, Pool.get?_empty, and_iff_right hshard]
    simp [Pool.numberOf, Pool.find?, Pool.empty, Pool.place, Pool.size]
  · next hshard => simp [hshard]

/-- The empty text is filed where it belongs. -/
theorem filed_fresh (shardOf : String → Fin Symbol.shardCount) : (fresh shardOf).Filed where
  empty := text?_fresh_iff.2 ⟨rfl, rfl⟩
  none_of_empty h := (text?_fresh_iff.1 h).1
  shard h hs := absurd (text?_fresh_iff.1 h).2 hs

/-- One text fits into its shard. -/
theorem fits_fresh (shardOf : String → Fin Symbol.shardCount) : (fresh shardOf).Fits := by
  intro i hi
  rw [getElem_shards_fresh]
  split <;> decide

/-- A run keeps texts in their shards, and forgets none. -/
theorem Filed.after {t : SymbolTable} (h : t.Filed) (rs : List Request) :
    (t.after rs).Filed ∧ t.GrowsTo (t.after rs) := by
  rw [after_eq_internAll]
  exact h.internAll _

/-- A text is found after a run if the run has filed it, and the empty one always. -/
theorem isSome_find?_internAll_fresh_iff {shardOf : String → Fin Symbol.shardCount}
    {texts : List String} {s : String} :
    (((fresh shardOf).internAll texts).find? s).isSome ↔ s = "" ∨ s ∈ texts := by
  rw [((filed_fresh shardOf).internAll texts).1.isSome_find?_iff,
    (filed_fresh shardOf).exists_text?_internAll_iff]
  simp only [text?_fresh_iff, exists_and_right, exists_eq, true_and]

/-- **How many texts are on file**: the empty one and the different ones that were filed. Induction
on the run from its end, as the last text is the one that is new or not. -/
theorem size_internAll_fresh (shardOf : String → Fin Symbol.shardCount) (texts : List String) :
    ((fresh shardOf).internAll texts).size = 1 + (texts.toFinset.erase "").card := by
  induction texts using List.reverseRecOn with
  | nil => rfl
  | append_singleton texts s ih =>
      have hmem (x : String) : x ∈ (texts ++ [s]).toFinset.erase "" ↔
          x ≠ "" ∧ (x ∈ texts ∨ x = s) := by
        rw [Finset.mem_erase, List.mem_toFinset, List.mem_append, List.mem_singleton]
      rw [internAll_append, internAll_cons, internAll_nil, size_intern, ih]
      split
      · next hold =>
        rw [isSome_find?_internAll_fresh_iff] at hold
        have hsame : (texts ++ [s]).toFinset.erase "" = texts.toFinset.erase "" := by
          ext x
          rw [hmem, Finset.mem_erase, List.mem_toFinset]
          constructor
          · rintro ⟨hx, hx' | rfl⟩
            · exact ⟨hx, hx'⟩
            · exact ⟨hx, hold.resolve_left hx⟩
          · rintro ⟨hx, hx'⟩
            exact ⟨hx, .inl hx'⟩
        rw [hsame]
      · next hnew =>
        rw [isSome_find?_internAll_fresh_iff, not_or] at hnew
        have hmore : (texts ++ [s]).toFinset.erase "" = insert s (texts.toFinset.erase "") := by
          ext x
          rw [hmem, Finset.mem_insert, Finset.mem_erase, List.mem_toFinset]
          constructor
          · rintro ⟨hx, hx' | rfl⟩
            · exact .inr ⟨hx, hx'⟩
            · exact .inl rfl
          · rintro (rfl | ⟨hx, hx'⟩)
            · exact ⟨hnew.1, .inr rfl⟩
            · exact ⟨hx, .inl hx'⟩
        have hcard : s ∉ texts.toFinset.erase "" := by
          rw [Finset.mem_erase, List.mem_toFinset]
          exact fun h => hnew.2 h.2
        rw [hmore, Finset.card_insert_of_notMem hcard, Nat.add_assoc]

/-- **Symbols and texts.** In every run of a symbol table, whatever shards it assigns to texts:

* two texts that are filed at any two times get one symbol exactly if they are equal;
* the symbol of a text reads back as that text from then on;
* a text is found exactly if it is empty or was filed before, under the symbol that it was filed
  with and would be filed with again, and looking for it changes nothing;
* a number stands for a text exactly if it is the symbol of that text, so that a number that was not
  given out stands for nothing;
* symbol 0 belongs to the empty text and to no other;
* the size is one more than the number of different texts that were filed, the empty one apart;
* the symbols have 32 bits if no text found its shard full. -/
theorem identifies_texts {shardOf : String → Fin Symbol.shardCount} {rs : List Request}
    {t : SymbolTable} (ht : t = (fresh shardOf).after rs) :
    (∀ (s x : String) (later : List Request),
      (t.intern s).1 = ((t.after (.intern s :: later)).intern x).1 ↔ s = x) ∧
    (∀ (s : String) (later : List Request),
      (t.after (.intern s :: later)).text (t.intern s).1 = s) ∧
    (∀ (s : String) (a : Symbol), t.find? s = some a ↔
      (s = "" ∨ s ∈ rs.flatMap Request.texts) ∧ a = (t.intern s).1) ∧
    (∀ (s : String) (before between : List Request), rs = before ++ .intern s :: between →
      t.find? s = some (((fresh shardOf).after before).intern s).1) ∧
    (∀ s, t.after [.find s] = t) ∧
    (∀ (a : Symbol) (s : String), t.text? a = some s ↔ t.find? s = some a) ∧
    (∀ s, (t.intern s).1 = .none ↔ s = "") ∧
    t.size = 1 + ((rs.flatMap Request.texts).toFinset.erase "").card ∧
    ((fresh shardOf).Admits (rs.flatMap Request.texts) →
      ∀ (a : Symbol) (s : String), t.text? a = some s → a.raw < UInt32.size) := by
  have hfiled : t.Filed := ht ▸ ((filed_fresh shardOf).after rs).1
  have htexts : t = (fresh shardOf).internAll (rs.flatMap Request.texts) := by
    rw [ht, after_eq_internAll]
  have hlater (s : String) (later : List Request) :=
    (hfiled.intern s).after later
  refine ⟨fun s x later => ?_, fun s later => ?_, fun s a => ?_, ?_, fun s => rfl,
    fun a s => ?_, fun s => ?_, ?_, fun hroom a s ha => ?_⟩
  · exact hfiled.intern_eq_iff (hlater s later).1 (hlater s later).2
  · rw [text, after_cons, serve, (hlater s later).2 (hfiled.text?_intern_self s), Option.getD_some]
  · rw [← @isSome_find?_internAll_fresh_iff shardOf, ← htexts]
    constructor
    · intro ha
      exact ⟨Option.isSome_of_eq_some ha, hfiled.eq_intern_of_find? ha⟩
    · rintro ⟨hsome, rfl⟩
      obtain ⟨b, hb⟩ := Option.isSome_iff_exists.1 hsome
      rw [hb, hfiled.eq_intern_of_find? hb]
  · rintro s before between rfl
    have hbefore := ((filed_fresh shardOf).after before).1
    rw [hfiled.find?_eq_some_iff, ht, after_append]
    exact ((hbefore.intern s).after between).2 (hbefore.text?_intern_self s)
  · exact hfiled.find?_eq_some_iff.symm
  · constructor
    · intro hnone
      have hs := hfiled.text?_intern_self s
      rw [hnone, (hfiled.intern s).empty] at hs
      exact (Option.some.inj hs).symm
    · rintro rfl
      rfl
  · rw [htexts, size_internAll_fresh]
  · rw [htexts] at ha
    exact ((fits_fresh shardOf).internAll hroom).raw_lt ha

/-! ### Two texts of one shard -/

/-- All texts go to shard 3. -/
def crowded : String → Fin Symbol.shardCount := fun _ => ⟨3, by decide⟩

/-- Two texts of shard 3 are filed, and in between one of them is looked for. -/
def crowdedRun : List Request := [.intern "p", .find "q", .intern "", .intern "q"]

/-- After this run each text has its symbol, and the symbols are numbers of 32 bits. -/
theorem identifies_texts_crowded :
    crowdedRun = [] ++ .intern "p" :: crowdedRun.tail ∧
    ((fresh crowded).after crowdedRun).find? "p" = some ⟨3⟩ ∧
    (fresh crowded).Admits (crowdedRun.flatMap Request.texts) ∧
    ∀ (a : Symbol) (s : String), ((fresh crowded).after crowdedRun).text? a = some s →
      a.raw < UInt32.size := by
  obtain ⟨-, -, -, hfind, -, -, -, -, hbits⟩ :=
    @identifies_texts crowded crowdedRun _ rfl
  have hroom : (fresh crowded).Admits (crowdedRun.flatMap Request.texts) := by decide
  exact ⟨rfl, hfind "p" [] crowdedRun.tail rfl, hroom, hbits hroom⟩

end SymbolTable

end Linkage
