import Linkage.Proofs.TypeTableGrowth

/-!
# Full Shards

A shard numbers only so many texts, and a call that has to file one more text there does not
return. Which texts a request files can be told from the request alone: `Files` follows them through
the computations that serve it. So a run returns exactly if its texts find room one after the other,
and then the limit has played no part: the run is the one that `after` describes.

Shards fill up by texts that are all new. `Crowds` describes a list of such texts for one shard: as
many of them are filed as the shard has places left, and the next one is refused.

## Main definitions

* `SymbolTable.Crowds`: different texts of one shard, none of which is on file.
* `TypeTable.Files`: a computation files these texts, and no others.

## Main results

* `SymbolTable.Crowds.values_internAll`, `SymbolTable.Crowds.admits`: a shard that fills up.
* `TypeTable.files_serve`: the texts that a request files.
* `TypeTable.call_eq_ok_iff`, `TypeTable.calls_eq_ok_iff`: when a call and a run return.
* `TypeTable.fits_of_calls`: in the course of a run no shard is filled beyond its places.
-/

namespace Linkage

namespace SymbolTable

/-! ### Refusals -/

/-- A text finds room if it is on file in its shard, or its shard has a place left. -/
theorem hasRoom_iff {t : SymbolTable} {s : String} {i : Fin Symbol.shardCount} (hs : s ≠ "")
    (hi : t.shardOf s = i) : t.HasRoom s ↔
      s ∈ t.shards[i].values ∨ t.shards[i].size < Symbol.placeCount := by
  subst hi
  have hfind : (t.find? s).isSome ↔ s ∈ t.shards[t.shardOf s].values := by
    rw [find?, if_neg hs, Option.isSome_map, Option.isSome_iff_ne_none, Ne, Pool.find?_eq_none_iff,
      not_not]
  rw [HasRoom, hfind]
  rfl

/-- A text that is refused finds all places of its shard taken. -/
theorem Fits.intern?_eq_error {t : SymbolTable} (h : t.Fits) {s : String}
    (hroom : ¬ t.HasRoom s) : t.intern? s = .error ⟨t.shardOf s, Symbol.placeCount⟩ := by
  have hfull : Symbol.placeCount ≤ (t.shards.get (t.shardOf s)).size :=
    Nat.le_of_not_lt fun hlt => hroom (.inr hlt)
  have hsize : (t.shards.get (t.shardOf s)).size = Symbol.placeCount :=
    Nat.le_antisymm (h _ (t.shardOf s).isLt) hfull
  rw [intern?, if_neg hroom, hsize]

/-- A list of texts is refused if its first one is. -/
theorem Fits.internAll?_eq_error {t : SymbolTable} (h : t.Fits) {s : String}
    (hroom : ¬ t.HasRoom s) (texts : List String) :
    t.internAll? (s :: texts) = .error ⟨t.shardOf s, Symbol.placeCount⟩ := by
  rw [internAll?, h.intern?_eq_error hroom]
  rfl

/-- A shard has no more texts than its table. -/
theorem size_shard_le (t : SymbolTable) {i : Nat} (h : i < Symbol.shardCount) :
    t.shards[i].size ≤ t.size := by
  have hset := foldr_size_set (i := i) (show i < t.shards.toList.length by simpa using h) .empty
  rw [Vector.getElem_toList, Pool.size_empty] at hset
  rw [size]
  omega

/-- A table with few texts fits, whatever shards they are in. -/
theorem fits_of_size_le {t : SymbolTable} (h : t.size ≤ Symbol.placeCount) : t.Fits :=
  fun _ hi => (t.size_shard_le hi).trans h

/-! ### Tables with fewer texts -/

/-- One table has the texts of another one in the same shards, and maybe more of them. -/
structure Covers (t u : SymbolTable) : Prop where
  shardOf : u.shardOf = t.shardOf
  values : ∀ (i : Nat) (h : i < Symbol.shardCount), u.shards[i].values ⊆ t.shards[i].values

section Covers

variable {t u : SymbolTable} {s : String}

/-- A table with fewer texts has room where one with more of them has. -/
theorem Covers.hasRoom (h : t.Covers u) (hfits : t.Fits) (hroom : t.HasRoom s) : u.HasRoom s := by
  by_cases hs : s = ""
  · exact .inl (by rw [hs]; rfl)
  have hsubset := h.values (t.shardOf s) (t.shardOf s).isLt
  have hnodup := u.shards[(t.shardOf s).val].nodup
  rw [hasRoom_iff hs rfl] at hroom
  rw [hasRoom_iff hs (congrFun h.shardOf s), or_iff_not_imp_left]
  intro hnew
  rcases hroom with hold | hplace
  · -- the text has a place in one of the shards that it could take up in the other one
    have hlength := (List.subperm_of_subset (List.nodup_cons.2 ⟨hnew, hnodup⟩)
      (List.cons_subset.2 ⟨hold, hsubset⟩)).length_le
    exact Nat.lt_of_lt_of_le hlength (hfits _ (t.shardOf s).isLt)
  · have hlength := (List.subperm_of_subset hnodup hsubset).length_le
    exact Nat.lt_of_le_of_lt hlength hplace

/-- A table keeps the texts of another one if both file the same. -/
theorem Covers.intern (h : t.Covers u) (s : String) : (t.intern s).2.Covers (u.intern s).2 where
  shardOf := by rw [shardOf_intern, shardOf_intern, h.shardOf]
  values i hi := by
    by_cases hs : s = ""
    · rw [hs]
      exact h.values i hi
    · rw [getElem_shards_intern t hs hi, getElem_shards_intern u hs hi, h.shardOf]
      split
      · intro x hx
        exact Pool.mem_values_add.2 ((Pool.mem_values_add.1 hx).imp_left (h.values i hi ·))
      · exact h.values i hi

/-- A table keeps the texts of another one that files nothing. -/
theorem Covers.intern_left (h : t.Covers u) (s : String) : (t.intern s).2.Covers u where
  shardOf := by rw [shardOf_intern, h.shardOf]
  values i hi := by
    by_cases hs : s = ""
    · rw [hs]
      exact h.values i hi
    · rw [getElem_shards_intern t hs hi]
      split
      · exact fun x hx => Pool.mem_values_add.2 (.inl (h.values i hi hx))
      · exact h.values i hi

/-- A table that files texts keeps those that it had. -/
theorem covers_internAll (t : SymbolTable) (texts : List String) :
    (t.internAll texts).Covers t := by
  induction texts using List.reverseRecOn with
  | nil => exact ⟨rfl, fun _ _ _ => id⟩
  | append_singleton texts s ih =>
      rw [internAll_append, internAll_cons, internAll_nil]
      exact ih.intern_left s

/-- **What a table with more texts admits**, one with fewer of them admits too. -/
theorem Covers.admits (h : t.Covers u) (hfits : t.Fits) {texts : List String}
    (hroom : t.Admits texts) : u.Admits texts := by
  induction texts generalizing t u with
  | nil => exact trivial
  | cons s texts ih =>
      exact ⟨h.hasRoom hfits hroom.1, ih (h.intern s) (hfits.intern hroom.1) hroom.2⟩

end Covers

/-! ### Shards that fill up -/

/-- Different texts that all belong to one shard, and none of which is on file. -/
structure Crowds (t : SymbolTable) (i : Fin Symbol.shardCount) (texts : List String) : Prop where
  nodup : texts.Nodup
  ne_empty : ∀ s ∈ texts, s ≠ ""
  shard : ∀ s ∈ texts, t.shardOf s = i
  new : ∀ s ∈ texts, s ∉ t.shards[i].values

namespace Crowds

variable {t : SymbolTable} {i : Fin Symbol.shardCount} {s : String} {texts : List String}

/-- The first of such texts is put behind those of its shard. -/
theorem values_intern (h : t.Crowds i (s :: texts)) :
    (t.intern s).2.shards[i].values = t.shards[i].values ++ [s] := by
  have hs := List.mem_cons_self (a := s) (l := texts)
  rw [Fin.getElem_fin, getElem_shards_intern t (h.ne_empty s hs) i.isLt,
    if_pos (congrArg Fin.val (h.shard s hs)), Pool.values_add]
  exact if_neg (h.new s hs)

/-- Once the first of such texts is filed, the others are left. -/
theorem tail (h : t.Crowds i (s :: texts)) : (t.intern s).2.Crowds i texts where
  nodup := (List.nodup_cons.1 h.nodup).2
  ne_empty x hx := h.ne_empty x (List.mem_cons_of_mem _ hx)
  shard x hx := by
    rw [shardOf_intern]
    exact h.shard x (List.mem_cons_of_mem _ hx)
  new x hx := by
    rw [h.values_intern, List.mem_append, List.mem_singleton]
    rintro (hold | rfl)
    · exact h.new x (List.mem_cons_of_mem _ hx) hold
    · exact (List.nodup_cons.1 h.nodup).1 hx

/-- **Such texts are put behind those of their shard**, all of them. -/
theorem values_internAll (h : t.Crowds i texts) :
    (t.internAll texts).shards[i].values = t.shards[i].values ++ texts := by
  induction texts generalizing t with
  | nil => rw [internAll_nil, List.append_nil]
  | cons s texts ih => rw [internAll_cons, ih h.tail, h.values_intern, List.append_assoc]; rfl

/-- The first of such texts finds room if its shard has a place left. -/
theorem hasRoom_head_iff (h : t.Crowds i (s :: texts)) :
    t.HasRoom s ↔ t.shards[i].size < Symbol.placeCount := by
  have hs := List.mem_cons_self (a := s) (l := texts)
  rw [hasRoom_iff (h.ne_empty s hs) (h.shard s hs), or_iff_right (h.new s hs)]

/-- **Such texts are filed** if their shard has a place for each of them. -/
theorem admits (h : t.Crowds i texts)
    (hroom : t.shards[i].size + texts.length ≤ Symbol.placeCount) : t.Admits texts := by
  induction texts generalizing t with
  | nil => exact trivial
  | cons s texts ih =>
      rw [List.length_cons] at hroom
      refine ⟨h.hasRoom_head_iff.2 (by omega), ih h.tail ?_⟩
      rw [Pool.size, h.values_intern, List.length_append, List.length_singleton, ← Pool.size]
      omega

end Crowds

end SymbolTable

namespace TypeTable

/-! ### The texts of a computation -/

/-- A computation files these texts, in order, and no others. -/
def Files {α : Type} (texts : List String) (x : Interning α) : Prop :=
  ∀ t : TypeTable, (x t).2.symbols = t.symbols.internAll texts

section Files

variable {α β : Type}

/-- An answer that is at hand files nothing. -/
theorem files_pure (a : α) : Files [] (pure a) := fun _ => rfl

/-- One computation after the other files the texts of both. -/
theorem Files.bind {texts more : List String} {x : Interning α} {f : α → Interning β}
    (hx : Files texts x) (hf : ∀ a, Files more (f a)) : Files (texts ++ more) (x >>= f) := by
  intro t
  have hrest := hf (x t).1 (x t).2
  rw [hx t] at hrest
  rw [SymbolTable.internAll_append]
  exact hrest

/-- What is made of an answer afterwards files nothing. -/
theorem Files.bind_pure {texts : List String} {x : Interning α} (hx : Files texts x) (f : α → β) :
    Files texts (do return f (← x)) := by
  have hbind := hx.bind fun a => files_pure (f a)
  rw [List.append_nil] at hbind
  exact hbind

/-- A computation for each of several things files the texts of each. -/
theorem files_mapM {texts : α → List String} {f : α → Interning β}
    (hf : ∀ a, Files (texts a) (f a)) (as : List α) : Files (as.flatMap texts) (as.mapM f) := by
  induction as with
  | nil => exact files_pure []
  | cons a as ih =>
      rw [List.mapM_cons, List.flatMap_cons]
      exact (hf a).bind fun b => ih.bind_pure (b :: ·)

/-- Adding a type files nothing. -/
theorem files_intern (data : TypeData) : Files [] (intern data) := fun _ => rfl

/-- Adding a prototype files nothing. -/
theorem files_internProto (p : Proto) : Files [] (internProto p) := fun _ => rfl

/-- Filing a text files it. -/
theorem files_internText (s : String) : Files [s] (internText s) := fun _ => rfl

/-- A class files the text that it is known by. -/
theorem files_classNamed (name : String) : Files ["L" ++ name ++ ";"] (classNamed name) :=
  (files_internText _).bind fun a => files_intern (.named a)

/-- Array types file nothing. -/
theorem files_arraysOf (n : Nat) (id : TypeId) : Files [] (arraysOf n id) := by
  induction n generalizing id with
  | zero => exact files_pure id
  | succ n ih => exact (files_intern (.array id)).bind ih

/-- The type of a field files the text of its class. -/
theorem files_internField (d : FieldDescriptor) : Files (fieldTexts d) (internField d) := by
  obtain ⟨n, base⟩ := d
  cases base with
  | primitive p => exact files_arraysOf n p.typeId
  | object name => exact (files_classNamed name).bind (files_arraysOf n)

/-- A prototype files the texts of its types, that of the return type first. -/
theorem files_internMethod (d : MethodDescriptor) : Files (methodTexts d) (internMethod d) := by
  refine (files_internField d.ret).bind fun ret => ?_
  have hparams := (files_mapM files_internField d.params).bind fun params =>
    files_internProto ⟨params, ret⟩
  rw [List.append_nil] at hparams
  exact hparams

/-- A field descriptor files the text of its class, and a faulty one nothing. -/
theorem files_internDescriptor (s : String) : Files (descriptorTexts s) (internDescriptor s) := by
  rw [internDescriptor, descriptorTexts]
  cases FieldDescriptor.ofString s with
  | error e => exact files_pure _
  | ok d => exact (files_internField d).bind_pure Except.ok

/-- A method descriptor files the texts of its types, and a faulty one nothing. -/
theorem files_internProtoDescriptor (s : String) :
    Files (protoTexts s) (internProtoDescriptor s) := by
  rw [internProtoDescriptor, protoTexts]
  cases MethodDescriptor.ofString s with
  | error e => exact files_pure _
  | ok d => exact (files_internMethod d).bind_pure Except.ok

/-- **The texts that a request files** are those that can be told beforehand. -/
theorem files_serve (r : Request) : Files r.texts (serve r) := by
  cases r with
  | text s => exact files_internText s
  | type data => exact files_intern data
  | classNamed name => exact files_classNamed name
  | arrayOf element => exact files_intern (.array element)
  | descriptor s => exact files_internDescriptor s
  | proto p => exact files_internProto p
  | protoDescriptor s => exact files_internProtoDescriptor s
  | methodSig name s =>
      exact (files_internText name).bind fun a =>
        (files_internProtoDescriptor s).bind_pure fun answer => answer.map (MethodSig.mk a)
  | fieldSig name s =>
      exact (files_internText name).bind fun a =>
        (files_internDescriptor s).bind_pure fun answer => answer.map (FieldSig.mk a)

/-- The texts that a run files are those of its requests. -/
theorem symbols_after (t : TypeTable) (rs : List Request) :
    (t.after rs).symbols = t.symbols.internAll (rs.flatMap Request.texts) := by
  induction rs generalizing t with
  | nil => rfl
  | cons r rs ih =>
      rw [after_cons, ih, files_serve r t, List.flatMap_cons, SymbolTable.internAll_append]

end Files

/-! ### Calls that return -/

section Calls

variable {t u : TypeTable} {r : Request} {rs ss : List Request}

/-- **A call returns** exactly if its texts find room, and then with the answer to its request. -/
theorem call_eq_ok_iff {p : r.Result × TypeTable} :
    call r t = .ok p ↔ t.symbols.Admits r.texts ∧ p = serve r t := by
  rw [call]
  cases h : t.symbols.internAll? r.texts with
  | error e =>
      have hroom : ¬ t.symbols.Admits r.texts := fun hroom => by
        rw [SymbolTable.internAll?_eq_ok_iff.2 ⟨hroom, rfl⟩] at h
        cases h
      simp [hroom, Except.map]
  | ok symbols =>
      simp [(SymbolTable.internAll?_eq_ok_iff.1 h).1, Except.map, eq_comm]

/-- A call that files a text whose shard is full does not return. -/
theorem call_eq_error {texts : List String} {e : ShardFull} (htexts : r.texts = texts)
    (h : t.symbols.internAll? texts = .error e) : call r t = .error e := by
  rw [call, htexts, h]
  rfl

/-- **A run returns** exactly if its texts find room one after the other, and then the limit plays
no part. -/
theorem calls_eq_ok_iff :
    t.calls rs = .ok u ↔ t.symbols.Admits (rs.flatMap Request.texts) ∧ u = t.after rs := by
  induction rs generalizing t with
  | nil => simp [calls, SymbolTable.Admits, eq_comm]
  | cons r rs ih =>
      rw [List.flatMap_cons, SymbolTable.admits_append, ← files_serve r t, after_cons, and_assoc,
        ← ih, calls]
      cases hcall : call r t with
      | error e =>
          have hroom : ¬ t.symbols.Admits r.texts := fun hroom => by
            rw [call_eq_ok_iff.2 ⟨hroom, rfl⟩] at hcall
            cases hcall
          simp [hroom, bind, Except.bind]
      | ok p =>
          obtain ⟨hroom, rfl⟩ := call_eq_ok_iff.1 hcall
          rw [and_iff_right hroom]
          rfl

/-- A run without calls returns. -/
theorem calls_nil : t.calls [] = .ok t := rfl

/-- A run returns if its first call does, and the others do from there on. -/
theorem calls_cons_eq_ok_iff :
    t.calls (r :: rs) = .ok u ↔ ∃ p, call r t = .ok p ∧ p.2.calls rs = .ok u := by
  rw [calls]
  cases call r t with
  | error e => simp [bind, Except.bind]
  | ok p => simp [bind, Except.bind]

/-- What a call knows, it does not forget. -/
theorem Founded.call {p : r.Result × TypeTable} (h : t.Founded) (hcall : call r t = .ok p) :
    p.2.Founded ∧ t.GrowsTo p.2 := by
  obtain ⟨-, rfl⟩ := call_eq_ok_iff.1 hcall
  obtain ⟨hfiled, hgrows⟩ := enlarges_serve r t h.filed
  exact ⟨h.growsTo hfiled hgrows, hgrows⟩

/-- What a run knows, it does not forget. -/
theorem Founded.calls (h : t.Founded) (hcalls : t.calls rs = .ok u) :
    u.Founded ∧ t.GrowsTo u := by
  obtain ⟨-, rfl⟩ := calls_eq_ok_iff.1 hcalls
  exact h.after rs

/-- The type of a field finds room if the text of its class does. -/
theorem admits_fieldTexts_iff {symbols : SymbolTable} {d : FieldDescriptor} :
    symbols.Admits (fieldTexts d) ↔ ∀ s ∈ fieldTexts d, symbols.HasRoom s := by
  obtain ⟨n, p | name⟩ := d <;> simp [fieldTexts, SymbolTable.Admits]

end Calls

/-! ### Tables that fit -/

/-- The texts that every table files for the types and names that resolution has to recognise. -/
def wellKnownTexts : List String :=
  ["Ljava/lang/Object;", "Ljava/lang/invoke/MethodHandle;", "Ljava/lang/invoke/VarHandle;", "clone",
    "<init>", "<clinit>"]

/-- The types and names that resolution has to recognise are filed by their texts. -/
theorem files_internWellKnown : Files wellKnownTexts internWellKnown := fun _ => rfl

/-- What a new table has filed. -/
theorem symbols_freshWith (shardOf : String → Fin Symbol.shardCount) :
    (freshWith shardOf).symbols =
      (SymbolTable.fresh shardOf).internAll (SymbolTable.commonTexts ++ wellKnownTexts) := by
  rw [freshWith_eq, SymbolTable.internAll_append]
  exact files_internWellKnown _

/-- A new table has room to spare, whatever the choice of shards is. -/
theorem fits_freshWith (shardOf : String → Fin Symbol.shardCount) :
    (freshWith shardOf).symbols.Fits := by
  refine SymbolTable.fits_of_size_le ?_
  rw [symbols_freshWith, SymbolTable.size_internAll_fresh]
  have htexts : 1 + (SymbolTable.commonTexts ++ wellKnownTexts).length ≤ Symbol.placeCount := by
    decide
  refine le_trans (Nat.add_le_add_left ?_ 1) htexts
  exact (Finset.card_erase_le).trans (List.toFinset_card_le _)

/-- **In the course of a run** no shard is filled beyond its places. -/
theorem fits_of_calls {shardOf : String → Fin Symbol.shardCount} {rs : List Request} {t : TypeTable}
    (h : (freshWith shardOf).calls rs = .ok t) : t.symbols.Fits := by
  obtain ⟨hroom, rfl⟩ := calls_eq_ok_iff.1 h
  rw [symbols_after]
  exact (fits_freshWith shardOf).internAll hroom

/-- The tables of runs that return are among those that come about. -/
theorem founded_of_calls {shardOf : String → Fin Symbol.shardCount} {rs : List Request}
    {t : TypeTable} (h : (freshWith shardOf).calls rs = .ok t) : t.Founded := by
  obtain ⟨-, rfl⟩ := calls_eq_ok_iff.1 h
  exact ((founded_freshWith shardOf).after rs).1

/-! ### A table whose shard is full -/

/-- The name that has so many letters, and one more. -/
def longName (k : Nat) : String := String.ofList (List.replicate (k + 1) 'x')

/-- The text that the class of such a name is known by. -/
def longText (k : Nat) : String := "L" ++ longName k ++ ";"

/-- Classes of different names, as many as are wanted. -/
def crowdingRun (n : Nat) : List Request := (List.range n).map fun k => .classNamed (longName k)

/-- The table after such a run, with all texts in one shard. -/
def crowdedOut (n : Nat) : TypeTable := (freshWith SymbolTable.crowded).after (crowdingRun n)

/-- The shard that all texts go to. -/
abbrev crowdedShard : Fin Symbol.shardCount := ⟨3, Nat.le_add_left 4 60⟩

/-- How many texts a new table has in that shard. -/
def builtInTexts : Nat := 47

/-- How many types a new table has. -/
def builtInTypes : Nat := 13

/-- The built-in texts are all in the crowded shard. -/
theorem size_freshWith_crowded :
    (freshWith SymbolTable.crowded).symbols.shards[crowdedShard].size = builtInTexts := by
  decide +kernel

/-- All texts belong to the crowded shard. -/
theorem shardOf_crowdedOut (n : Nat) (s : String) :
    (crowdedOut n).symbols.shardOf s = crowdedShard := by
  rw [crowdedOut, symbols_after, SymbolTable.shardOf_internAll, symbols_freshWith,
    SymbolTable.shardOf_internAll]
  rfl

/-- The characters of a long text. -/
theorem toList_longText (k : Nat) :
    (longText k).toList = 'L' :: 'x' :: (List.replicate k 'x' ++ [';']) := by
  simp [longText, longName, List.replicate_succ]

/-- Different long texts have different lengths. -/
theorem longText_inj {k l : Nat} (h : longText k = longText l) : k = l := by
  have hlength := congrArg (fun s : String => s.toList.length) h
  simpa [toList_longText] using hlength

/-- The run files the long texts, and no others. -/
theorem flatMap_texts_crowdingRun (n : Nat) :
    (crowdingRun n).flatMap Request.texts = (List.range n).map longText := by
  rw [crowdingRun, List.flatMap_map, ← List.flatMap_pure_eq_map]
  rfl

/-- No text of a new table is the text of such a class. -/
theorem longText_notMem_freshWith (k : Nat) :
    longText k ∉ (freshWith SymbolTable.crowded).symbols.shards[crowdedShard].values := by
  have hnone : ∀ s ∈ (freshWith SymbolTable.crowded).symbols.shards[crowdedShard].values,
      s.toList.take 2 ≠ ['L', 'x'] := by decide +kernel
  intro hmem
  exact hnone _ hmem (by rw [toList_longText]; rfl)

/-- The texts of such a run crowd the shard of a new table. -/
theorem crowds_longTexts (n : Nat) :
    (freshWith SymbolTable.crowded).symbols.Crowds crowdedShard ((List.range n).map longText) where
  nodup := List.nodup_range.map fun _ _ => longText_inj
  ne_empty s hs := by
    obtain ⟨k, -, rfl⟩ := List.mem_map.1 hs
    intro hempty
    have hlist := toList_longText k
    rw [hempty] at hlist
    cases hlist
  shard s hs := by
    rw [symbols_freshWith, SymbolTable.shardOf_internAll]
    rfl
  new s hs := by
    obtain ⟨k, -, rfl⟩ := List.mem_map.1 hs
    exact longText_notMem_freshWith k

/-- The long texts come behind the built-in ones. -/
theorem values_crowdedOut (n : Nat) :
    (crowdedOut n).symbols.shards[crowdedShard].values =
      (freshWith SymbolTable.crowded).symbols.shards[crowdedShard].values ++
        (List.range n).map longText := by
  rw [crowdedOut, symbols_after, flatMap_texts_crowdingRun]
  exact (crowds_longTexts n).values_internAll

/-- **A run that fills its shard** returns for as long as there are places. -/
theorem calls_crowdingRun {n : Nat} (h : builtInTexts + n ≤ Symbol.placeCount) :
    (freshWith SymbolTable.crowded).calls (crowdingRun n) = .ok (crowdedOut n) := by
  refine calls_eq_ok_iff.2 ⟨?_, rfl⟩
  rw [flatMap_texts_crowdingRun]
  refine (crowds_longTexts n).admits ?_
  rw [size_freshWith_crowded, List.length_map, List.length_range]
  exact h

/-- How many classes fill up the shard of a new table. -/
def crowdingCount : Nat := Symbol.placeCount - builtInTexts

/-- As many long texts as this fill the shard up. -/
theorem builtInTexts_add_crowdingCount : builtInTexts + crowdingCount = Symbol.placeCount := by
  decide

/-- **Once all places are taken**, a text that is not on file finds no room. -/
theorem not_hasRoom_crowdedOut {s : String} (hempty : s ≠ "") (hlong : ∀ k, s ≠ longText k)
    (hs : s ∉ (freshWith SymbolTable.crowded).symbols.shards[crowdedShard].values) :
    ¬ (crowdedOut crowdingCount).symbols.HasRoom s := by
  have hfull :
      (crowdedOut crowdingCount).symbols.shards[crowdedShard].size = Symbol.placeCount := by
    rw [Pool.size, values_crowdedOut, List.length_append, ← Pool.size, size_freshWith_crowded,
      List.length_map, List.length_range, builtInTexts_add_crowdingCount]
  rw [SymbolTable.hasRoom_iff hempty (shardOf_crowdedOut crowdingCount s), hfull,
    or_iff_left (Nat.lt_irrefl _), values_crowdedOut, List.mem_append, List.mem_map]
  rintro (hold | ⟨k, -, rfl⟩)
  · exact hs hold
  · exact hlong k rfl

/-- A class that is not among those that fill the shard is refused. -/
theorem internAll?_crowdedOut : (crowdedOut crowdingCount).symbols.internAll? ["Lp/A;"] =
    .error ⟨crowdedShard, Symbol.placeCount⟩ := by
  have hroom : ¬ (crowdedOut crowdingCount).symbols.HasRoom "Lp/A;" := by
    refine not_hasRoom_crowdedOut (by decide) (fun k hk => ?_) (by decide +kernel)
    have hletters := congrArg String.toList hk
    rw [toList_longText] at hletters
    simp at hletters
  have hfits := fits_of_calls (calls_crowdingRun (Nat.le_of_eq builtInTexts_add_crowdingCount))
  rw [hfits.internAll?_eq_error hroom, shardOf_crowdedOut]

/-- A class adds at most one type. -/
theorem typeCount_classNamed_le (name : String) (t : TypeTable) :
    (classNamed name t).2.typeCount ≤ t.typeCount + 1 := by
  change (t.types.add _).size ≤ _
  rw [Pool.size_add, typeCount]
  split <;> omega

/-- Classes add at most one type each. -/
theorem typeCount_after_classNamed_le (names : List String) (t : TypeTable) :
    (t.after (names.map .classNamed)).typeCount ≤ t.typeCount + names.length := by
  induction names generalizing t with
  | nil => exact Nat.le_refl _
  | cons name names ih =>
      rw [List.map_cons, after_cons, serve, List.length_cons]
      have hstep := typeCount_classNamed_le name t
      have hrest := ih (classNamed name t).2
      omega

/-- A run that fills its shard adds few types. -/
theorem typeCount_crowdedOut_le (n : Nat) : (crowdedOut n).typeCount ≤ builtInTypes + n := by
  have hfresh : (freshWith SymbolTable.crowded).typeCount = builtInTypes := by decide +kernel
  have hnames := typeCount_after_classNamed_le ((List.range n).map longName)
    (freshWith SymbolTable.crowded)
  rw [List.map_map, List.length_map, List.length_range, hfresh] at hnames
  exact hnames

end TypeTable

end Linkage
