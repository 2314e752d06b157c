import Linkage.Symbol

/-!
# Requests to a Symbol Table

A symbol table is asked to file texts and to find them. A request names what is asked, so that the
history of a table is a list of requests.

A symbol has to fit into 32 bits, which bounds how many texts a shard can number. A text that finds
its shard full is refused with a report, `intern?`; `intern` itself numbers on regardless, and is
what `intern?` does wherever there is room.

## Main definitions

* `SymbolTable.serve`: the table after a request.
* `SymbolTable.after`: the table after a list of requests.
* `SymbolTable.Admits`: no text of a list finds its shard full.
* `SymbolTable.intern?`, `SymbolTable.internAll?`: filing that is refused by a full shard.
-/

namespace Linkage

/-- How many texts a shard can number: of the 32 bits of a symbol, six say the shard. -/
def Symbol.placeCount : Nat := 67108864

/-- A text was refused, because its shard has no place left. -/
structure ShardFull where
  shard : Fin Symbol.shardCount
  size : Nat
deriving DecidableEq, Repr

/-- The report on a full shard. -/
def ShardFull.message (e : ShardFull) : String :=
  "interner shard " ++ toString e.shard.val ++ " is full (" ++ toString e.size ++
    " strings); atoms would alias"

namespace SymbolTable

/-- What a symbol table can be asked. -/
inductive Request
  | intern (s : String)
  | find (s : String)
  | internCommon

/-- The texts that a request files, in order. -/
def Request.texts : Request → List String
  | .intern s => [s]
  | .find _ => []
  | .internCommon => commonTexts

/-- The table after a request. -/
def serve (t : SymbolTable) : Request → SymbolTable
  | .intern s => (t.intern s).2
  | .find _ => t
  | .internCommon => t.internCommon

/-- The table after some requests, in order. -/
def after (t : SymbolTable) (requests : List Request) : SymbolTable := requests.foldl serve t

/-- Whether a text can be filed: it is on file already, or its shard has a place left. -/
def HasRoom (t : SymbolTable) (s : String) : Prop :=
  (t.find? s).isSome ∨ (t.shards.get (t.shardOf s)).size < Symbol.placeCount

instance (t : SymbolTable) (s : String) : Decidable (t.HasRoom s) :=
  inferInstanceAs (Decidable (_ ∨ _))

/-- Whether texts can be filed, each in the table that the ones before it have left. -/
def Admits (t : SymbolTable) : List String → Prop
  | [] => True
  | s :: rest => t.HasRoom s ∧ (t.intern s).2.Admits rest

instance decidableAdmits : (t : SymbolTable) → (texts : List String) → Decidable (t.Admits texts)
  | _, [] => inferInstanceAs (Decidable True)
  | t, s :: rest =>
    have := decidableAdmits (t.intern s).2 rest
    inferInstanceAs (Decidable (t.HasRoom s ∧ (t.intern s).2.Admits rest))

/-- Files a text, unless its shard is full. -/
def intern? (t : SymbolTable) (s : String) : Except ShardFull (Symbol × SymbolTable) :=
  if t.HasRoom s then .ok (t.intern s)
  else .error ⟨t.shardOf s, (t.shards.get (t.shardOf s)).size⟩

/-- Files several texts, in order, unless one of them finds its shard full. -/
def internAll? (t : SymbolTable) : List String → Except ShardFull SymbolTable
  | [] => .ok t
  | s :: rest => do
    let (_, t) ← t.intern? s
    t.internAll? rest

/-! ### Small facts -/

/-- Without requests the table stays as it is. -/
@[simp] theorem after_nil (t : SymbolTable) : t.after [] = t := rfl

/-- Requests are served one after the other. -/
@[simp] theorem after_cons (t : SymbolTable) (r : Request) (rs : List Request) :
    t.after (r :: rs) = (t.serve r).after rs := rfl

/-- A run can be cut in two. -/
theorem after_append (t : SymbolTable) (rs more : List Request) :
    t.after (rs ++ more) = (t.after rs).after more := List.foldl_append

/-- Without texts the table stays as it is. -/
@[simp] theorem internAll_nil (t : SymbolTable) : t.internAll [] = t := rfl

/-- Texts are filed one after the other. -/
@[simp] theorem internAll_cons (t : SymbolTable) (s : String) (texts : List String) :
    t.internAll (s :: texts) = (t.intern s).2.internAll texts := rfl

/-- Texts behind others are filed after them. -/
theorem internAll_append (t : SymbolTable) (texts more : List String) :
    t.internAll (texts ++ more) = (t.internAll texts).internAll more := List.foldl_append

/-- Filing texts does not change which shards texts belong to. -/
@[simp] theorem shardOf_internAll (t : SymbolTable) (texts : List String) :
    (t.internAll texts).shardOf = t.shardOf := by
  induction texts generalizing t with
  | nil => rfl
  | cons s texts ih => rw [internAll_cons, ih, shardOf_intern]

/-- **Texts are filed one after the other** if each of them finds room, and not otherwise. -/
theorem internAll?_eq_ok_iff {t u : SymbolTable} {texts : List String} :
    t.internAll? texts = .ok u ↔ t.Admits texts ∧ u = t.internAll texts := by
  induction texts generalizing t with
  | nil => simp [internAll?, Admits, eq_comm]
  | cons s texts ih =>
    by_cases hroom : t.HasRoom s
    · have hstep : t.internAll? (s :: texts) = (t.intern s).2.internAll? texts := by
        rw [internAll?, intern?, if_pos hroom]
        rfl
      rw [hstep, ih, Admits, and_iff_right hroom, internAll_cons]
    · have hstep : ∃ e, t.internAll? (s :: texts) = .error e := by
        rw [internAll?, intern?, if_neg hroom]
        exact ⟨_, rfl⟩
      obtain ⟨e, he⟩ := hstep
      simp [he, Admits, hroom]

/-- Texts are admitted behind others if they are where these have led. -/
theorem admits_append {t : SymbolTable} {texts more : List String} :
    t.Admits (texts ++ more) ↔ t.Admits texts ∧ (t.internAll texts).Admits more := by
  induction texts generalizing t with
  | nil => simp [Admits]
  | cons s texts ih => rw [List.cons_append, Admits, Admits, ih, internAll_cons, and_assoc]

/-- A request files its texts, and does nothing else. -/
theorem serve_eq_internAll (t : SymbolTable) (r : Request) : t.serve r = t.internAll r.texts := by
  cases r <;> rfl

/-- A run files the texts of its requests, and does nothing else. -/
theorem after_eq_internAll (t : SymbolTable) (rs : List Request) :
    t.after rs = t.internAll (rs.flatMap Request.texts) := by
  induction rs generalizing t with
  | nil => rfl
  | cons r rs ih => rw [after_cons, ih, serve_eq_internAll, List.flatMap_cons, internAll_append]

end SymbolTable

end Linkage
