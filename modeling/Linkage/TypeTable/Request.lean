import Linkage.Symbol.Request
import Linkage.TypeTable

/-!
# Requests to a Type Table

A type table only ever changes by being asked for the number of something. A request names what
is asked for, so that the history of a table is a list of requests.

A request that names things by texts files these in the symbol table, where one of them may find its
shard full. Then the request is not answered at all: it is a call that does not return. Which texts
a request files is known beforehand, so that `call` is `serve` where they are admitted.

## Main definitions

* `TypeTable.serve`: answers a request, and adds what is not in the table yet.
* `TypeTable.after`: the table after a list of requests.
* `TypeTable.Reachable`: the tables that come about.
* `TypeTable.call`, `TypeTable.calls`: the same, where a full shard stops a request.
-/

namespace Linkage

namespace TypeTable

/-- What a type table can be asked for. -/
inductive Request
  | text (s : String)
  | type (data : TypeData)
  | classNamed (name : String)
  | arrayOf (element : TypeId)
  | descriptor (text : String)
  | proto (p : Proto)
  | protoDescriptor (text : String)
  | methodSig (name descriptor : String)
  | fieldSig (name descriptor : String)

namespace Request

/-- What a request is answered with. -/
@[reducible] def Result : Request → Type
  | .text _ => Symbol
  | .type _ => TypeId
  | .classNamed _ => TypeId
  | .arrayOf _ => TypeId
  | .descriptor _ => Except DescriptorError TypeId
  | .proto _ => ProtoId
  | .protoDescriptor _ => Except DescriptorError ProtoId
  | .methodSig .. => Except DescriptorError MethodSig
  | .fieldSig .. => Except DescriptorError FieldSig

end Request

/-- The texts that the type of a field is filed under: the text of its class, if it has one. -/
def fieldTexts (d : FieldDescriptor) : List String :=
  match d.base with
  | .primitive _ => []
  | .object name => ["L" ++ name ++ ";"]

/-- The texts that a prototype is filed under, in the order in which its types get their numbers. -/
def methodTexts (d : MethodDescriptor) : List String :=
  fieldTexts d.ret ++ d.params.flatMap fieldTexts

/-- The texts that a field descriptor files: none if it is faulty. -/
def descriptorTexts (text : String) : List String :=
  match FieldDescriptor.ofString text with
  | .error _ => []
  | .ok d => fieldTexts d

/-- The texts that a method descriptor files: none if it is faulty. -/
def protoTexts (text : String) : List String :=
  match MethodDescriptor.ofString text with
  | .error _ => []
  | .ok d => methodTexts d

/-- The texts that a request files, in order. -/
def Request.texts : Request → List String
  | .text s => [s]
  | .type _ => []
  | .classNamed name => ["L" ++ name ++ ";"]
  | .arrayOf _ => []
  | .descriptor s => descriptorTexts s
  | .proto _ => []
  | .protoDescriptor s => protoTexts s
  | .methodSig name s => name :: protoTexts s
  | .fieldSig name s => name :: descriptorTexts s

/-- Answers a request. -/
def serve : (r : Request) → Interning r.Result
  | .text s => internText s
  | .type data => intern data
  | .classNamed name => classNamed name
  | .arrayOf element => arrayOf element
  | .descriptor s => internDescriptor s
  | .proto p => internProto p
  | .protoDescriptor s => internProtoDescriptor s
  | .methodSig name s => methodSig name s
  | .fieldSig name s => fieldSig name s

/-- The table after some requests, in order. -/
def after (t : TypeTable) (requests : List Request) : TypeTable :=
  requests.foldl (fun t r => (serve r t).2) t

/-- Some requests lead to this table from one with the built-in types, whatever the choice of shards
is. -/
def Reachable (t : TypeTable) : Prop := ∃ shardOf rs, (freshWith shardOf).after rs = t

/-- Makes a request of a table whose shards can be full. -/
def call (r : Request) (t : TypeTable) : Except ShardFull (r.Result × TypeTable) :=
  (t.symbols.internAll? r.texts).map fun _ => serve r t

/-- Makes some requests, in order, for as long as they are answered. -/
def calls (t : TypeTable) : List Request → Except ShardFull TypeTable
  | [] => .ok t
  | r :: rs => do
    let (_, t) ← call r t
    t.calls rs

/-- Without requests the table stays as it is. -/
@[simp] theorem after_nil (t : TypeTable) : t.after [] = t := rfl

/-- Requests are served one after the other. -/
@[simp] theorem after_cons (t : TypeTable) (r : Request) (rs : List Request) :
    t.after (r :: rs) = (serve r t).2.after rs := rfl

/-- A run can be cut in two. -/
theorem after_append (t : TypeTable) (rs ss : List Request) :
    t.after (rs ++ ss) = (t.after rs).after ss := List.foldl_append

end TypeTable

end Linkage
