import Mathlib.Data.Rat.Floor
import Syncle.Redis.Commands

/-!
# A batch of rows, written to Redis

`typedRow`, `pipelineWrite`, `replaceKey` and `deleteRows` of `redis-adapter.ts`. Strings and the hashes
that are written field by field go into one pipeline; what replaces its key goes into a transaction of
its own, after the pipeline. A hash whose `HSET` was answered `WRONGTYPE` is replaced there too.

How a JavaScript value is taken apart and spelled (`Reading`) is left open: nothing here depends on it.
-/

namespace Syncle.Redis

open Syncle.Lib

/-! ## Rows -/

/-- What the writer sees of a value: is it null or undefined, an array, an object with entries, and its
text. -/
structure Reading (V T : Type*) where
  isNil : V → Bool
  items : V → Option (List V)
  entries : V → Option (OrderedMap String V)
  asText : V → T

structure Values (V : Type*) where
  /-- `String(values.key ?? '')` -/
  key : String
  value : V
  /-- empty where `type` is no text -/
  type : String
  /-- `Number(values.ttl)`, where that is finite -/
  seconds : Option ℚ
  /-- `values.fields === true` -/
  fields : Bool

inductive Content (T : Type*) where
  | string (text : T)
  | hash (merge : Bool) (set : List (String × T)) (unset : List String)
      (distinct : (set.map Prod.fst ++ unset).Nodup)
  | list (members : List T)
  | set (members : List T)
  | zset (members : List T)

/-- A row to write, read once: what kind of key it is, and what goes into it. -/
structure TypedRow (T : Type*) where
  key : String
  /-- `0`: it does not expire -/
  ttl : ℕ
  content : Content T

section TypedRow

variable {V T : Type*} (reading : Reading V T)

/-- A field that is null is one to remove. -/
def setFields (fields : OrderedMap String V) : List (String × T) :=
  (fields.entries.filter fun e => !reading.isNil e.2).map fun e => (e.1, reading.asText e.2)

def unsetFields (fields : OrderedMap String V) : List String :=
  (fields.entries.filter fun e => reading.isNil e.2).map Prod.fst

theorem distinct_fields (fields : OrderedMap String V) :
    ((setFields reading fields).map Prod.fst ++ unsetFields reading fields).Nodup := by
  have names : (setFields reading fields).map Prod.fst =
      (fields.entries.filter fun e => !reading.isNil e.2).map Prod.fst := by
    simp [setFields, List.map_map, Function.comp_def]
  have split := List.filter_append_perm (fun e => !reading.isNil e.2) fields.entries
  simp only [Bool.not_not] at split
  rw [names, unsetFields, ← List.map_append]
  exact (split.map Prod.fst).nodup_iff.mpr fields.nodup_keys

def hashRow (key : String) (ttl : ℕ) (merge : Bool) (fields : OrderedMap String V) : TypedRow T :=
  { key := key
    ttl := ttl
    content := .hash merge (setFields reading fields) (unsetFields reading fields)
      (distinct_fields reading fields) }

def writableTypes : List String := ["string", "none", "hash", "list", "set", "zset"]

def ttlOf (seconds : Option ℚ) : ℕ :=
  match seconds with
  | none => 0
  | some s => if 0 < s then ⌈s⌉.toNat else 0

def typedRow (values : Values V) : Except String (TypedRow T) :=
  let key := values.key
  let members := ((reading.items values.value).getD []).map reading.asText
  if key = "" then .error "A \"key\" value is required"
  -- a stream arrives with no value: the empty string must not be written over it
  else if values.type = "stream" then
    .error ("\"" ++ key ++ "\" is a Redis stream, which cannot be copied as a row.")
  else if values.type ∉ writableTypes then
    .ok { key := key, ttl := 0, content := .string (reading.asText values.value) }
  else
    let ttl := ttlOf values.seconds
    match values.type with
    | "hash" =>
      match reading.entries values.value with
      | none => .error ("The hash \"" ++ key ++ "\" needs its fields: an object of field → value.")
      | some fields => .ok (hashRow reading key ttl values.fields fields)
    | "list" => .ok { key := key, ttl := ttl, content := .list members }
    | "set" => .ok { key := key, ttl := ttl, content := .set members }
    | "zset" => .ok { key := key, ttl := ttl, content := .zset members }
    | _ => .ok { key := key, ttl := ttl, content := .string (reading.asText values.value) }

end TypedRow

/-! ## Writing -/

section Write

variable {V T : Type*} [DecidableEq T]

namespace TypedRow

/-- The seconds until the key expires. -/
def expires (row : TypedRow T) : Option ℕ := if 0 < row.ttl then some row.ttl else none

def expireOrPersist (row : TypedRow T) : Command T :=
  if 0 < row.ttl then .expire row.key row.ttl else .persist row.key

/-- What goes into the pipeline for a row. The row stands beside the `HSET` of a hash that is written
field by field: it is what `merged` keeps the command's place for. -/
def queued (row : TypedRow T) : List (Command T × Option (TypedRow T)) :=
  match row.content with
  | .string text => [(.set row.key text row.expires, none)]
  | .hash true set unset _ =>
    (if set ≠ [] then [(.hset row.key set, some row)] else []) ++
      (if unset ≠ [] then [(.hdel row.key unset, none)] else []) ++ [(row.expireOrPersist, none)]
  | _ => []

/-- Does the row replace its key from the start? -/
def replaces (row : TypedRow T) : Bool :=
  match row.content with
  | .string _ | .hash true _ _ _ => false
  | _ => true

/-- `[member, score, member, score, …]` -/
def pairs : List T → List (T × T)
  | member :: score :: rest => (member, score) :: pairs rest
  | _ => []

/-- What is written where the key is gone. -/
def rewrite (row : TypedRow T) : List (Command T) :=
  match row.content with
  | .string text => [.set row.key text none]
  | .hash _ set _ _ => if set ≠ [] then [.hset row.key set] else []
  | .list members => if members ≠ [] then [.rpush row.key members] else []
  | .set members => if members ≠ [] then [.sadd row.key members] else []
  | .zset members => (pairs members).map fun p => .zadd row.key p.2 p.1

/-- `DEL` and write again, as one transaction. -/
def replaceKey (row : TypedRow T) : List (Command T) :=
  .del row.key :: row.rewrite ++ if 0 < row.ttl then [.expire row.key row.ttl] else []

end TypedRow

/-- The errors of a pipeline: the first one is thrown, but for a hash whose key is there as something
else, which is to be replaced. -/
@[grind =]
def surface : List (Option Error × Option (TypedRow T)) → Except Error (List (TypedRow T))
  | [] => .ok []
  | (none, _) :: rest => surface rest
  | (some .wrongType, some row) :: rest => (surface rest).map (row :: ·)
  | (some e, _) :: _ => .error e

variable (refuses : Refuses T)

def replaceAll : List (TypedRow T) → Keyspace T → Except Error Unit × Keyspace T
  | [], ks => (.ok (), ks)
  | row :: rest, ks =>
    let done := exec refuses row.replaceKey ks
    match done.1.findSome? id with
    | some e => (.error e, done.2)
    | none => replaceAll rest done.2

def write (rows : List (TypedRow T)) (ks : Keyspace T) : Except Error Unit × Keyspace T :=
  let queue := rows.flatMap TypedRow.queued
  let results := exec refuses (queue.map Prod.fst) ks
  match surface (results.1.zip (queue.map Prod.snd)) with
  | .error e => (.error e, results.2)
  | .ok wrongTypes => replaceAll refuses (rows.filter TypedRow.replaces ++ wrongTypes) results.2

inductive WriteError where
  | query (message : String)
  | server (e : Error)

/-- A row that cannot be read is thrown before anything is sent. -/
def pipelineWrite (reading : Reading V T) (values : List (Values V)) (ks : Keyspace T) :
    Except WriteError Unit × Keyspace T :=
  match values.mapM (typedRow reading) with
  | .error message => (.error (.query message), ks)
  | .ok rows =>
    let written := write refuses rows ks
    (written.1.mapError .server, written.2)

/-- `deleteRows`: one `DEL` of the keys that have a name. -/
def deleteRows (keys : List String) (ks : Keyspace T) : Keyspace T :=
  fun k => if k ∈ keys.filter (fun k => 0 < k.length) then none else ks k

end Write

/-! ## What a batch says -/

section Specified

variable {T : Type*} [DecidableEq T]

/-- The fields of a hash that is there. -/
def fieldsOf (e : Option (Entry T)) : OrderedMap String T :=
  match Command.asHash e with
  | some (fields, _) => fields
  | none => .empty

/-- What a row puts in the place of what was there. -/
def TypedRow.held (row : TypedRow T) : Option (Stored T) :=
  match row.content with
  | .string text => some (.string text)
  | .hash _ set _ _ => Command.hashOf (OrderedMap.empty.setAll set)
  | .list members => if members = [] then none else some (.list members)
  | .set members => if members = [] then none else some (.set members.eraseDups)
  | .zset members =>
    if TypedRow.pairs members = [] then none
    else some (.zset (OrderedMap.empty.setAll (TypedRow.pairs members)))

/-- What a row says its key is to hold, by what it held. A hash that is written field by field is
written into the hash that is there; everything else replaces the key. -/
def TypedRow.specified (row : TypedRow T) (prior : Option (Entry T)) : Option (Entry T) :=
  match row.content with
  | .hash true set unset _ =>
    Command.hashEntry (((fieldsOf prior).setAll set).filter (· ∉ unset)) row.expires
  | _ => row.held.map fun value => ⟨value, row.expires⟩

/-- The keyspace that a batch says. -/
def specifiedBy (rows : List (TypedRow T)) (ks : Keyspace T) : Keyspace T := fun k =>
  match rows.find? (·.key = k) with
  | some row => row.specified (ks k)
  | none => ks k

/-- **A batch converges**: it leaves the keys as it says and changes nothing when it is repeated, or
it fails on an error that is not the type of what a key held. -/
def Converges {V : Type*} (refuses : Refuses T) (reading : Reading V T) (values : List (Values V))
    (rows : List (TypedRow T)) (ks : Keyspace T) : Prop :=
  match pipelineWrite refuses reading values ks with
  | (.ok _, after) =>
    after = specifiedBy rows ks ∧ pipelineWrite refuses reading values after = (.ok (), after)
  | (.error e, _) => e ≠ .server .wrongType

/-- The keys of deleted rows are gone, and no other; and once more changes nothing. -/
def DeletesConverge (keys : List String) (ks : Keyspace T) : Prop :=
  (∀ k, deleteRows keys ks k = if k ∈ keys ∧ 0 < k.length then none else ks k) ∧
    deleteRows keys (deleteRows keys ks) = deleteRows keys ks

/-- A hash that is written field by field, over something else, sets a field and removes none. -/
def TypedRow.Repairable (row : TypedRow T) (prior : Option (Entry T)) : Prop :=
  match row.content with
  | .hash true set unset _ => Command.asHash prior = none → set ≠ [] ∧ unset = []
  | _ => True

end Specified

end Syncle.Redis
