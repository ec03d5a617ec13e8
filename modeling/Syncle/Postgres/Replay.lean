import Mathlib.Logic.Function.Basic
import Syncle.Postgres.OwnSlot

/-!
# A table, its messages, and the destination they are folded over

The source is a table of a PostgreSQL database with its replica identity; what the server logs for
a change of a row (`logged`) is what `decode` reads. The destination is one target of the bridge:
rows under the target's key, written column by column. Its columns go by the names of the source's
columns they are mapped from.

Between the two stands `completeRow` (`bridge-cdc.service.ts`): a row with a column marked
`UNCHANGED` may be read back from the source by its primary key, at some later moment, and that
column filled in. `Step.found` is what that query answers.
-/

namespace Syncle.Postgres.Replay

open Cdc OwnSlot

variable {V : Type*}

/-! ## Which tables are served -/

inductive IdentityKind where
  | d | n | f | i
  deriving DecidableEq

structure ReplicaIdentity where
  kind : IdentityKind
  columns : List String
  partitioned : Bool
  serverVersion : ℕ
  deriving DecidableEq

structure ColumnMapping where
  source : String
  target : String
  deriving DecidableEq

structure Target where
  table : String
  keyColumns : List String
  mapping : List ColumnMapping
  deriving DecidableEq

/-- The source column that feeds a target column. -/
def sourceColumnFor (target : String) (mapping : List ColumnMapping) : String :=
  match mapping.find? fun m => m.target == target with
  | some m => m.source
  | none => target

/-- The source columns the target's rows are told apart by. -/
def Target.key (target : Target) : List String :=
  target.keyColumns.map (sourceColumnFor · target.mapping)

/-- Is the source's column written? An empty mapping writes every column. -/
def Target.writes (target : Target) (c : String) : Bool :=
  target.mapping.isEmpty || target.mapping.any (·.source == c)

def qualified (schema table : String) : String := schema ++ "." ++ table

/-- `assertServable`, for a database destination; what it throws, if it does. -/
def assertServable (schema table : String) (operations : List CdcOperation) (targets : List Target)
    (identity : ReplicaIdentity) : Option String :=
  let name := qualified schema table
  let full := identity.kind == .f
  if (.update ∈ operations ∨ .delete ∈ operations) ∧ full = false ∧ identity.columns = [] then
    some (name ++ " has no primary key and no replica identity, so PostgreSQL can only report " ++
      "INSERTs for it — and publishing updates or deletes for such a table would make UPDATE and " ++
      "DELETE on it fail in your database. Either capture inserts only, add a primary key, or run:  " ++
      "ALTER TABLE " ++ name ++ " REPLICA IDENTITY FULL;")
  else if identity.partitioned = true ∧ identity.serverVersion < 130000 then
    some (name ++ " is partitioned, and PostgreSQL " ++ toString (identity.serverVersion / 10000) ++
      " reports its changes under the partitions' names. Bridge each partition separately, or " ++
      "upgrade the server to 13+.")
  else if .delete ∉ operations ∨ full = true then none
  else
    (targets.find? fun t => t.key.any (· ∉ identity.columns)).map fun t =>
      let missing := t.key.filter (· ∉ identity.columns)
      "Deletes cannot reach " ++ t.table ++ ": it is keyed on " ++ ", ".intercalate t.keyColumns ++
        ", but a DELETE on " ++ name ++ " only carries " ++ ", ".intercalate identity.columns ++
        " (" ++ ", ".intercalate missing ++ " would be missing). Key the target on " ++
        ", ".intercalate identity.columns ++ ", stop capturing deletes, or have the table send " ++
        "whole rows:  ALTER TABLE " ++ name ++ " REPLICA IDENTITY FULL;"

/-! ## The source -/

/-- A row of the table, with a value for each of its columns. -/
abbrev FullRow (V : Type*) := String → V

/-- The table's rows, each where it is stored. -/
abbrev Table (V : Type*) := ℕ → Option (FullRow V)

structure Source (V : Type*) where
  schema : String
  table : String
  columns : List String
  primaryKey : List String
  mem_columns : ∀ c ∈ primaryKey, c ∈ columns
  /-- REPLICA IDENTITY FULL; otherwise DEFAULT, the primary key -/
  full : Bool
  null : V

inductive RowOp (V : Type*) where
  | insert (id : ℕ) (row : FullRow V)
  /-- `toast`: the large columns that are left out of the message where they did not change -/
  | update (id : ℕ) (row : FullRow V) (toast : List String)
  | delete (id : ℕ)
  | truncate

/-- What is done to the table; a row that is not there cannot change. -/
def RowOp.apply (op : RowOp V) (table : Table V) : Table V :=
  match op with
  | .insert id row => if (table id).isSome then table else Function.update table id (some row)
  | .update id row _ => if (table id).isSome then Function.update table id (some row) else table
  | .delete id => Function.update table id none
  | .truncate => fun _ => none

namespace Source

variable (source : Source V)

/-- The columns of the replica identity, as a relation message says them. -/
def identity : List String := if source.full then source.columns else source.primaryKey

def relation : Relation :=
  { schema := source.schema, name := source.table, keyColumns := source.identity }

/-- The values of some of the columns, the others not there. -/
def tuple (columns : List String) (row : FullRow V) : Tuple V :=
  fun c => if c ∈ columns then some (some (row c)) else none

variable [DecidableEq V]

/-- The new row of an update: a large column that did not change is not in it, unless the decoder
can fill it in from the old row. -/
def newTuple (old row : FullRow V) (toast : List String) : Tuple V := fun c =>
  if c ∈ source.columns then
    if source.full = false ∧ c ∈ toast ∧ old c = row c then some none else some (some (row c))
  else none

/-- The row's key, where its identity changed. -/
def keyTuple (old row : FullRow V) : Option (Tuple V) :=
  if source.full = false ∧ ∃ c ∈ source.primaryKey, old c ≠ row c then
    some (tuple source.primaryKey old)
  else none

/-- The old row, whole. -/
def oldTuple (old : FullRow V) : Option (Tuple V) :=
  if source.full then some (tuple source.columns old) else none

/-- What the server logs for a change. -/
def logged (table : Table V) : RowOp V → Option (RowMessage V)
  | .insert id row =>
    if (table id).isSome then none
    else some (.insert source.relation (tuple source.columns row))
  | .update id row toast => (table id).map fun old =>
      .update source.relation (source.keyTuple old row) (source.oldTuple old)
        (source.newTuple old row toast)
  | .delete id => (table id).map fun old =>
      .delete source.relation
        (if source.full then none else some (tuple source.primaryKey old)) (source.oldTuple old)
  | .truncate => some (.truncate [source.relation])

end Source

/-! ## The destination -/

/-- A row of the target, by the source columns it is written from. -/
abbrev TargetRow (V : Type*) := String → Option V

abbrev Destination (V : Type*) := List (Option V) → Option (TargetRow V)

def Cell.value? : Cell V → Option V
  | .value v => some v
  | .unchanged => none

/-- The key a change's row is written under. -/
def keyOf (columns : List String) (row : Row V) : List (Option V) :=
  columns.map fun c => (row c).bind Cell.value?

/-- A row written over the one that is there: what it does not carry is kept. -/
def put (target : Target) (row : Row V) (kept : Option (TargetRow V)) : TargetRow V := fun c =>
  if target.writes c then
    match row c with
    | some (.value v) => some v
    | _ => kept.bind (· c)
  else none

/-- A row change, with what the pipeline does about its large columns. -/
structure Step (V : Type*) where
  lsn : ℕ
  op : RowOp V
  /-- something else needs the values that are missing -/
  needed : Bool
  /-- what the query for the row by its primary key answers -/
  found : Option (FullRow V)

/-- The messages of a stream of committed transactions. -/
inductive Event (V : Type*) where
  | begin (commit : ℕ)
  | row (step : Step V)
  | commit

/-- The changes handed over for a message, at the positions `at()` gives. -/
def emitted (txn : Option Decoding) (lsn : ℕ) (decoded : Decoded (Row V)) :
    List (CdcChange PgCursor (Row V)) × Option Decoding :=
  let (cursor, txn') := positionOf txn lsn
  let (second, txn'') := positionOf txn' lsn
  match decoded with
  | .nothing => ([], txn)
  | .skip | .notice => ([], txn')
  | .hand op row => ([{ op, row, cursor }], txn')
  | .reserve row => ([{ op := .update, row, cursor := second }], txn'')
  | .move before after =>
    ([{ op := .delete, row := before, cursor },
      { op := .update, row := after, cursor := second, keyChanged := true }], txn'')

/-- A bridge over the table that subscribes to all operations, and one of its targets. -/
structure Copy (V : Type*) where
  source : Source V
  targets : List Target
  target : Target
  mem : target ∈ targets

namespace Copy

variable (copy : Copy V)

def operations : List CdcOperation := [.insert, .update, .delete, .truncate]

/-- The bridge, with `identifyingColumns`. -/
def bridge : Bridge :=
  { schema := copy.source.schema, table := copy.source.table, operations
    identifying := copy.source.primaryKey ++ copy.targets.flatMap Target.key }

def replicaIdentity (partitioned : Bool) (serverVersion : ℕ) : ReplicaIdentity :=
  { kind := if copy.source.full then .f else .d
    columns := if copy.source.full then [] else copy.source.primaryKey
    partitioned, serverVersion }

/-- `assertServable` lets the bridge through. -/
def Servable : Prop :=
  ∃ partitioned serverVersion, assertServable copy.source.schema copy.source.table operations
    copy.targets (copy.replicaIdentity partitioned serverVersion) = none

variable [DecidableEq V]

/-- Can the row be read back by the primary key? -/
def readable (row : Row V) : Bool :=
  !copy.source.primaryKey.isEmpty && copy.source.primaryKey.all fun c =>
    match (row c).bind Cell.value? with
    | some v => decide (v ≠ copy.source.null)
    | none => false

/-- `completeRow`: the missing columns, filled in from the row as it is when it is read back. -/
def completeRow (step : Step V) (change : CdcChange PgCursor (Row V)) : Row V :=
  if (change.keyChanged || step.needed) && copy.readable change.row then
    match step.found with
    | none => change.row
    | some current => fun c =>
      match change.row c with
      | some .unchanged => if c ∈ copy.source.columns then some (.value (current c)) else some .unchanged
      | cell => cell
  else change.row

def deliver (step : Step V) (d : Destination V) (change : CdcChange PgCursor (Row V)) :
    Destination V :=
  match change.op with
  | .truncate => fun _ => none
  | .delete => Function.update d (keyOf copy.target.key change.row) none
  | .insert | .update =>
    let row := copy.completeRow step change
    let key := keyOf copy.target.key row
    Function.update d key (some (put copy.target row (d key)))

/-- The destination after a stream of events. -/
def follow : Option Decoding → Table V → Destination V → List (Event V) → Destination V
  | _, _, d, [] => d
  | _, table, d, .begin commit :: events =>
    follow (some { commit, lsn := none, shared := 0 }) table d events
  | _, table, d, .commit :: events => follow none table d events
  | txn, table, d, .row step :: events =>
    match copy.source.logged table step.op with
    | none => follow txn table d events
    | some msg =>
      let (changes, txn') := emitted txn step.lsn (copy.bridge.decode msg)
      follow txn' (step.op.apply table) (changes.foldl (copy.deliver step) d) events

end Copy

/-- The table after a stream of events. -/
def tableAfter (table : Table V) : List (Event V) → Table V
  | [] => table
  | .row step :: events => tableAfter (step.op.apply table) events
  | _ :: events => tableAfter table events

end Syncle.Postgres.Replay
