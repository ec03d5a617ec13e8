import Syncle.Cdc.Change

/-!
# What a logical-replication message says of the bridge's table

The part of `decode` (`postgres-cdc.provider.ts`) that reads one row message, with the helpers of
`postgres-lsn.ts` it is written with. What it decides is a `Decoded`: how often the message takes a
position (`at()`), and what is handed over at each.
-/

namespace Syncle.Postgres

open Cdc

variable {V : Type*}

/-- A tuple as the decoder returns it: the columns it has, and the value of each; none for a value
the message did not include (`undefined`). `null` is one of the values. -/
abbrev Tuple (V : Type*) := String → Option (Option V)

/-- A cell of a change's row. -/
inductive Cell (V : Type*) where
  | value (v : V)
  /-- `UNCHANGED`: left alone at the destination -/
  | unchanged
  deriving DecidableEq

/-- A change's row: the columns it carries. -/
abbrev Row (V : Type*) := String → Option (Cell V)

structure Relation where
  schema : String
  name : String
  /-- the columns of the replica identity -/
  keyColumns : List String
  deriving DecidableEq

/-- The messages between a transaction's BEGIN and its COMMIT. -/
inductive RowMessage (V : Type*) where
  | truncate (relations : List Relation)
  | insert (relation : Relation) (new : Tuple V)
  | update (relation : Relation) (key old : Option (Tuple V)) (new : Tuple V)
  | delete (relation : Relation) (key old : Option (Tuple V))
  /-- relation, type, origin, message: descriptions of what follows -/
  | other

/-- What `startStream` reads of the bridge. -/
structure Bridge where
  schema : String
  table : String
  operations : List CdcOperation
  /-- `identifyingColumns`: the primary key, and what the targets are keyed on -/
  identifying : List String
  deriving DecidableEq

/-- A large column an UPDATE did not touch is marked. -/
def withUnchanged (row : Tuple V) : Row V := fun c =>
  (row c).map fun
    | some v => .value v
    | none => .unchanged

/-- An old-row image, minus the columns it does not actually carry. -/
def present (row : Tuple V) : Row V := fun c => (row c).join.map .value

section Moves

variable [DecidableEq V]

/-- Values are told apart by content. -/
def sameValue (a b : Option V) : Bool := decide (a = b)

/-- Does the image carry column `c`, with a value that is not the new row's? -/
def leaves (before new : Tuple V) (c : String) : Bool :=
  (before c).join.isSome && !sameValue (before c).join (new c).join

/-- Does this UPDATE take a position for an old row leaving? Decided by the message alone. -/
def reservesOldRow (key old : Option (Tuple V)) (new : Tuple V) (identityColumns : List String) :
    Bool :=
  match key <|> old with
  | some before => identityColumns.any (leaves before new)
  | none => false

/-- Has this UPDATE moved the row, as far as the bridge's destination tells rows apart? -/
def rowMoved (key old : Option (Tuple V)) (new : Tuple V) (identityColumns identifying : List String) :
    Bool :=
  match key <|> old with
  | some before =>
    let columns := if key.isSome then identityColumns else identityColumns.filter (· ∈ identifying)
    columns.any (leaves before new)
  | none => false

end Moves

/-- What a row message comes to. -/
inductive Decoded (R : Type*) where
  /-- no position of its own -/
  | nothing
  | skip
  | notice
  | hand (op : CdcOperation) (row : R)
  /-- a position is taken for the old row, and nothing handed over at it -/
  | reserve (row : R)
  /-- a delete of `before`, then the update, `keyChanged` -/
  | move (before after : R)

/-- Is anything of the table's handed over? -/
def Decoded.isChange {R : Type*} : Decoded R → Bool
  | .hand _ _ | .reserve _ | .move _ _ => true
  | .nothing | .skip | .notice => false

namespace Bridge

variable (bridge : Bridge)

def ours (r : Relation) : Bool := r.name == bridge.table && r.schema == bridge.schema

variable [DecidableEq V]

/-- The update branch, once the message is known to be ours. -/
def decodeUpdate (r : Relation) (key old : Option (Tuple V)) (new : Tuple V) : Decoded (Row V) :=
  match key <|> old with
  | some before =>
    if reservesOldRow key old new r.keyColumns then
      if rowMoved key old new r.keyColumns bridge.identifying then
        .move (present before) (withUnchanged new)
      else .reserve (withUnchanged new)
    else .hand .update (withUnchanged new)
  | none => .hand .update (withUnchanged new)

def decode : RowMessage V → Decoded (Row V)
  | .truncate relations =>
    if relations.any bridge.ours then
      if .truncate ∈ bridge.operations then .hand .truncate fun _ => none else .notice
    else .skip
  | .other => .nothing
  | .insert r new =>
    if .insert ∈ bridge.operations ∧ bridge.ours r then .hand .insert (withUnchanged new) else .skip
  | .update r key old new =>
    if .update ∈ bridge.operations ∧ bridge.ours r then bridge.decodeUpdate r key old new else .skip
  | .delete r key old =>
    if .delete ∈ bridge.operations ∧ bridge.ours r then
      .hand .delete (present ((old <|> key).getD fun _ => none))
    else .skip

/-- Does the message hold a change of this bridge? -/
def captures (msg : RowMessage V) : Bool := (bridge.decode msg).isChange

end Bridge

end Syncle.Postgres
