import Syncle.Js.Value
import Syncle.Sql.Batches

/-!
# Bulk writes to PostgreSQL (`postgres-adapter.ts`)

A batch goes out as statements with a parameter for each value (`base-sql-adapter.ts`), or, when it is
long or holds an array or an object, as one JSON document for each statement, which the server reads
back with `json_populate_recordset`. Here are the two encoders, and what either leaves of a table.

What a column stores of a bound parameter is up to the driver and the server, and what it stores of a
JSON value is up to the server: both are parameters here (`Server.bound`, `Server.populate`), and
`Server.Documented` is what their documentation says of the two.
-/

namespace Syncle.Sql

open Lib Js

/-! ## The adapter -/

/-- `Buffer.toString('hex')` -/
def hex (data : List (BitVec 8)) : String :=
  String.ofList (data.flatMap fun b => [Nat.digitChar (b.toNat / 16), Nat.digitChar (b.toNat % 16)])

/-- The text bytes travel as. -/
def hexText (data : List (BitVec 8)) : String := "\\x" ++ hex data

mutual

/-- `toJsonValue`; none where it throws, on a `Date` that is none. -/
def toJsonValue : Value → Option Value
  | .null | .undefined => some .null
  | .bigint n => some (.string (toString n))
  | .number n =>
    match n.nonFiniteText with
    | none => some (.number n)
    | some text => some (.string text)
  | .bool b => some (.bool b)
  | .string s => some (.string s)
  | .unchanged => some .unchanged
  | .date iso => some (.string iso)
  | .invalidDate => none
  | .bytes data => some (.string (hexText data))
  | .array items => (toJsonItems items).map .array
  | .object fields => (toJsonFields fields).map .object
  | .wrapper text => some (.wrapper text)
  | .jsonable json => some (.jsonable json)

def toJsonItems : Items → Option Items
  | .nil => some .nil
  | .cons head tail => (toJsonValue head).bind fun h => (toJsonItems tail).map fun t => .cons h t

/-- `out[k] = toJsonValue(x)`, which under the name `__proto__` adds no property. -/
def toJsonFields : Fields → Option Fields
  | .nil => some .nil
  | .cons name value rest =>
    (toJsonValue value).bind fun v => (toJsonFields rest).map fun r =>
      if name = "__proto__" then r else .cons name v r

end

/-- `Object.entries(row)` -/
def Record.fields (row : Record Value) : Fields :=
  row.columns.foldr (fun c rest => .cons c (row.value c) rest) .nil

/-- `JSON.stringify(toJsonRow(row))` -/
def toJsonRow (row : Record Value) : Option JsonFields := (toJsonFields row.fields).bind stringifyFields

/-- `INSERT INTO … (columns) SELECT columns FROM json_populate_recordset(null::…, $1::json) tail` -/
structure JsonStatement where
  columns : List String
  tail : Option UpsertClause
  /-- the parameter -/
  records : List JsonFields

/-- `Object.keys(rows[0] ?? {})` -/
def firstColumns (rows : List (Record Value)) : List String := (rows.head?.map (·.columns)).getD []

/-- `jsonBulk`: one statement, if the first row has columns. -/
def jsonBulk (rows : List (Record Value)) (tail : Option UpsertClause) : Option (List JsonStatement) :=
  if firstColumns rows = [] then some []
  else (rows.mapM toJsonRow).map fun records =>
    [{ columns := firstColumns rows, tail := tail, records := records }]

/-- Neither a primitive nor a `Date` nor bytes. -/
def structured : Value → Bool
  | .array _ | .object _ | .wrapper _ | .jsonable _ => true
  | _ => false

/-- `JSON_BULK_MIN` -/
def jsonBulkMin : ℕ := 250

def needsJsonPath (rows : List (Record Value)) : Bool :=
  decide (jsonBulkMin ≤ rows.length) ||
    rows.any fun row => row.columns.any fun c => structured (row.value c)

def groupRows (rows : List (Record Value)) : OrderedMap (List String) (List (Record Value)) :=
  gather signature (fun row => [row]) (fun group row => group ++ [row]) rows

/-- A statement of either path. -/
inductive Sent where
  | params (st : InsertStatement Value)
  | json (st : JsonStatement)

namespace PostgresAdapter

/-- `insertRows`; none where it throws. -/
def insertRows (rows : List (Record Value)) : Option (List Sent) :=
  if !needsJsonPath rows then some ((Sql.insertRows .postgres rows).map .params)
  else (jsonBulk rows none).map fun statements => statements.map .json

/-- `upsertRows` -/
def upsertRows (keyColumns : List String) (rows : List (Record Value)) : Option (List Sent) :=
  if keyColumns = [] ∨ !needsJsonPath rows then
    (Sql.upsertRows .postgres keyColumns rows).toOption.map fun statements => statements.map .params
  else
    ((groupRows rows).values.mapM fun group =>
      jsonBulk group (some (upsertClause keyColumns (firstColumns group)))).map
        fun statements => statements.flatten.map .json

/-- The statements of a batch. -/
def batch (rows : List (Record Value)) : Write → Option (List Sent)
  | .insert => insertRows rows
  | .upsert keyColumns => upsertRows keyColumns rows

end PostgresAdapter

/-! ## The columns -/

inductive Kind (Ty : Type*) where
  | scalar
  /-- `json` and `jsonb` -/
  | json
  | array (element : Ty)
  | composite

/-- What columns make of what they are sent; none where it cannot be sent or is not taken. -/
structure Server (Ty S : Type*) where
  kind : Ty → Kind Ty
  /-- `timestamp with time zone` -/
  instant : Ty → Bool
  bytea : Ty → Bool
  /-- a value bound as a parameter: what `pg` sends of it, as a column of the type reads that -/
  bound : Ty → Value → Option S
  /-- a JSON value in a record of `json_populate_recordset` -/
  populate : Ty → Json → Option S

namespace Server

variable {Ty S : Type*} (server : Server Ty S)

/-- An element of an array's literal is the element alone: an array would be a dimension of the whole,
and bytes are written in hex there. -/
def Alone (element : Ty) (v : Value) : Prop :=
  (∀ items, v ≠ .array items) ∧ ∀ data, v = .bytes data → server.bytea element = true

/-- Elements that the column's element type reads alike, one by one. -/
inductive Elementwise (element : Ty) : Items → JsonItems → Prop
  | nil : Elementwise element .nil .nil
  | cons {v vs j js} (alone : server.Alone element v)
      (same : server.bound element v = server.populate element j) (rest : Elementwise element vs js) :
      Elementwise element (.cons v vs) (.cons j js)

/-- What is documented. A parameter is sent as text, a JSON value that is no text is read by its own
text, and a JSON text by its contents, unless the column is JSON itself. -/
structure Documented : Prop where
  /-- `NULL`, and JSON's null -/
  null : ∀ ty v, v = .null ∨ v = .undefined → server.bound ty v = server.populate ty .null
  bool : ∀ ty b, server.bound ty (.bool b) = server.populate ty (.bool b)
  number : ∀ ty q, server.bound ty (.number (.finite q)) = server.populate ty (.number q)
  /-- `String(-0)` is `0` -/
  zero : ∀ ty, server.bound ty (.number .negativeZero) = server.populate ty (.number 0)
  string : ∀ ty s, server.kind ty ≠ .json →
    server.bound ty (.string s) = server.populate ty (.string s)
  /-- `String(n)` -/
  nonFinite : ∀ ty n text, n.nonFiniteText = some text →
    server.bound ty (.number n) = server.bound ty (.string text)
  bigint : ∀ ty n, server.bound ty (.bigint n) = server.bound ty (.string (toString n))
  /-- an instant is the same in whatever zone it is written -/
  instant : ∀ ty iso, server.instant ty = true →
    server.kind ty = .scalar ∧ server.bound ty (.date iso) = server.bound ty (.string iso)
  /-- bytes are taken as they are, or from hex -/
  bytea : ∀ ty data, server.bytea ty = true →
    server.kind ty = .scalar ∧ server.bound ty (.bytes data) = server.bound ty (.string (hexText data))
  /-- an object is sent as its JSON text -/
  object : ∀ ty fields json, server.kind ty ≠ .composite → stringifyFields fields = some json →
    server.bound ty (.object fields) = server.populate ty (.object json)
  /-- an array's literal is read element by element, and so is a JSON array -/
  array : ∀ ty element items json, server.kind ty = .array element →
    server.Elementwise element items json →
    server.bound ty (.array items) = server.populate ty (.array json)

end Server

/-! ## A table -/

/-- The engine, of values as the columns read them. -/
def Engine.reading {Tbl V W : Type*} (engine : Engine Tbl W) (read : String → V → W) : Engine Tbl V where
  insertRow s conflict row := engine.insertRow s conflict fun c => (row c).map (read c)
  deleteWhere s identities :=
    engine.deleteWhere s (identities.map fun identity c => (identity c).map (read c))

/-- A table's columns. -/
structure Table (Ty S : Type*) where
  server : Server Ty S
  type : String → Ty

namespace Table

variable {Tbl Ty S : Type*} (table : Table Ty S) (engine : Engine Tbl (Option S))

def bound (c : String) (v : Value) : Option S := table.server.bound (table.type c) v

/-- A column of `json_populate_recordset`: null where the record does not name it. -/
def populated (record : JsonFields) (c : String) : Option S :=
  table.server.populate (table.type c) ((record.get c).getD .null)

def runJson (s : Tbl) (st : JsonStatement) : Option Tbl :=
  st.records.foldlM (fun s record => engine.insertRow s (st.tail.map UpsertClause.read) fun c =>
    if c ∈ st.columns then some (table.populated record c) else none) s

def run (s : Tbl) : Sent → Option Tbl
  | .params st => (engine.reading table.bound).insert s st
  | .json st => table.runJson engine s st

/-- What `PostgresAdapter` leaves of a table; none where the batch is refused. A cell that its column
did not take is none: the engine is told so, whichever path it came by. -/
def written (w : Write) (rows : List (Record Value)) (s : Tbl) : Option Tbl :=
  (PostgresAdapter.batch rows w).bind fun sent => sent.foldlM (table.run engine) s

/-- What `BaseSqlAdapter` leaves. -/
def writtenByParams (w : Write) (rows : List (Record Value)) (s : Tbl) : Option Tbl :=
  (engine.reading table.bound).batched .postgres w rows s

end Table

end Syncle.Sql
