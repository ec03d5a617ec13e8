import Syncle.Cdc.Change

/-!
# The row events of the binary log (`mysql-cdc.provider.ts`)

`onEvent` turns what the binlog reader hands over into changes. A statement's row events come after
the table-map event that describes them; the cursor of each row carries where that one starts, and
the row's number within the statement.
-/

namespace Syncle.Mysql

open Cdc

variable {V : Type*}

/-- A row: its columns, each with its value. -/
abbrev Row (V : Type*) := String → Option V

/-- `BinlogColumn`: a column as the table-map event describes it. -/
structure BinlogColumn where
  name : String
  /-- MySQL's wire type code -/
  type : ℕ
  deriving DecidableEq

/-- `MYSQL_TYPE_JSON` -/
def BINLOG_TYPE_JSON : ℕ := 245

/-- The values a row can hold, as far as `normalizeBinlogRow` looks at them. -/
structure Values (V : Type*) where
  /-- the text, where the value is one -/
  text : V → Option String
  /-- `JSON.parse`; none where it throws -/
  parse : String → Option V

def Values.ofJson (values : Values V) (v : V) : V :=
  ((values.text v).bind values.parse).getD v

/-- A row decoded from the binlog, made to look like the same row read with a SELECT. -/
def normalizeBinlogRow (values : Values V) (row : Row V) (columns : Option (List BinlogColumn)) :
    Row V :=
  match columns with
  | none => row
  | some columns => fun name =>
    if columns.any fun c => c.type == BINLOG_TYPE_JSON && c.name == name then
      (row name).map values.ofJson
    else row name

/-- `tableMap[tableId]`. -/
structure TableMeta where
  parentSchema : String
  tableName : String
  columns : Option (List BinlogColumn)
  deriving DecidableEq

/-- The rows of a row event. -/
inductive RowsEvent (V : Type*) where
  | writerows (rows : List (Row V))
  | updaterows (rows : List (Row V × Row V))
  | deleterows (rows : List (Row V))

inductive BinLogEvent (V : Type*) where
  | gtidlog (gtid : Option String)
  | rotate (binlogName : Option String)
  | tablemap (nextPosition size : Int)
  | rows (tableMeta : Option TableMeta) (nextPosition : Int) (event : RowsEvent V)
  /-- every other event -/
  | other

structure Cursor where
  file : String
  pos : Int
  row : ℕ
  isStart : Bool
  serverUuid : Option String
  gtid : Option String
  deriving DecidableEq

/-- Where the decoding stands. -/
structure Reader where
  binlogName : String
  position : Int
  /-- where the statement's table-map event starts; -1 when none was seen -/
  groupStart : Int
  groupRow : ℕ
  lastGtid : Option String
  deriving DecidableEq

/-- What `startStream` closes over. -/
structure Stream (V : Type*) where
  db : String
  table : String
  operations : List CdcOperation
  useChecksum : Bool
  serverUuid : Option String
  values : Values V

/-- Where an event starts: `size` is the payload alone. -/
def binlogEventStart (nextPosition size : Int) (useChecksum : Bool) : Int :=
  nextPosition - size - if useChecksum then 23 else 19

namespace RowsEvent

def op : RowsEvent V → CdcOperation
  | writerows _ => .insert
  | updaterows _ => .update
  | deleterows _ => .delete

/-- The image of each row that is handed over: of an update, the one after it. -/
def images : RowsEvent V → List (Row V)
  | writerows rows => rows
  | updaterows rows => rows.map (·.2)
  | deleterows rows => rows

end RowsEvent

/-- One row of a row event, read as a SELECT would read it. -/
inductive RowChange (V : Type*) where
  | insert (row : Row V)
  | update (before after : Row V)
  | delete (row : Row V)

namespace Stream

variable (stream : Stream V)

def ours (t : TableMeta) : Bool := t.parentSchema == stream.db && t.tableName == stream.table

def cursor (r : Reader) (nextPosition : Int) (i : ℕ) : Cursor :=
  let startKnown := decide (0 < r.groupStart)
  { file := r.binlogName
    pos := if startKnown then r.groupStart else nextPosition
    row := if startKnown then r.groupRow + i else i
    isStart := startKnown
    serverUuid := stream.serverUuid
    gtid := r.lastGtid }

/-- The changes of one row event of the bridge's table. -/
def rowChanges (r : Reader) (columns : Option (List BinlogColumn)) (nextPosition : Int)
    (event : RowsEvent V) : List (CdcChange Cursor (Row V)) :=
  event.images.mapIdx fun i row =>
    { op := event.op
      row := normalizeBinlogRow stream.values row columns
      cursor := stream.cursor r nextPosition i }

def onEvent (r : Reader) : BinLogEvent V → Reader × List (CdcChange Cursor (Row V))
  | .gtidlog gtid => ({ r with lastGtid := gtid <|> r.lastGtid }, [])
  | .rotate binlogName =>
    match binlogName with
    | none => (r, [])
    | some next =>
      if next ≠ "" ∧ next ≠ r.binlogName then
        ({ r with
            position := if r.binlogName ≠ "" then 4 else r.position
            binlogName := next
            groupStart := -1
            groupRow := 0 }, [])
      else (r, [])
  | .tablemap nextPosition size =>
    let start := binlogEventStart nextPosition size stream.useChecksum
    if 0 < start then ({ r with groupStart := start, groupRow := 0, position := start }, [])
    else (r, [])
  | .rows tableMeta nextPosition event =>
    match tableMeta with
    | none => (r, [])
    | some t =>
      if stream.ours t then
        let read := { r with groupRow := r.groupRow + event.images.length }
        if event.op ∈ stream.operations then
          ({ read with position := if 0 < r.groupStart then r.position else nextPosition },
            stream.rowChanges r t.columns nextPosition event)
        else (read, [])
      else (r, [])
  | .other => (r, [])

/-- The changes a list of events is handed over as. -/
def changes (r : Reader) : List (BinLogEvent V) → List (CdcChange Cursor (Row V))
  | [] => []
  | e :: events =>
    let (r', emitted) := stream.onEvent r e
    emitted ++ changes r' events

/-! ## What the events say of the source -/

def eventChanges : BinLogEvent V → List (RowChange V)
  | .rows (some t) _ event =>
    let normalized := fun row => normalizeBinlogRow stream.values row t.columns
    if stream.ours t then
      match event with
      | .writerows rows => rows.map fun row => .insert (normalized row)
      | .updaterows rows => rows.map fun row => .update (normalized row.1) (normalized row.2)
      | .deleterows rows => rows.map fun row => .delete (normalized row)
    else []
  | _ => []

/-- The changes of the table's rows, in the order of the log. -/
def history (events : List (BinLogEvent V)) : List (RowChange V) :=
  events.flatMap stream.eventChanges

end Stream

end Syncle.Mysql
