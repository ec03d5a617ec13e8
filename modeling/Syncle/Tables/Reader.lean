import Syncle.Tables.Browse

/-!
# Reading a table to its end (`table-reader.service.ts`)

`rows`, in its four loops: by the engine's own cursor, after a tuple, after a single key, by OFFSET.
A row is yielded with its position in the read and, but for a read by OFFSET, with the checkpoint to
resume from.

The table may be another one at every page (`browse` is told which call it is); `rowsOf` is the read
of a table that stays as it is.
-/

namespace Syncle.Tables

open Lib Snapshot

variable {W : Type*}

/-! ## What is yielded -/

inductive CheckpointValue (W : Type*) where
  | key (value : W)
  | tuple (values : List W)
  | cursor (value : String)
  deriving DecidableEq

structure KeysetCheckpoint (W : Type*) where
  column : String
  value : CheckpointValue W
  deriving DecidableEq

structure TableRow (W : Type*) where
  row : Row W
  index : ℕ
  keyset : Option (KeysetCheckpoint W)

/-- `yield`, from `index` on. -/
def numbered (keyset : Row W → Option (KeysetCheckpoint W)) (index : ℕ) (rows : List (Row W)) :
    List (TableRow W) :=
  rows.mapIdx fun i row => { row := row, index := index + i, keyset := keyset row }

/-- `CURSOR_COLUMN` -/
def cursorColumn : String := "$cursor"

/-- A table as a bridge reads it. -/
structure Source (W : Type*) where
  shape : TableSource
  filters : List (FilterSpec W)
  pageSize : ℕ

/-- A page by the engine's own cursor. -/
structure CursorPage (W : Type*) where
  rows : List (Row W)
  nextCursor : Option String

/-- How the engine is asked; `call` counts the pages. -/
structure Browser (W : Type*) where
  browse : ℕ → BrowseParams W → Except String (Page (Row W))
  browseFrom : String → CursorPage W
  /-- the row's `key` is one of Syncle's own -/
  isSyncleOwnKey : Row W → Bool

section Code

variable [DecidableEq W] (browser : Browser W) (null : W) (src : Source W) (sort : List SortSpec)

/-! ## By the engine's cursor -/

/-- An empty page is not the end; only the cursor says so. -/
def cursorPages : ℕ → String → ℕ → Option (List (TableRow W))
  | 0, _, _ => none
  | fuel + 1, cursor, index =>
    let page := browser.browseFrom cursor
    let kept := page.rows.filter fun row => !browser.isSyncleOwnKey row
    let read := numbered (fun _ => some { column := cursorColumn, value := .cursor cursor }) index kept
    match page.nextCursor with
    | none => some read
    | some next =>
      if next.isEmpty then some read
      else (cursorPages fuel next (index + kept.length)).map (read ++ ·)

def resumeCursor : Option (KeysetCheckpoint W) → String
  | some { column, value := .cursor cursor } => if column = cursorColumn then cursor else "0"
  | _ => "0"

/-! ## After a tuple -/

def tupleParams (columns : List String) (last : Option (List W)) : BrowseParams W :=
  { limit := src.pageSize, offset := 0, sort := sort, filters := src.filters
    after := last.map fun values => { columns := columns, values := values } }

/-- The tuple of the last row read. -/
def lastTuple (columns : List String) (last : Option (List W)) (rows : List (Row W)) :
    Option (List W) :=
  (rows.getLast?.map fun row => columns.map row) <|> last

def tupleCheckpoint (columns : List String) (row : Row W) : Option (KeysetCheckpoint W) :=
  some { column := ",".intercalate columns, value := .tuple (columns.map row) }

/-- A checkpoint of this shape. -/
def resumeTuple (columns : List String) : Option (KeysetCheckpoint W) → Option (List W)
  | some { column, value := .tuple values } =>
    if column = ",".intercalate columns ∧ values.length = columns.length then some values else none
  | _ => none

/-- The row before the first one wanted, by offset, once. -/
def seekParams (startOffset : ℕ) : BrowseParams W :=
  { limit := 1, offset := startOffset - 1, sort := sort, filters := src.filters }

def tupleRows (columns : List String) (startOffset : ℕ) (resumeKey : Option (KeysetCheckpoint W))
    (fuel : ℕ) : Option (List (TableRow W)) :=
  let from_ (call : ℕ) (last : Option (List W)) :=
    (readPages (fun call last => browser.browse call (tupleParams src sort columns last))
      (lastTuple columns) fuel call last).map (numbered (tupleCheckpoint columns) startOffset)
  if startOffset = 0 then from_ 0 none
  else
    match resumeTuple columns resumeKey with
    | some values => from_ 0 (some values)
    | none =>
      match browser.browse 0 (seekParams src sort startOffset) with
      | .error _ => none
      | .ok seek => from_ 1 (seek.rows.head?.map fun row => columns.map row)

/-! ## After a single key -/

def keyParams (column : String) (last : Option W) : BrowseParams W :=
  { limit := src.pageSize, offset := 0, sort := sort
    filters := src.filters ++
      match last with
      | some v => if v = null then [] else [{ column := column, operator := .gt, value := v }]
      | none => [] }

def lastKey (column : String) (last : Option W) (rows : List (Row W)) : Option W :=
  (rows.getLast?.map fun row => row column) <|> last

def keyCheckpoint (column : String) (row : Row W) : Option (KeysetCheckpoint W) :=
  some { column := column, value := .key (row column) }

/-- A checkpoint of this column goes as it is; the engine refuses one that is no key's value. -/
def keyRows (column : String) (startOffset : ℕ) (resumeKey : Option (KeysetCheckpoint W))
    (fuel : ℕ) : Option (List (TableRow W)) :=
  let from_ (call : ℕ) (last : Option W) :=
    (readPages (fun call last => browser.browse call (keyParams null src sort column last))
      (lastKey column) fuel call last).map (numbered (keyCheckpoint column) startOffset)
  let seek :=
    match browser.browse 0 (seekParams src sort startOffset) with
    | .error _ => none
    | .ok seek => from_ 1 (seek.rows.head?.map fun row => row column)
  if startOffset = 0 then from_ 0 none
  else
    match resumeKey with
    | none => seek
    | some checkpoint =>
      if checkpoint.column = column then
        match checkpoint.value with
        | .key v => from_ 0 (some v)
        | .tuple _ | .cursor _ => none
      else seek

/-! ## By OFFSET -/

def offsetParams (offset : ℕ) : BrowseParams W :=
  { limit := src.pageSize, offset := offset, sort := sort, filters := src.filters }

def offsetRows (startOffset : ℕ) (fuel : ℕ) : Option (List (TableRow W)) :=
  (readPages (fun call offset => browser.browse call (offsetParams src sort offset))
    (fun offset rows => offset + rows.length) fuel 0 startOffset).map
      (numbered (fun _ => none) startOffset)

/-- **`rows`**; none when it has not come to its end after so many pages, or a page could not be
read. -/
def rows (order : TableOrder) (startOffset : ℕ) (resumeKey : Option (KeysetCheckpoint W))
    (fuel : ℕ) : Option (List (TableRow W)) :=
  if order.cursorPaging then cursorPages browser fuel (resumeCursor resumeKey) startOffset
  else if order.keysetColumns ≠ [] then
    tupleRows browser src order.sort order.keysetColumns startOffset resumeKey fuel
  else
    match order.keysetColumn with
    | some column => keyRows browser null src order.sort column startOffset resumeKey fuel
    | none => offsetRows browser src order.sort startOffset fuel

end Code

/-- An SQL table that stays as it is. -/
def staticBrowser [LinearOrder W] (engine : Engine W) (table : List (Row W)) : Browser W :=
  { browse := fun _ params => engine.browse table params
    browseFrom := fun _ => { rows := [], nextCursor := none }
    isSyncleOwnKey := fun _ => false }

end Syncle.Tables
