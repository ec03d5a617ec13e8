import Syncle.Cdc.Change
import Syncle.Lib.Pages
import Syncle.Lib.Run
import Syncle.Snapshot.TableOrder

/-!
# Copy, then follow

`SnapshotCdcProvider.copyThenFollow` over an engine with a position to take: the position first,
then the table by `TableReaderService.rows`, then the engine's own stream from the position. The
source's log, the calls that fail, the cursor the bridge stores and the moment it is stopped are
the environment's, one event each; the engine's stream hands over the log from the place it is
opened at, entry by entry.

A log position is the number of entries before it. Where a row lies in the read's order, the
engine decides (`rank`); that rows of one rank agree in the columns the read is paged by is what
ordering by those columns means.

A read goes on from a `Place`: what it holds of the last row, the row's key or the cursor of the
page the row ended. Which rows the engine answers with when it is asked for those after a place
(a comparison with the key, or an adapter's own paging by cursor) is the engine's (`after`). A stored
cursor is JSON text, and a key that JSON has no form for, a binary one for instance, comes back from
it as another value: so a place from a stored cursor is a place of its own to the engine.
-/

namespace Syncle.Snapshot

open Lib Cdc

variable {R V O : Type*} [LinearOrder O]

/-! ## Cursors -/

/-- What a read holds of the row it goes on after. -/
inductive Place (O : Type*) where
  | asRead (rank : O)
  /-- from a stored cursor: `JSON.parse` of what `JSON.stringify` made of it -/
  | fromJson (rank : O)
  deriving DecidableEq

/-- The rank of the row it was taken from. -/
def Place.rank : Place O → O
  | asRead o => o
  | fromJson o => o

/-- The way through a stored cursor. -/
def Place.stored (p : Place O) : Place O := fromJson p.rank

omit [LinearOrder O] in
@[simp] theorem Place.rank_stored (p : Place O) : p.stored.rank = p.rank := rfl

/-- `KeysetCheckpoint`. The value of a cursor-paged read's is the cursor of the page the row came
in; no cursor is the top of the table. -/
inductive Checkpoint (O : Type*) where
  | cursor (page : Option O)
  | keyset (column : String) (value : O)
  deriving DecidableEq

def Checkpoint.stored : Checkpoint (Place O) → Checkpoint (Place O)
  | cursor page => .cursor (page.map Place.stored)
  | keyset column value => .keyset column value.stored

/-- `from`, where the stream starts once the copy is done, is a log position, or nothing where there
is no position to take. -/
structure SnapshotCursor (O F : Type*) where
  index : Nat
  key : Option (Checkpoint O)
  streamFrom : F
  done : Bool
  deriving DecidableEq

/-- A saved position: the copy's, or the engine's own. -/
inductive Cursor (O : Type*) where
  | snapshot (c : SnapshotCursor (Place O) Nat)
  | stream (position : Nat)
  deriving DecidableEq

def cursorAfter (a : Cursor O) (b : Option (Cursor O)) : Bool :=
  match a, b with
  | _, none => true
  | .snapshot a, some (.snapshot b) => b.index < a.index
  | .snapshot _, some (.stream _) => false
  | .stream _, some (.snapshot _) => true
  | .stream a, some (.stream b) => b < a

/-! ## The bridge -/

structure Job (R V O : Type*) [LinearOrder O] where
  source : TableSource
  cell : R → String → V
  rank : R → O
  /-- is the row among those the engine answers with, asked for the rows after the place? -/
  after : Place O → R → Bool
  /-- a text in the column `key` that reads as one of Syncle's own Redis keys -/
  own : R → Bool
  pageSize : Nat
  readAttempts : Nat
  level : ∀ o, resolveOrder source = .ok o → o.paging ≠ .offset → ∀ r r', rank r = rank r' →
    ∀ c ∈ source.pagedBy o.paging, cell r c = cell r' c

namespace Job

def key (job : Job R V O) (r : R) : List V := job.source.key.map (job.cell r)

def placeOf (job : Job R V O) (r : R) : Place O := .asRead (job.rank r)

/-- The rows asked for when a read goes on from a place; from the top, all of them. -/
def wanted (job : Job R V O) (place : Option (Place O)) (r : R) : Bool :=
  place.all fun p => job.after p r

end Job

/-! ## `TableReaderService.rows` -/

structure Reader (R O : Type*) where
  index : Nat
  /-- where the next page is read from -/
  last : Option (Place O)
  /-- where this page was read from -/
  cursor : Option (Place O)
  /-- what is left of the page -/
  page : List R
  more : Bool
  deriving DecidableEq

def keysetName (columns : List String) : String := ",".intercalate columns

/-- Where a read that resumes goes on from. A keyset's checkpoint of another shape is looked up
by its offset. -/
def resumePlace (job : Job R V O) (rows : List R) (next : Nat)
    (key : Option (Checkpoint (Place O))) : Paging → Option (Place O)
  | .cursor =>
    match key with
    | some (.cursor page) => page
    | _ => none
  | .keyset columns =>
    if next = 0 then none
    else
      match key with
      | some (.keyset column value) =>
        if column = keysetName columns then some value
        else (inOrder job.rank rows)[next - 1]?.map job.placeOf
      | _ => (inOrder job.rank rows)[next - 1]?.map job.placeOf
  | .offset => none

namespace Reader

def begin (job : Job R V O) (rows : List R) (next : Nat)
    (key : Option (Checkpoint (Place O))) (paging : Paging) : Reader R O :=
  let place := resumePlace job rows next key paging
  { index := next, last := place, cursor := place, page := [], more := true }

def readPage (job : Job R V O) (rows : List R) (paging : Paging) (rd : Reader R O) :
    Reader R O :=
  let limit := max job.pageSize 1
  match paging with
  | .offset =>
    let page := pageFrom job.rank rd.index limit rows
    { rd with page := page.rows, more := page.hasMore && !page.rows.isEmpty }
  | .cursor =>
    let page := pageOf job.rank (job.wanted rd.last) limit rows
    { rd with cursor := rd.last, page := page.rows, more := page.hasMore }
  | .keyset _ =>
    let page := pageOf job.rank (job.wanted rd.last) limit rows
    { rd with cursor := rd.last, page := page.rows, more := page.hasMore && !page.rows.isEmpty }

def checkpoint (job : Job R V O) (paging : Paging) (rd : Reader R O) (row : R) :
    Option (Checkpoint (Place O)) :=
  match paging with
  | .cursor => some (.cursor rd.cursor)
  | .keyset columns => some (.keyset (keysetName columns) (job.placeOf row))
  | .offset => none

/-- The reader past a row of its page, yielded or not. -/
def pass (job : Job R V O) (rd : Reader R O) (row : R) (rest : List R) : Reader R O :=
  { rd with last := some (job.placeOf row), page := rest }

end Reader

/-! ## The run -/

/-- `copy()`, between two of its awaits. -/
structure Copying (R O : Type*) where
  paging : Paging
  streamFrom : Nat
  next : Nat
  key : Option (Checkpoint (Place O))
  failures : Nat
  /-- none: the read has yet to begin, or to begin again -/
  reader : Option (Reader R O)
  deriving DecidableEq

inductive Phase (R O : Type*) where
  | stopped
  | copying (c : Copying R O)
  | opening (streamFrom failures : Nat)
  | following (position : Nat)
  deriving DecidableEq

def Phase.byCursor : Phase R O → Bool
  | .copying c => c.paging = .cursor
  | _ => false

/-- Where the copy reads its next page from. -/
def Phase.place : Phase R O → Option (Place O)
  | .copying c => c.reader.bind (·.last)
  | _ => none

structure World (R O : Type*) where
  /-- what was committed at the source, in order -/
  log : List (CdcOperation × R)
  phase : Phase R O
  /-- the changes emitted, over all openings of the stream -/
  out : List (CdcChange (Cursor O) R)
  /-- the cursors this opening has handed over, and the one it was opened at -/
  handed : List (Cursor O)
  /-- the cursor the bridge has stored -/
  persisted : Option (Cursor O)
  deriving DecidableEq

inductive Event (R : Type*) where
  | commit (op : CdcOperation) (row : R)
  | start
  | beginRead
  | readPage
  | handRow
  | copied
  | readFails
  | openStream
  | openFails
  | change
  | skip
  | persist (n : Nat)
  | stop
  deriving DecidableEq

namespace World

def empty : World R O := { log := [], phase := .stopped, out := [], handed := [], persisted := none }

def emit (w : World R O) (c : CdcChange (Cursor O) R) : World R O :=
  { w with out := w.out ++ [c], handed := w.handed ++ [c.cursor] }

def note (w : World R O) (c : Cursor O) : World R O := { w with handed := w.handed ++ [c] }

def goto (w : World R O) (p : Phase R O) : World R O := { w with phase := p }

/-- A stream is opened at the stored cursor. -/
def openAt (w : World R O) (p : Phase R O) : World R O :=
  { w with phase := p, handed := w.persisted.toList }

/-- The end of the copy: its cursor goes out with the notice. -/
def endCopy (w : World R O) (c : Copying R O) : World R O :=
  (w.note (.snapshot
    { index := c.next, key := none, streamFrom := c.streamFrom, done := true })).goto
    (.opening c.streamFrom 0)

end World

namespace Job

variable (job : Job R V O)

def writes (log : List (CdcOperation × R)) : List (Write (List V) R) :=
  log.map fun e => e.1.write (job.key e.2) e.2

variable [DecidableEq V]

def tableOf (log : List (CdcOperation × R)) : List R := rowsOf job.key (job.writes log)

/-- `startStream` and, where there is a copy to make or to go on with, the start of
`copyThenFollow`. -/
def startStream (w : World R O) : Option (World R O) :=
  let copyFrom (streamFrom next : Nat) (key : Option (Checkpoint (Place O))) :
      Option (World R O) :=
    job.source.copyOrder.map fun order => w.openAt <| .copying
      { paging := order.paging, streamFrom := streamFrom, next := next, key := key, failures := 0
        reader := none }
  match w.persisted with
  | none => copyFrom w.log.length 0 none
  | some (.stream position) => some (w.openAt (.following position))
  | some (.snapshot c) =>
    if c.done then some (w.openAt (.following c.streamFrom))
    else copyFrom c.streamFrom (c.index + 1) (c.key.map Checkpoint.stored)

/-- The next row of the page: handed over, unless it is one of Syncle's own keys. -/
def handRow (w : World R O) (c : Copying R O) (rd : Reader R O) (row : R) (rest : List R) :
    World R O :=
  if c.paging = .cursor ∧ job.own row = true then
    w.goto (.copying { c with reader := some (rd.pass job row rest) })
  else
    let key := rd.checkpoint job c.paging row
    (w.emit
      { op := .insert
        row := row
        cursor := .snapshot
          { index := rd.index, key := key, streamFrom := c.streamFrom, done := false } }).goto
      (.copying { c with
        next := rd.index + 1
        key := key
        failures := 0
        reader := some { rd.pass job row rest with index := rd.index + 1 } })

def step (w : World R O) (e : Event R) : Option (World R O) :=
  match e, w.phase with
  | .commit op row, _ => some { w with log := w.log ++ [(op, row)] }
  | .persist n, _ => w.handed[n]?.map fun c => { w with persisted := some c }
  | .stop, .stopped => none
  | .stop, _ => some (w.goto .stopped)
  | .start, .stopped => job.startStream w
  | .beginRead, .copying c =>
    if c.reader = none then
      some (w.goto (.copying { c with
        reader := some (Reader.begin job (job.tableOf w.log) c.next c.key c.paging) }))
    else none
  | .readPage, .copying c =>
    match c.reader with
    | some rd =>
      if rd.page = [] ∧ rd.more = true then
        some (w.goto (.copying { c with
          reader := some (rd.readPage job (job.tableOf w.log) c.paging) }))
      else none
    | none => none
  | .handRow, .copying c =>
    match c.reader with
    | some rd =>
      match rd.page with
      | row :: rest => some (job.handRow w c rd row rest)
      | [] => none
    | none => none
  | .copied, .copying c =>
    match c.reader with
    | some rd => if rd.page = [] ∧ rd.more = false then some (w.endCopy c) else none
    | none => none
  | .readFails, .copying c =>
    if max 1 job.readAttempts ≤ c.failures + 1 then some (w.goto .stopped)
    else some (w.goto (.copying { c with failures := c.failures + 1, reader := none }))
  | .openStream, .opening streamFrom _ => some (w.goto (.following streamFrom))
  | .openFails, .opening streamFrom failures =>
    if max 1 job.readAttempts ≤ failures + 1 then some (w.goto .stopped)
    else some (w.goto (.opening streamFrom (failures + 1)))
  | .change, .following position =>
    w.log[position]?.map fun entry =>
      (w.emit { op := entry.1, row := entry.2, cursor := .stream (position + 1) }).goto
        (.following (position + 1))
  | .skip, .following position => some (w.note (.stream position))
  | _, _ => none

end Job

end Syncle.Snapshot
