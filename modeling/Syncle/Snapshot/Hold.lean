import Syncle.Lib.Catchup
import Syncle.Snapshot.Copy

/-!
# Copy, then follow, with no position to take

`copyThenFollow` over a keyspace whose notifications cannot be read back: the stream is opened
first, and what is heard is held in memory until the copy is done. The copy is read by the engine's
own SCAN cursor. The stream hands over the log's entries in the order they happened, from the moment
it is opened; what happens while nothing listens is never heard.
-/

namespace Syncle.Snapshot.Hold

open Lib Cdc

variable {K R O : Type*} [LinearOrder O]

/-- A change of one key: its row after it, or the row of a key that has gone. -/
structure KeyChange (R : Type*) where
  gone : Bool
  row : R
  deriving DecidableEq

def KeyChange.op (e : KeyChange R) : CdcOperation := if e.gone then .delete else .update

/-- A saved position: the copy's, or that of a change heard (the number of the log's entry, where
the source has a clock reading that means nothing to it later). -/
inductive Cursor (O : Type*) where
  | snapshot (c : SnapshotCursor O Unit)
  | live (n : Nat)
  deriving DecidableEq

/-! ## `HeldChanges` -/

structure HeldChanges (K γ R : Type*) where
  keyColumn : Option String
  /-- the map, in the order of its insertions; a change with no key is under a key of its own -/
  byKey : List (Option K × CdcChange γ R)
  deriving DecidableEq

namespace HeldChanges

variable {γ : Type*} [DecidableEq K]

def empty (keyColumn : Option String) : HeldChanges K γ R := { keyColumn := keyColumn, byKey := [] }

/-- The newest change of a key takes its place at the end. -/
def add (held : HeldChanges K γ R) (key : R → K) (change : CdcChange γ R) : HeldChanges K γ R :=
  match held.keyColumn with
  | some _ =>
    let k := key change.row
    { held with byKey := held.byKey.filter (fun e => e.1 ≠ some k) ++ [(some k, change)] }
  | none => { held with byKey := held.byKey ++ [(none, change)] }

end HeldChanges

/-! ## The bridge -/

structure Job (K R O : Type*) [LinearOrder O] where
  source : TableSource
  scanned : source.cursorPaging = true ∧ source.probe.primaryKey = ["key"]
  key : R → K
  /-- where SCAN's cursor comes by the row's key -/
  place : R → O
  /-- `isSyncleOwnKey` -/
  own : K → Bool
  pageSize : Nat
  readAttempts : Nat
  holdMax : Nat

/-- The generator `rows` of a cursor-paged table, between two of its awaits. -/
structure Scan (R O : Type*) where
  index : Nat
  /-- the cursor of the page -/
  cursor : Option O
  /-- how long the log was when the page was asked for -/
  asked : Option Nat
  page : List R
  /-- the cursor of the page to come; none when this is the last -/
  next : Option (Option O)
  deriving DecidableEq

structure Copying (R O : Type*) where
  paging : Paging
  next : Nat
  key : Option (Checkpoint O)
  failures : Nat
  reader : Option (Scan R O)
  deriving DecidableEq

inductive Phase (K R O : Type*) where
  | stopped
  | copying (c : Copying R O) (held : HeldChanges K (Cursor O) R)
  | draining (held : HeldChanges K (Cursor O) R)
  /-- `held` is null: what is heard is handed on -/
  | live
  deriving DecidableEq

structure World (K R O : Type*) where
  log : List (KeyChange R)
  phase : Phase K R O
  /-- how long the log was when the stream was opened -/
  since : Nat
  /-- how much of the log the stream is past -/
  heard : Nat
  /-- the entries that were heard, over all openings -/
  heardAt : List Nat
  /-- the keys of entries nothing listened to, since the copy was begun -/
  missed : List K
  out : List (CdcChange (Cursor O) R)
  handed : List (Cursor O)
  persisted : Option (Cursor O)
  deriving DecidableEq

inductive Event (R O : Type*) where
  | commit (e : KeyChange R)
  | hear
  | start
  | beginRead
  | askPage
  | page (rows : List R) (next : Option O)
  | handRow
  | copied
  | readFails
  | drain
  | openGate
  | persist (n : Nat)
  | stop
  deriving DecidableEq

namespace Phase

def held : Phase K R O → List (Option K × CdcChange (Cursor O) R)
  | .copying _ held | .draining held => held.byKey
  | .stopped | .live => []

def listening : Phase K R O → Bool
  | .stopped => false
  | _ => true

end Phase

namespace World

def empty : World K R O :=
  { log := [], phase := .stopped, since := 0, heard := 0, heardAt := [], missed := [], out := []
    handed := [], persisted := none }

def goto (w : World K R O) (p : Phase K R O) : World K R O := { w with phase := p }

def emit (w : World K R O) (c : CdcChange (Cursor O) R) : World K R O :=
  { w with out := w.out ++ [c], handed := w.handed ++ [c.cursor] }

def note (w : World K R O) (c : Cursor O) : World K R O := { w with handed := w.handed ++ [c] }

/-- The stream is past an entry, one of Syncle's own keys. -/
def pass (w : World K R O) : World K R O := { w with heard := w.heard + 1 }

/-- The stream is past an entry, which was heard. -/
def hears (w : World K R O) : World K R O :=
  { w with heard := w.heard + 1, heardAt := w.heardAt ++ [w.heard] }

/-- The end of the copy: its cursor goes out with the notice, before what is held. -/
def endCopy (w : World K R O) (c : Copying R O) (held : HeldChanges K (Cursor O) R) :
    World K R O :=
  (w.note (.snapshot { index := c.next, key := none, streamFrom := (), done := true })).goto
    (.draining held)

end World

/-- What the engine's provider hands over for entry `n` of the log. -/
def heardChange (n : Nat) (e : KeyChange R) : CdcChange (Cursor O) R :=
  { op := e.op, row := e.row, cursor := .live n }

def resumeCursor : Option (Checkpoint O) → Option O
  | some (.cursor page) => page
  | _ => none

namespace Job

variable [DecidableEq K] (job : Job K R O)

def writes (log : List (KeyChange R)) : List (Write K R) :=
  log.map fun e => e.op.write (job.key e.row) e.row

def tableOf (log : List (KeyChange R)) : List R := rowsOf job.key (job.writes log)

/-- SCAN's guarantee, and the reads of the values after it: a key with a place in the stretch the
cursor went over comes with its row, and a row that comes is the key's, unless the key was written
while the page was being read. -/
def Answers (log : List (KeyChange R)) (asked : Nat) (cursor : Option O) (rows : List R)
    (next : Option O) : Prop :=
  (∀ r ∈ job.tableOf log, Untouched (job.writes log) asked (job.key r) →
      behind job.place cursor r = true → (∀ c ∈ next, behind job.place (some c) r = false) →
      r ∈ rows) ∧
    ∀ r ∈ rows, Untouched (job.writes log) asked (job.key r) → r ∈ job.tableOf log

instance [DecidableEq R] (log : List (KeyChange R)) (asked : Nat) (cursor : Option O)
    (rows : List R) (next : Option O) : Decidable (job.Answers log asked cursor rows next) := by
  unfold Answers
  infer_instance

/-- The stream is opened: it hears from now on. -/
def listen (w : World K R O) (p : Phase K R O) : World K R O :=
  { w with
    phase := p
    since := w.log.length
    heard := w.log.length
    missed :=
      if w.persisted = none then []
      else w.missed ++ (w.log.drop w.heard).map fun e => job.key e.row
    handed := w.persisted.toList }

def startStream (w : World K R O) : Option (World K R O) :=
  let copyFrom (next : Nat) (key : Option (Checkpoint O)) : Option (World K R O) :=
    job.source.copyOrder.map fun order => job.listen w <| .copying
      { paging := order.paging, next := next, key := key, failures := 0, reader := none }
      (HeldChanges.empty order.keysetColumn)
  match w.persisted with
  | none => copyFrom 0 none
  | some (.live _) => some (job.listen w .live)
  | some (.snapshot c) =>
    if c.done then some (job.listen w .live) else copyFrom (c.index + 1) c.key

/-- The gated `onChange`, while there is something to hold for. -/
def hold (w : World K R O) (held : HeldChanges K (Cursor O) R) (change : CdcChange (Cursor O) R)
    (p : HeldChanges K (Cursor O) R → Phase K R O) : World K R O :=
  let held' := held.add job.key change
  if job.holdMax < held'.byKey.length then w.hears.goto .stopped else w.hears.goto (p held')

def onChange (w : World K R O) (change : CdcChange (Cursor O) R) : Option (World K R O) :=
  match w.phase with
  | .stopped => none
  | .copying c held => some (job.hold w held change (.copying c))
  | .draining held => some (job.hold w held change .draining)
  | .live => some (w.hears.emit change)

def hear (w : World K R O) (e : KeyChange R) : Option (World K R O) :=
  if w.phase.listening = false then none
  else if job.own (job.key e.row) = true then some w.pass
  else job.onChange w (heardChange w.heard e)

/-- A page comes. By OFFSET it is a slice of the scan, whatever the order of that was. -/
def takePage (log : List (KeyChange R)) (paging : Paging) (rd : Scan R O) (cursor : Option O)
    (rows : List R) (next : Option O) : Scan R O :=
  match paging with
  | .offset =>
    let page := pageFrom job.place rd.index (max job.pageSize 1) (job.tableOf log)
    { rd with asked := none, page := page.rows, next := if page.hasMore then some none else none }
  | _ => { rd with cursor := cursor, asked := none, page := rows, next := next.map some }

def handRow (w : World K R O) (c : Copying R O) (held : HeldChanges K (Cursor O) R)
    (rd : Scan R O) (row : R) (rest : List R) : World K R O :=
  if c.paging = .cursor ∧ job.own (job.key row) = true then
    w.goto (.copying { c with reader := some { rd with page := rest } } held)
  else
    let key := if c.paging = .cursor then some (.cursor rd.cursor) else none
    (w.emit
      { op := .insert
        row := row
        cursor := .snapshot { index := rd.index, key := key, streamFrom := (), done := false } }).goto
      (.copying
        { c with
          next := rd.index + 1
          key := key
          failures := 0
          reader := some { rd with page := rest, index := rd.index + 1 } }
        held)

def step [DecidableEq R] (w : World K R O) (e : Event R O) : Option (World K R O) :=
  match e, w.phase with
  | .commit change, _ => some { w with log := w.log ++ [change] }
  | .hear, _ => w.log[w.heard]?.bind (job.hear w)
  | .persist n, _ => w.handed[n]?.map fun c => { w with persisted := some c }
  | .stop, .stopped => none
  | .stop, _ => some (w.goto .stopped)
  | .start, .stopped => job.startStream w
  | .beginRead, .copying c held =>
    if c.reader = none then
      some (w.goto (.copying { c with
        reader := some
          { index := c.next, cursor := resumeCursor c.key, asked := none, page := []
            next := some (resumeCursor c.key) } } held))
    else none
  | .askPage, .copying c held =>
    match c.reader with
    | some rd =>
      if rd.page = [] ∧ rd.next ≠ none ∧ rd.asked = none then
        some (w.goto (.copying { c with
          reader := some { rd with asked := some w.log.length } } held))
      else none
    | none => none
  | .page rows next, .copying c held =>
    match c.reader with
    | some rd =>
      match rd.asked, rd.next with
      | some asked, some cursor =>
        if c.paging = .cursor → job.Answers w.log asked cursor rows next then
          some (w.goto (.copying { c with
            reader := some (job.takePage w.log c.paging rd cursor rows next) } held))
        else none
      | _, _ => none
    | none => none
  | .handRow, .copying c held =>
    match c.reader with
    | some rd =>
      match rd.page with
      | row :: rest => some (job.handRow w c held rd row rest)
      | [] => none
    | none => none
  | .copied, .copying c held =>
    match c.reader with
    | some rd => if rd.page = [] ∧ rd.next = none then some (w.endCopy c held) else none
    | none => none
  | .readFails, .copying c held =>
    if max 1 job.readAttempts ≤ c.failures + 1 then some (w.goto .stopped)
    else some (w.goto (.copying { c with failures := c.failures + 1, reader := none } held))
  | .drain, .draining held =>
    match held.byKey with
    | (_, change) :: rest => some ((w.emit change).goto (.draining { held with byKey := rest }))
    | [] => none
  | .openGate, .draining held => if held.byKey = [] then some (w.goto .live) else none
  | _, _ => none

end Job

end Syncle.Snapshot.Hold
