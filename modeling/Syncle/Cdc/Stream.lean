import Syncle.Cdc.Change
import Syncle.Cdc.IsolateFailures

/-!
# The live pipeline of one bridge (`bridge-cdc.service.ts`)

`BridgeCdcService` takes the changes a provider hands over, one at a time and in order, gathers
them into batches, writes each batch to the destination, and only then moves the persisted
cursor. Two activities run at once: the *chain* (`stream.pending`), which works through what
arrives, and at most one *delivery in flight* (`stream.inflight`). They meet at `await`s.

The model keeps that structure. `Task` is where the chain stands, `Delivery` where the delivery
stands, and an `Event` resumes one of them with what the awaited call answered. Between two
events the source's code is synchronous, so an event is exactly one uninterrupted stretch of it.

What the environment decides is in the events: what the provider hands over again after a
reconnect, what a look-up answers, whether a write to the metadata store or to the destination
succeeds, when a timer fires, when the process dies.

Modelled as one thing: a write to the metadata store either takes effect and answers, or fails
and changes nothing. Parking rows is the exception, because no row may be lost to *any* outcome of
it: it may also take effect and report a failure (`WriteOutcome.unseen`).

`passed` is a record kept for the statements only: the changes that were filtered out or dropped
as an echo. A dead-letter entry holds the whole item where the source holds its row, so that the
statements can say *which* change a stored row is.
-/

namespace Syncle.Cdc

/-! ## What the pipeline reads of its surroundings -/

inductive OnError where
  | abort | continue
  deriving DecidableEq

/-- The bridge, its provider and the runtime configuration, as far as the pipeline reads them.
`Sig` is the serialised key of a row within a batch. -/
structure Bridge (γ R Sig : Type*) where
  /-- the provider's: is the first cursor strictly after the watermark? -/
  cursorAfter : γ → Option γ → Bool
  handlesSourceFilters : Bool
  /-- `tracksSchema(engine)` -/
  tracksSchema : Bool
  /-- `rowMatchesFilters`, with missing columns passed for a delete -/
  rowMatchesFilters : CdcOperation → R → Bool
  /-- identity of a row within a batch; none when the source has no key -/
  keySignature : R → Option Sig
  /-- the row's column names, sorted and joined -/
  columnSignature : R → String
  /-- does the row carry the `UNCHANGED` mark? -/
  hasUnchanged : R → Bool
  /-- `JSON.stringify(row).length` -/
  jsonLength : R → Nat
  maxBatch : Nat
  cdcBatchBytes : Nat
  onError : OnError
  /-- the destination is a database (not HTTP) -/
  databaseDestination : Bool
  /-- some target appends (`writeMode: insert`) -/
  insertTarget : Bool
  maxConsecutiveFailures : Nat
  deadLetterMaxRows : Nat

/-! ## State -/

/-- One change held in the pending batch. -/
structure Buffered (γ R Sig : Type*) where
  change : CdcChange γ R
  row : R
  keySig : Option Sig
  deriving DecidableEq

/-- `NewDeadLetter`, as stored. -/
structure DeadLetter (γ R Sig : Type*) where
  sequence : Nat
  op : Option CdcOperation
  rows : List (Buffered γ R Sig)
  cursor : γ
  error : String
  succeededTargets : List String
  deriving DecidableEq

/-- One delivery that succeeded: what the destination was written with, as one unit. -/
structure Batch (γ R Sig : Type*) where
  op : Option CdcOperation
  items : List (Buffered γ R Sig)
  deriving DecidableEq

/-- What came of a batch: nothing to deliver, delivered, or the failed attempt's report. -/
inductive Outcome where
  | nothing
  | success
  | failed (error : String) (succeededTargets : List String)
  deriving DecidableEq

/-- Where a delivery stands. `tries` counts the calls of `work` that have thrown (`settle`). -/
inductive Stage where
  | attempting
  | settling (outcome : Outcome) (tries : Nat)
  | checkpointing (outcome : Outcome) (nextSeq : Nat) (tries : Nat)
  deriving DecidableEq

/-- `stream.inflight`: one run of `deliverBatch`. -/
structure Delivery (γ R Sig : Type*) where
  items : List (Buffered γ R Sig)
  op : Option CdcOperation
  /-- how far the batch reaches: its last row, or a skipped position beyond it -/
  reach : γ
  seq : Nat
  stage : Stage
  deriving DecidableEq

inductive HaltStatus where
  | paused | failed
  deriving DecidableEq

/-- What the task that called `flush` goes on with once it returns. -/
inductive Then (γ R Sig : Type*) where
  | done
  | join (item : Buffered γ R Sig)
  | emptied (c : CdcChange γ R)
  | notice (cursor : γ)
  | halt (status : HaltStatus)
  deriving DecidableEq

/-- Where the chain stands: which `await` it is suspended at. -/
inductive Task (γ R Sig : Type*) where
  | idle
  /-- `accept`: reading the row back, checking the schema, asking the echo guard -/
  | examining (c : CdcChange γ R)
  /-- `flush`: waiting for the delivery in flight -/
  | flushing (next : Then γ R Sig)
  /-- `accept` of a truncate: asking the echo guard -/
  | recognising (c : CdcChange γ R)
  /-- waiting for the delivery in flight, outside `flush` -/
  | draining (next : Then γ R Sig)
  /-- `settle` of a notice -/
  | noticing (cursor : γ) (tries : Nat)
  deriving DecidableEq

inductive TimerFor where
  | rows | position
  deriving DecidableEq

/-- `Stream`: the live runtime state of one active change stream. -/
structure Stream (γ R Sig : Type*) where
  seq : Nat
  watermark : Option γ
  buffer : List (Buffered γ R Sig)
  bufferOp : Option CdcOperation
  bufferKeys : List Sig
  tailCursor : Option γ
  timer : Option TimerFor
  /-- timed flushes that have fired and wait their turn on the chain -/
  timedFlushes : Nat
  byteCappedBatch : Option Nat
  inflight : Option (Delivery γ R Sig)
  halted : Option HaltStatus
  consecutiveFailures : Nat
  columnSignature : Option String
  /-- where the chain stands -/
  task : Task γ R Sig
  deriving DecidableEq

/-- The bridge and everything around it. `stream` is what a crash takes; the rest survives. -/
structure World (γ R Sig : Type*) where
  /-- the provider's place: the index of the next item it hands over -/
  next : Nat
  /-- the last cursor acknowledged to the source -/
  acked : Option γ
  stream : Option (Stream γ R Sig)
  /-- the job's `cursorJson` -/
  cursorJson : Option γ
  /-- the job's `cursorOffset` -/
  cursorOffset : Nat
  /-- the deliveries that succeeded, oldest first -/
  dest : List (Batch γ R Sig)
  deadLetters : List (DeadLetter γ R Sig)
  /-- the changes filtered out or dropped as an echo -/
  passed : List γ
  deriving DecidableEq

/-! ## Events -/

inductive WriteOutcome where
  | ok
  | refused
  /-- it took effect, and the caller was told it failed -/
  | unseen
  deriving DecidableEq

/-- `completeRow`: what reading a row back came to. -/
inductive Completion (R : Type*) where
  | as (row : R)
  /-- the read kept failing: the bridge is stopped -/
  | stopped
  deriving DecidableEq

/-- `drift.check`. It reads the metadata store outside of any `try`, so it can reject. -/
inductive Drift where
  | clear | stop | throws
  deriving DecidableEq

/-- `echo.recognise`, and `echo.route` of what it recognised. Neither throws. -/
inductive Echo (R : Type*) where
  | none
  | drop
  /-- recognised, and sent on with where it has been -/
  | forward (row : R)
  deriving DecidableEq

/-- What the calls `accept` waits for answered. -/
structure Examined (R : Type*) where
  completion : Completion R
  drift : Drift
  echo : Echo R
  deriving DecidableEq

/-- What the calls of one run of `work` answered. -/
structure Worked where
  /-- the first `recordDelivery` it makes -/
  recorded : Bool
  /-- the deliveries of the isolation, in the order it makes them -/
  isolation : List (IsolationAttempt String)
  /-- could `pendingRows` be counted? -/
  counted : Bool
  parked : WriteOutcome
  /-- the `recordDelivery` calls after parking -/
  recordedAfter : Bool
  deriving DecidableEq

inductive Event (R : Type*) where
  /-- the provider hands over its next item -/
  | take
  | examined (a : Examined R)
  | recognised (a : Echo R)
  /-- the linger timer fires -/
  | timer
  /-- a timed flush gets its turn on the chain -/
  | timedFlush
  /-- the delivery `flush` waited for is over -/
  | flush
  /-- …the same, outside `flush` -/
  | drained
  /-- a notice is recorded and checkpointed, or one of the two fails -/
  | noticed (recorded written acked : Bool)
  /-- the provider says the stream cannot go on -/
  | fatal
  /-- the delivery attempt answered -/
  | attempted (outcome : Outcome)
  /-- `settle` runs `work` as far as its checkpoint -/
  | work (a : Worked)
  | checkpoint (written acked : Bool)
  /-- after a reconnect the provider hands over again from item `n` on. Any item it has handed
  over may be the first: what was handed over before the reconnect can still wait on the chain,
  and the acknowledgement move on, when the first of the second round gets its turn -/
  | reconnect (n : Nat)
  | crash
  /-- a start from the persisted cursor; the provider hands over from item `n` on -/
  | restart (n : Nat)
  deriving DecidableEq

/-! ## The code -/

section Code

variable {γ R Sig : Type*} [DecidableEq Sig]

/-- `attempts at the metadata-store writes that follow a delivery` -/
def settleAttempts : Nat := 3

/-- `DEAD_LETTER_CHUNK` -/
def deadLetterChunk : Nat := 500

def Delivery.at (d : Delivery γ R Sig) (stage : Stage) : Delivery γ R Sig :=
  { d with stage := stage }

namespace Stream

/-- The stream `beginStream` registers. -/
def start (cursorJson : Option γ) (cursorOffset : Nat) : Stream γ R Sig :=
  { seq := cursorOffset, watermark := cursorJson, buffer := [], bufferOp := none,
    bufferKeys := [], tailCursor := none, timer := none, timedFlushes := 0,
    byteCappedBatch := none, inflight := none, halted := none, consecutiveFailures := 0,
    columnSignature := none, task := .idle }

/-- The chain goes on to `task`. -/
def goto (s : Stream γ R Sig) (task : Task γ R Sig) : Stream γ R Sig := { s with task := task }

def clearTimer (s : Stream γ R Sig) : Stream γ R Sig := { s with timer := none }

def deliver (s : Stream γ R Sig) (d : Option (Delivery γ R Sig)) : Stream γ R Sig :=
  { s with inflight := d }

def extendTo (s : Stream γ R Sig) (cursor : γ) : Stream γ R Sig := { s with tailCursor := some cursor }

/-- `halt`: the first one counts. -/
def halt (s : Stream γ R Sig) (status : HaltStatus) : Stream γ R Sig :=
  if s.halted.isSome then s else { s with halted := some status }

def wantedTimer (s : Stream γ R Sig) : TimerFor := if s.buffer.length > 0 then .rows else .position

def scheduleFlush (s : Stream γ R Sig) : Stream γ R Sig :=
  if s.timer = some s.wantedTimer ∨ s.timer = some .rows then s
  else { s with timer := some s.wantedTimer }

/-- Extend the pending batch's reach to `cursor` without adding a row. -/
def notePosition (b : Bridge γ R Sig) (s : Stream γ R Sig) (cursor : γ) : Stream γ R Sig :=
  if s.halted.isSome then s
  else if !b.cursorAfter cursor (s.tailCursor <|> s.watermark) then s
  else (s.extendTo cursor).scheduleFlush

/-- `flush`, from where it finds no delivery in flight: take the batch, and start delivering it
without waiting for it. -/
def takeBatch (s : Stream γ R Sig) : Stream γ R Sig :=
  match s.tailCursor with
  | none => s
  | some reach =>
    if s.halted.isSome then s
    else
      { s with
        inflight := some {
          items := s.buffer, op := s.bufferOp, reach := reach, seq := s.seq,
          stage := if s.buffer.isEmpty then .settling .nothing 0 else .attempting }
        tailCursor := none
        buffer := []
        bufferKeys := []
        bufferOp := none
        byteCappedBatch := none }

/-- `flush` with nothing to do after it, up to its wait for the delivery in flight. -/
def flushAndFinish (s : Stream γ R Sig) : Stream γ R Sig :=
  if s.tailCursor.isNone ∨ s.halted.isSome then s.clearTimer.goto .idle
  else s.clearTimer.goto (.flushing .done)

/-- The change joins the batch; the first row of one is measured. -/
def push (b : Bridge γ R Sig) (s : Stream γ R Sig) (item : Buffered γ R Sig) : Stream γ R Sig :=
  { s with
    byteCappedBatch :=
      if s.buffer.isEmpty then
        let bytes := b.jsonLength item.row
        if bytes > 0 then some (max 1 (b.cdcBatchBytes / bytes)) else none
      else s.byteCappedBatch
    buffer := s.buffer ++ [item]
    tailCursor := some item.change.cursor
    bufferOp := some item.change.op
    bufferKeys := match item.keySig with | some k => k :: s.bufferKeys | none => s.bufferKeys }

def batchLimit (b : Bridge γ R Sig) (s : Stream γ R Sig) : Nat :=
  min b.maxBatch (s.byteCappedBatch.getD b.maxBatch)

/-- The end of `accept`: the change joins the batch, and a full batch is flushed. -/
def joinBatch (b : Bridge γ R Sig) (s : Stream γ R Sig) (item : Buffered γ R Sig) :
    Stream γ R Sig :=
  let s := s.push b item
  if s.buffer.length ≥ s.batchLimit b then s.flushAndFinish else s.scheduleFlush.goto .idle

/-- What the caller of `flush` does once it has returned. -/
def afterFlush (b : Bridge γ R Sig) (s : Stream γ R Sig) : Then γ R Sig → Stream γ R Sig
  | .done => s.goto .idle
  | .join item => s.joinBatch b item
  | .emptied c => if s.halted.isSome then s.goto .idle else s.goto (.recognising c)
  | .notice cursor => s.goto (.draining (.notice cursor))
  | .halt status => s.goto (.draining (.halt status))

/-- `flush`, up to its wait for the delivery in flight. -/
def startFlush (b : Bridge γ R Sig) (s : Stream γ R Sig) (next : Then γ R Sig) :
    Stream γ R Sig :=
  if s.tailCursor.isNone ∨ s.halted.isSome then s.clearTimer.afterFlush b next
  else s.clearTimer.goto (.flushing next)

/-- `accept` (and `handleSkip`, `handleNotice`), up to their first wait. -/
def takeItem (b : Bridge γ R Sig) (s : Stream γ R Sig) : StreamItem γ R → Stream γ R Sig
  | .skip cursor => s.notePosition b cursor
  | .notice cursor =>
    if s.halted.isSome then s
    else if !b.cursorAfter cursor s.watermark then s
    else s.startFlush b (.notice cursor)
  | .change c =>
    if s.halted.isSome then s
    else if !b.cursorAfter c.cursor s.watermark then s
    else if c.op = .truncate then s.startFlush b (.emptied c)
    else s.goto (.examining c)

/-- Does this change share no batch with what is buffered? -/
def conflicts (s : Stream γ R Sig) (item : Buffered γ R Sig) : Bool :=
  !s.buffer.isEmpty &&
    (s.bufferOp ≠ some item.change.op ||
      match item.keySig with | some k => s.bufferKeys.contains k | none => false)

/-- `accept`, from its key signature on. -/
def acceptRow (b : Bridge γ R Sig) (s : Stream γ R Sig) (c : CdcChange γ R) : Stream γ R Sig :=
  let item : Buffered γ R Sig := { change := c, row := c.row, keySig := b.keySignature c.row }
  if s.conflicts item then s.startFlush b (.join item) else s.joinBatch b item

/-- `accept`, from its source filters on. The second component says the change was filtered out
or dropped as an echo. -/
def acceptMatching (b : Bridge γ R Sig) (s : Stream γ R Sig) (c : CdcChange γ R)
    (echo : Echo R) : Stream γ R Sig × Bool :=
  if !b.handlesSourceFilters && !b.rowMatchesFilters c.op c.row then
    ((s.goto .idle).notePosition b c.cursor, true)
  else
    match echo with
    | .none => (s.acceptRow b c, false)
    | .drop =>
      if s.halted.isSome then (s.goto .idle, false)
      else ((s.goto .idle).notePosition b c.cursor, true)
    | .forward row =>
      if s.halted.isSome then (s.goto .idle, false)
      else (s.acceptRow b { c with row := row }, false)

/-- Are the columns of this change's row kept an eye on? -/
def watchesColumns (b : Bridge γ R Sig) (c : CdcChange γ R) : Bool :=
  c.op ≠ .delete && b.tracksSchema

/-- Is the schema looked at before this row is written? Only once a row has shown its columns,
and this one's are others. -/
def looksAtSchema (b : Bridge γ R Sig) (s : Stream γ R Sig) (c : CdcChange γ R) : Bool :=
  watchesColumns b c && s.columnSignature.any fun seen => seen ≠ b.columnSignature c.row

/-- `stream.columnSignature = signature` -/
def see (b : Bridge γ R Sig) (s : Stream γ R Sig) (c : CdcChange γ R) : Stream γ R Sig :=
  if watchesColumns b c then { s with columnSignature := some (b.columnSignature c.row) } else s

/-- `accept`, from its look at the schema on. A check that throws leaves `accept` by the way of
`handleChange`'s `catch`, which logs it: the chain is free again, and the change is gone. -/
def acceptChecked (b : Bridge γ R Sig) (s : Stream γ R Sig) (c : CdcChange γ R)
    (drift : Drift) (echo : Echo R) : Stream γ R Sig × Bool :=
  if s.looksAtSchema b c then
    match drift with
    | .throws => (s.goto .idle, false)
    | .stop =>
      if s.halted.isSome then (s.goto .idle, false) else (s.startFlush b (.halt .failed), false)
    | .clear =>
      if s.halted.isSome then (s.goto .idle, false) else (s.see b c).acceptMatching b c echo
  else (s.see b c).acceptMatching b c echo

/-- `completeRow`: only a row that carries the mark is read back. -/
def completeRow (b : Bridge γ R Sig) (c : CdcChange γ R) (completion : Completion R) :
    Option (CdcChange γ R) :=
  if b.hasUnchanged c.row then
    match completion with
    | .as row => some { c with row := row }
    | .stopped => none
  else some c

/-- `accept`, from the test against the watermark on. -/
def examine (b : Bridge γ R Sig) (s : Stream γ R Sig) (c : CdcChange γ R) (a : Examined R) :
    Stream γ R Sig × Bool :=
  match completeRow b c a.completion with
  | none => ((s.halt .failed).goto .idle, false)
  | some c => s.acceptChecked b c a.drift a.echo

/-- A truncate goes alone. -/
def pushTruncate (s : Stream γ R Sig) (c : CdcChange γ R) (row : R) : Stream γ R Sig :=
  { s with
    buffer := s.buffer ++ [{ change := c, row := row, keySig := none }]
    tailCursor := some c.cursor
    bufferOp := some c.op }

/-- `accept` of a truncate, once everything before it is on its way. -/
def acceptTruncate (b : Bridge γ R Sig) (s : Stream γ R Sig) (c : CdcChange γ R) (echo : Echo R) :
    Stream γ R Sig × Bool :=
  if s.halted.isSome then (s.goto .idle, false)
  else
    match echo with
    | .none => ((s.pushTruncate c c.row).flushAndFinish, false)
    | .drop => ((s.goto .idle).notePosition b c.cursor, true)
    | .forward row => ((s.pushTruncate c row).flushAndFinish, false)

end Stream

namespace World

/-- `checkpoint`, where the write of the cursor succeeds. -/
def persist (w : World γ R Sig) (s : Stream γ R Sig) (nextSeq : Nat) (cursor : γ)
    (acked : Bool) : World γ R Sig :=
  { w with
    cursorJson := some cursor
    cursorOffset := nextSeq
    acked := if acked then some cursor else w.acked
    stream := some { s with seq := nextSeq, watermark := some cursor } }

/-- `DeadLetterService.park`: the pending entries from `replaceFrom` on make way for the new
ones, in one transaction. -/
def park (w : World γ R Sig) (entries : List (DeadLetter γ R Sig)) (replaceFrom : Nat) :
    World γ R Sig :=
  if entries.isEmpty then w
  else { w with deadLetters := w.deadLetters.filter (fun e => e.sequence < replaceFrom) ++ entries }

/-- `DeadLetterService.pendingRows`. -/
def pendingRows (w : World γ R Sig) : Nat :=
  (w.deadLetters.map fun e => e.rows.length).sum

end World

/-- One row, or one chunk of rows, that could not be delivered. -/
structure Failed (γ R Sig : Type*) where
  rows : List (Buffered γ R Sig)
  error : String
  succeededTargets : List String

/-- `rows.slice(i, i + DEAD_LETTER_CHUNK)`, for every chunk. `fuel` is the number of rows. -/
def chunks {α : Type*} (n : Nat) : Nat → List α → List (List α)
  | _, [] => []
  | 0, _ => []
  | fuel + 1, rows => rows.take n :: chunks n fuel (rows.drop n)

/-- One delivery of the isolation: it takes the next answer, and a success is in the
destination. -/
def attemptPart (op : Option CdcOperation)
    (w : List (IsolationAttempt String) × List (Batch γ R Sig)) (rows : List (Buffered γ R Sig))
    (_skip : List String) :
    IsolationAttempt String × (List (IsolationAttempt String) × List (Batch γ R Sig)) :=
  match w.1 with
  | [] => ({ ok := false, error := none, succeededTargets := [] }, w)
  | a :: answers =>
    (a, (answers, if a.ok then w.2 ++ [Batch.mk op rows] else w.2))

/-- What one run of `work` came to, short of its checkpoint. -/
inductive Work where
  | threw
  | stopped
  /-- carry on from this sequence -/
  | next (seq : Nat)
  deriving DecidableEq

/-- `stop`, inside `handleFailedBatch`: record, then halt. -/
def stopBatch (w : World γ R Sig) (s : Stream γ R Sig) (recorded : Bool) :
    World γ R Sig × Stream γ R Sig × Work :=
  if recorded then (w, s.halt .paused, .stopped) else (w, s, .threw)

/-- Did this batch deliver anything? -/
def countFailure (s : Stream γ R Sig) (delivered : List (Buffered γ R Sig)) : Stream γ R Sig :=
  { s with consecutiveFailures := if delivered.length > 0 then 0 else s.consecutiveFailures + 1 }

/-- Delivered rows take the batch's sequence; the rows set aside take the next one. -/
def failedSequence (d : Delivery γ R Sig) (delivered : List (Buffered γ R Sig)) : Nat :=
  if delivered.length > 0 then d.seq + 1 else d.seq

def entriesOf (d : Delivery γ R Sig) (sequence : Nat) (failed : List (Failed γ R Sig)) :
    List (DeadLetter γ R Sig) :=
  failed.map fun f =>
    { sequence := sequence, op := d.op, rows := f.rows, cursor := d.reach, error := f.error,
      succeededTargets := f.succeededTargets }

/-- Park first, record second, and only then (in the caller) advance. -/
def parkFailed (w : World γ R Sig) (s : Stream γ R Sig) (d : Delivery γ R Sig) (sequence : Nat)
    (failed : List (Failed γ R Sig)) (a : Worked) : World γ R Sig × Stream γ R Sig × Work :=
  match a.parked with
  | .refused => (w, s, .threw)
  | .unseen => (w.park (entriesOf d sequence failed) d.seq, s, .threw)
  | .ok =>
    (w.park (entriesOf d sequence failed) d.seq, s,
      if a.recordedAfter then .next (sequence + 1) else .threw)

/-- `handleFailedBatch`, once it is known which rows are at fault. -/
def settleFailed (b : Bridge γ R Sig) (w : World γ R Sig) (s : Stream γ R Sig)
    (d : Delivery γ R Sig) (delivered : List (Buffered γ R Sig)) (failed : List (Failed γ R Sig))
    (a : Worked) : World γ R Sig × Stream γ R Sig × Work :=
  if failed.isEmpty then
    (w, { s with consecutiveFailures := 0 }, if a.recorded then .next (d.seq + 1) else .threw)
  else if (countFailure s delivered).consecutiveFailures ≥ b.maxConsecutiveFailures then
    stopBatch w (countFailure s delivered) a.recorded
  else if !a.counted then (w, countFailure s delivered, .threw)
  else if w.pendingRows + (failed.map fun f => f.rows.length).sum > b.deadLetterMaxRows then
    stopBatch w (countFailure s delivered) a.recorded
  else parkFailed w (countFailure s delivered) d (failedSequence d delivered) failed a

/-- Poison-row isolation limits (`ISOLATION`). -/
def isolationOptions (error : String) (succeededTargets : List String) : IsolationOptions String :=
  { batchError := some error, alreadySucceeded := succeededTargets, maxAttempts := 128,
    maxPoisoned := 100, failuresBeforeSystemic := 14 }

/-- `handleFailedBatch`. -/
def handleFailedBatch (b : Bridge γ R Sig) (w : World γ R Sig) (s : Stream γ R Sig)
    (d : Delivery γ R Sig) (error : String) (succeededTargets : List String) (a : Worked) :
    World γ R Sig × Stream γ R Sig × Work :=
  if b.onError = .abort then stopBatch w s a.recorded
  else if b.databaseDestination && decide (d.items.length > 1) && !b.insertTarget then
    let (found, answers) := isolateFailures (attemptPart d.op)
      (isolationOptions error succeededTargets) (a.isolation, w.dest) d.items
    let w := { w with dest := answers.2 }
    if found.systemic then stopBatch w s a.recorded
    else
      settleFailed b w s d found.delivered
        (found.poisoned.map fun p =>
          Failed.mk [p.row] p.error p.succeededTargets) a
  else
    settleFailed b w s d []
      ((chunks deadLetterChunk d.items.length d.items).map fun rows =>
        Failed.mk rows error succeededTargets) a

/-- `work`, the body `settle` repeats, short of its checkpoint. -/
def runWork (b : Bridge γ R Sig) (w : World γ R Sig) (s : Stream γ R Sig) (d : Delivery γ R Sig)
    (outcome : Outcome) (a : Worked) : World γ R Sig × Stream γ R Sig × Work :=
  match outcome with
  | .nothing => (w, s, .next s.seq)
  | .success =>
    if a.recorded then (w, { s with consecutiveFailures := 0 }, .next (d.seq + 1))
    else (w, s, .threw)
  | .failed error succeededTargets => handleFailedBatch b w s d error succeededTargets a

/-- `settle`, where `work` has thrown once more: try again, or stop without advancing. -/
def settleThrew (s : Stream γ R Sig) (d : Delivery γ R Sig) (outcome : Outcome) (tries : Nat) :
    Stream γ R Sig :=
  if tries + 1 < settleAttempts then s.deliver (some (d.at (.settling outcome (tries + 1))))
  else (s.halt .failed).deliver none

namespace World

/-- The world before the bridge has ever read anything: started, with no position. -/
def fresh : World γ R Sig :=
  { next := 0, acked := none, stream := some (Stream.start none 0), cursorJson := none,
    cursorOffset := 0, dest := [], deadLetters := [], passed := [] }

/-- `c` was filtered out or dropped as an echo, if `yes`. -/
def pass (w : World γ R Sig) (cursor : γ) (yes : Bool) : World γ R Sig :=
  if yes then { w with passed := w.passed ++ [cursor] } else w

def withStream (w : World γ R Sig) (s : Stream γ R Sig) : World γ R Sig :=
  { w with stream := some s }

/-- `beginStream` from what is persisted. The provider hands over everything after that
cursor, and may hand over more. -/
def reopen (b : Bridge γ R Sig) (src : List (StreamItem γ R)) (w : World γ R Sig) (n : Nat) :
    Option (World γ R Sig) :=
  if (src.take n).all (fun item => !b.cursorAfter item.cursor w.cursorJson) then
    some { w with next := n, stream := some (Stream.start w.cursorJson w.cursorOffset) }
  else none

/-- One uninterrupted stretch of the running bridge's code. -/
def running (b : Bridge γ R Sig) (src : List (StreamItem γ R)) (w : World γ R Sig)
    (s : Stream γ R Sig) : Event R → Option (World γ R Sig)
  | .take =>
    match s.task, src[w.next]? with
    | .idle, some item => some { w with next := w.next + 1, stream := some (s.takeItem b item) }
    | _, _ => none
  | .examined a =>
    match s.task with
    | .examining c => some ((w.pass c.cursor (s.examine b c a).2).withStream (s.examine b c a).1)
    | _ => none
  | .recognised a =>
    match s.task with
    | .recognising c =>
      some ((w.pass c.cursor (s.acceptTruncate b c a).2).withStream (s.acceptTruncate b c a).1)
    | _ => none
  | .timer =>
    match s.timer with
    | some _ => some (w.withStream { s.clearTimer with timedFlushes := s.timedFlushes + 1 })
    | none => none
  | .timedFlush =>
    match s.task, s.timedFlushes with
    | .idle, n + 1 => some (w.withStream ({ s with timedFlushes := n }).flushAndFinish)
    | _, _ => none
  | .flush =>
    match s.task, s.inflight with
    | .flushing next, none => some (w.withStream (s.takeBatch.afterFlush b next))
    | _, _ => none
  | .drained =>
    match s.task, s.inflight with
    | .draining (.notice cursor), none =>
      some (w.withStream (s.goto (if s.halted.isSome then .idle else .noticing cursor 0)))
    | .draining (.halt status), none => some (w.withStream ((s.halt status).goto .idle))
    | _, _ => none
  | .noticed recorded written acked =>
    match s.task with
    | .noticing cursor tries =>
      if s.halted.isSome then some (w.withStream (s.goto .idle))
      else if recorded && written then some (w.persist (s.goto .idle) (s.seq + 1) cursor acked)
      else if tries + 1 < settleAttempts then
        some (w.withStream (s.goto (.noticing cursor (tries + 1))))
      else some (w.withStream ((s.halt .failed).goto .idle))
    | _ => none
  | .fatal =>
    match s.task with
    | .idle =>
      some (w.withStream (if s.halted.isSome then s else s.startFlush b (.halt .failed)))
    | _ => none
  | .attempted outcome =>
    match s.inflight with
    | some d =>
      match d.stage, outcome with
      | .attempting, .success =>
        some { w with
          dest := w.dest ++ [{ op := d.op, items := d.items }]
          stream := some (s.deliver (some (d.at (.settling .success 0)))) }
      | .attempting, .failed error targets =>
        some (w.withStream (s.deliver (some (d.at (.settling (.failed error targets) 0)))))
      | _, _ => none
    | none => none
  | .work a =>
    match s.inflight with
    | some d =>
      match d.stage with
      | .settling outcome tries =>
        if s.halted.isSome then some (w.withStream (s.deliver none))
        else
          match runWork b w s d outcome a with
          | (w, s, .threw) => some (w.withStream (settleThrew s d outcome tries))
          | (w, s, .stopped) => some (w.withStream (s.deliver none))
          | (w, s, .next seq) =>
            some (w.withStream (s.deliver (some (d.at (.checkpointing outcome seq tries)))))
      | _ => none
    | none => none
  | .checkpoint written acked =>
    match s.inflight with
    | some d =>
      match d.stage with
      | .checkpointing outcome nextSeq tries =>
        if s.halted.isSome then some (w.withStream (s.deliver none))
        else if written then some (w.persist (s.deliver none) nextSeq d.reach acked)
        else some (w.withStream (settleThrew s d outcome tries))
      | _ => none
    | none => none
  | .reconnect n => if n ≤ w.next then some { w with next := n } else none
  | .crash => some { w with stream := none }
  | .restart n =>
    match s.task, s.inflight with
    | .idle, none => if s.halted.isSome then reopen b src w n else none
    | _, _ => none

/-- One event. While the process is down, all that can happen is a start. -/
def step (b : Bridge γ R Sig) (src : List (StreamItem γ R)) (w : World γ R Sig) (e : Event R) :
    Option (World γ R Sig) :=
  match w.stream with
  | some s => running b src w s e
  | none =>
    match e with
    | .restart n => reopen b src w n
    | _ => none

end World

end Code

end Syncle.Cdc
