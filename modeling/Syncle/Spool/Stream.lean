import Syncle.Cdc.Moves
import Syncle.Spool.Entry

/-!
# The live pipeline with the spool on

With the spool on, the chain takes and gathers changes as it always does, but a batch is handed to
the spool (`spoolBatch`) and the persisted cursor moves once it is stored there. A consumer beside
the reader takes runs off the spool's head and writes them to the destination (`deliverSpooled`),
by the same `attempt`, `settle` and `handleFailedBatch` as the direct path. Which of the two ways a
bridge goes is decided at each start (`beginStream`).

So the chain's steps, and every step of the direct path, are those of `Cdc.World`; what is new are
the steps of `spoolBatch` and of the consumer. `deliverableRuns` cuts a window into consecutive runs
of one operation, a truncate or a notice alone; here a run is any such piece of the spool's head.

The consumer tells the sequence to carry on from in two writes: the run is trimmed from the spool,
and then `cursorOffset` is stored. A crash can fall between them.

`readable` says which rows come back out of an entry's text: an entry that does not is deleted when
it is read.
-/

namespace Syncle.Spooled

open Cdc Spool

variable {γ R Sig : Type*}

/-- An entry of the spool: a change as it was buffered, or a notice. -/
inductive Entry (γ R Sig : Type*) where
  | change (item : Buffered γ R Sig)
  | notice (cursor : γ)
  deriving DecidableEq

namespace Entry

def cursor : Entry γ R Sig → γ
  | change item => item.change.cursor
  | notice cursor => cursor

def op : Entry γ R Sig → SpoolOp
  | change item => .change item.change.op
  | notice _ => .notice

def item? : Entry γ R Sig → Option (Buffered γ R Sig)
  | change item => some item
  | notice _ => none

def changeOp? : Entry γ R Sig → Option CdcOperation
  | change item => some item.change.op
  | notice _ => none

/-- Does `decodeEntry` give the entry back? -/
def readable (readable : R → Bool) : Entry γ R Sig → Bool
  | change item => readable item.row
  | notice _ => true

end Entry

/-- What `deliverableRuns` may cut off the head: one operation, a truncate or a notice alone. -/
def runnable (run : List (Entry γ R Sig)) : Bool :=
  match run with
  | [] => false
  | e :: rest => rest.all (fun x => x.op = e.op) && (!alone e.op || rest.isEmpty)

/-- Where `spoolBatch` stands: `tries` appends have been refused, or the batch is in the spool and
the cursor is yet to be stored. -/
inductive Handing where
  | appending (tries : ℕ)
  | storing
  deriving DecidableEq

/-- Where `deliverSpooled` stands. -/
inductive Phase where
  | attempting
  | settling (outcome : Outcome) (tries : ℕ)
  | trimming (outcome : Outcome) (nextSeq : ℕ) (tries : ℕ)
  | storing (outcome : Outcome) (nextSeq : ℕ) (tries : ℕ)
  deriving DecidableEq

/-- One run on its way to the destination. -/
structure Job (γ R Sig : Type*) where
  run : List (Entry γ R Sig)
  d : Delivery γ R Sig
  phase : Phase
  trimmed : Bool
  deriving DecidableEq

inductive Consumer (γ R Sig : Type*) where
  | idle
  | busy (job : Job γ R Sig)
  /-- cutting a window has thrown, and nothing starts the loop again -/
  | stopped
  deriving DecidableEq

structure World (γ R Sig : Type*) where
  base : Cdc.World γ R Sig
  /-- `stream.spooled`, of the last start -/
  spooled : Bool
  handing : Handing
  /-- the entries waiting, oldest first -/
  spool : List (Entry γ R Sig)
  consumer : Consumer γ R Sig
  deriving DecidableEq

inductive Event (R : Type*) where
  /-- a step of the chain, or of the direct path -/
  | base (e : Cdc.Event R)
  /-- `append`: each command of the pipeline lands or is refused, and the replies may be lost -/
  | append (landed : List Bool) (answered : Bool)
  /-- `spoolBatch` stores the cursor -/
  | store (written acked : Bool)
  /-- the consumer reads its next window -/
  | read (count : ℕ)
  /-- it goes on to a run of the spool's first `n` entries -/
  | begin (n : ℕ)
  | attempted (outcome : Outcome)
  | work (a : Worked)
  | trim (o : WriteOutcome)
  /-- `cursorOffset` is stored -/
  | save (ok : Bool)
  /-- `deliverableRuns` throws -/
  | throw
  /-- a start, with the spool on or off; the provider hands over from item `n` on -/
  | restart (spooled : Bool) (n : ℕ)
  deriving DecidableEq

section Code

variable [DecidableEq Sig]

/-- What `spoolBatch` has been called with: the batch in flight, or a notice. -/
def handed (s : Cdc.Stream γ R Sig) : Option (List (Entry γ R Sig) × γ) :=
  match s.inflight, s.task with
  | some d, _ => some (d.items.map .change, d.reach)
  | none, .noticing cursor _ => some ([.notice cursor], cursor)
  | none, _ => none

/-- `spoolBatch` returns. -/
def handedOver (s : Cdc.Stream γ R Sig) : Cdc.Stream γ R Sig :=
  match s.inflight with
  | some _ => s.deliver none
  | none => s.goto .idle

/-- The commands of a pipeline that landed. -/
def landing (entries : List (Entry γ R Sig)) (landed : List Bool) : List (Entry γ R Sig) :=
  ((entries.zip landed).filter Prod.snd).map Prod.fst

/-- The run at the head, as a delivery. -/
def Job.start (run : List (Entry γ R Sig)) (reach : γ) (seq : ℕ) : Job γ R Sig :=
  let op := run.head?.bind Entry.changeOp?
  { run := run
    d := { items := run.filterMap Entry.item?, op := op, reach := reach, seq := seq,
           stage := .attempting }
    phase := if op.isSome then .attempting else .settling .nothing 0
    trimmed := false }

namespace World

def withStream (w : World γ R Sig) (s : Cdc.Stream γ R Sig) : World γ R Sig :=
  { w with base := w.base.withStream s }

def withBase (w : World γ R Sig) (base : Cdc.World γ R Sig) : World γ R Sig := { w with base := base }

def goesOn (w : World γ R Sig) (consumer : Consumer γ R Sig) : World γ R Sig :=
  { w with consumer := consumer }

/-- `spoolBatch` returns. -/
def handsOver (w : World γ R Sig) (s : Cdc.Stream γ R Sig) : World γ R Sig :=
  { w with base := w.base.withStream (handedOver s), handing := .appending 0 }

/-- One `append` of `spoolBatch`. -/
def append (w : World γ R Sig) (s : Cdc.Stream γ R Sig) (entries : List (Entry γ R Sig)) (reach : γ)
    (tries : ℕ) (landed : List Bool) (answered : Bool) : World γ R Sig :=
  let w := { w with spool := w.spool ++ landing entries landed }
  if landed.all id && (answered || entries.isEmpty) then
    { w with
      base := w.base.withStream { s with watermark := some reach }
      handing := .storing }
  else if tries + 1 < 3 then { w with handing := .appending (tries + 1) }
  else w.handsOver (s.halt .failed)

/-- The consumer's `settle`, where `work` has thrown once more. -/
def settleThrew (w : World γ R Sig) (s : Cdc.Stream γ R Sig) (job : Job γ R Sig)
    (outcome : Outcome) (tries : ℕ) : World γ R Sig :=
  if tries + 1 < settleAttempts then
    (w.withStream s).goesOn (.busy { job with phase := .settling outcome (tries + 1) })
  else (w.withStream (s.halt .failed)).goesOn .idle

/-- `trimThrough`: the run leaves the spool, if it has not yet. -/
def trimmed (w : World γ R Sig) (job : Job γ R Sig) : World γ R Sig :=
  { w with spool := if job.trimmed then w.spool else w.spool.drop job.run.length }

/-- `work`, short of `advance`: a notice is only recorded. -/
def runWork (b : Bridge γ R Sig) (w : World γ R Sig) (s : Cdc.Stream γ R Sig) (job : Job γ R Sig)
    (outcome : Outcome) (a : Worked) : Cdc.World γ R Sig × Cdc.Stream γ R Sig × Work :=
  match outcome with
  | .nothing => (w.base, s, if a.recorded then .next (job.d.seq + 1) else .threw)
  | outcome => Cdc.runWork b w.base s job.d outcome a

/-- One uninterrupted stretch of the code, with the spool on. -/
def spooling (b : Bridge γ R Sig) (readable : R → Bool) (src : List (StreamItem γ R))
    (w : World γ R Sig) (s : Cdc.Stream γ R Sig) : Event R → Option (World γ R Sig)
  | .base e =>
    if e.ofChain then
      (Cdc.World.step b src w.base e).map fun base =>
        if base.stream.isNone then
          { w with base := base, handing := .appending 0, consumer := .idle }
        else { w with base := base }
    else none
  | .append landed answered =>
    match w.handing, handed s with
    | .appending tries, some (entries, reach) =>
      -- a stop is looked for once, before the first try
      if s.halted.isSome ∧ tries = 0 then some (w.handsOver s)
      else if landed.length = entries.length then some (w.append s entries reach tries landed answered)
      else none
    | _, _ => none
  | .store written acked =>
    match w.handing, handed s with
    | .storing, some (_, reach) =>
      if written then
        some ((w.withBase { w.base with
          cursorJson := some reach
          acked := if acked then some reach else w.base.acked }).handsOver s)
      else some (w.handsOver s)
    | _, _ => none
  | .read count =>
    match w.consumer with
    | .idle =>
      some { w with
        spool := (w.spool.take count).filter (Entry.readable readable) ++ w.spool.drop count }
    | _ => none
  | .begin n =>
    match w.consumer, s.halted, (w.spool.take n).getLast? with
    | .idle, none, some last =>
      if runnable (w.spool.take n) && (w.spool.take n).all (Entry.readable readable) then
        some (w.goesOn (.busy (Job.start (w.spool.take n) last.cursor s.seq)))
      else none
    | _, _, _ => none
  | .attempted outcome =>
    match w.consumer with
    | .busy job =>
      match job.phase, outcome with
      | .attempting, .success =>
        some ((w.withBase { w.base with
          dest := w.base.dest ++ [{ op := job.d.op, items := job.d.items }] }).goesOn
            (.busy { job with phase := .settling .success 0 }))
      | .attempting, .failed error targets =>
        some (w.goesOn (.busy { job with phase := .settling (.failed error targets) 0 }))
      | _, _ => none
    | _ => none
  | .work a =>
    match w.consumer with
    | .busy job =>
      match job.phase with
      | .settling outcome tries =>
        if s.halted.isSome then some (w.goesOn .idle)
        else
          match w.runWork b s job outcome a with
          | (base, s, .threw) => some ((w.withBase base).settleThrew s job outcome tries)
          | (base, s, .stopped) => some (((w.withBase base).withStream s).goesOn .idle)
          | (base, s, .next seq) =>
            some (((w.withBase base).withStream s).goesOn
              (.busy { job with phase := .trimming outcome seq tries }))
      | _ => none
    | _ => none
  | .trim o =>
    match w.consumer with
    | .busy job =>
      match job.phase with
      | .trimming outcome nextSeq tries =>
        match o with
        | .ok =>
          some ((w.trimmed job).goesOn
            (.busy { job with phase := .storing outcome nextSeq tries, trimmed := true }))
        | .refused => some (w.settleThrew s job outcome tries)
        | .unseen =>
          some ((w.trimmed job).settleThrew s { job with trimmed := true } outcome tries)
      | _ => none
    | _ => none
  | .save ok =>
    match w.consumer with
    | .busy job =>
      match job.phase with
      | .storing outcome nextSeq tries =>
        if ok then
          some (((w.withBase { w.base with cursorOffset := nextSeq }).withStream
            { s with seq := nextSeq }).goesOn .idle)
        else some (w.settleThrew s job outcome tries)
      | _ => none
    | _ => none
  | .throw =>
    match w.consumer with
    | .idle => some (w.goesOn .stopped)
    | _ => none
  | .restart _ _ => none

def Consumer.isBusy : Consumer γ R Sig → Bool
  | .busy _ => true
  | _ => false

/-- `beginStream`: the mode is the configuration's at this start. What is in the spool stays. -/
def start (b : Bridge γ R Sig) (src : List (StreamItem γ R)) (w : World γ R Sig) (spooled : Bool)
    (n : ℕ) : Option (World γ R Sig) :=
  if Consumer.isBusy w.consumer then none
  else
    (Cdc.World.step b src w.base (.restart n)).map fun base =>
      { w with base := base, spooled := spooled, handing := .appending 0, consumer := .idle }

/-- One event. -/
def step (b : Bridge γ R Sig) (readable : R → Bool) (src : List (StreamItem γ R))
    (w : World γ R Sig) (e : Event R) : Option (World γ R Sig) :=
  match e with
  | .restart spooled n => w.start b src spooled n
  | e =>
    match w.base.stream with
    | none => none
    | some s =>
      if w.spooled then w.spooling b readable src s e
      else
        match e with
        | .base (.restart _) => none
        | .base e => (Cdc.World.step b src w.base e).map fun base => { w with base := base }
        | _ => none

/-- The bridge before its first run, started with the spool on or off. -/
def fresh (spooled : Bool) : World γ R Sig :=
  { base := Cdc.World.fresh, spooled := spooled, handing := .appending 0, spool := [],
    consumer := .idle }

end World

end Code

/-! ## What the spool promises -/

/-- The change waits in the spool. -/
def Waiting (w : World γ R Sig) (c : CdcChange γ R) : Prop :=
  ∃ i, Entry.change i ∈ w.spool ∧ i.change.op = c.op ∧ i.change.cursor = c.cursor

/-- The cursors of what an event hands to the destination. -/
def delivering (w : World γ R Sig) : Event R → List γ
  | .begin n => if w.spooled then (w.spool.take n).map Entry.cursor else []
  | .base (.attempted _) =>
    if w.spooled then []
    else
      match w.base.stream.bind Cdc.Stream.inflight with
      | some d => d.items.map fun i => i.change.cursor
      | none => []
  | _ => []

end Syncle.Spooled
