import Syncle.Cdc.Stream
import Syncle.Jobs.Lifecycle

/-!
# The runs of one replay job (`execute`, `flush`, `executeResend`)

A replay reads its source from the job's position on, gathers the rows into batches, and delivers and
records one batch after another. A batch is identified by a number, `floor(startIndex / batchSize)`:
a batch whose number is among the settled ones is passed over, and a delivery recorded again under its
number keeps the place it was first recorded at.

The source does not change, so a row is its place in the order it is read in. One operation happens
at a time here (`Lifecycle` interleaves them): what a user does to the job while it is not being
worked on, and what the worker does, await by await. A crash can fall between any two of them.
-/

namespace Syncle.Jobs

open Lib
open Cdc (OnError)

/-! ## The source -/

/-- How a source is read. -/
structure Reading where
  /-- the number of its rows -/
  rows : Nat
  /-- `order.total`: what the source says of it -/
  total : Option Nat
  /-- do rows come with a checkpoint? -/
  keyed : Bool
  /-- the first row that is read, from the job's offset and its checkpoint -/
  place : Nat → Option Nat → Nat

namespace Reading

/-- By OFFSET: a table nothing identifies the rows of, a query. -/
def byOffset (rows : Nat) (total : Option Nat) : Reading where
  rows := rows
  total := total
  keyed := false
  place offset _ := offset

/-- By `key > last`. The checkpoint is the key of the last row, stored as JSON: `after` is the first
row the engine answers with when it is given the stored key of a row. -/
def byKeyset (rows : Nat) (total : Option Nat) (after : Nat → Nat) : Reading where
  rows := rows
  total := total
  keyed := true
  place offset last :=
    if offset = 0 then 0
    else
      match last with
      | some row => after row
      -- the key of the row before it, sought by offset
      | none => offset

/-- By the engine's own cursor. The checkpoint of a row is the cursor of its page: the page is read
again. -/
def byCursor (rows : Nat) (total : Option Nat) (pageStart : Nat → Nat) : Reading where
  rows := rows
  total := total
  keyed := true
  place _ last :=
    match last with
    | some row => pageStart row
    | none => 0

end Reading

/-! ## What is recorded -/

inductive DeliveryStatus where
  | success | failed | skipped
  deriving DecidableEq

/-- A recorded delivery. `first` and `count` are the rows of the source that it stands for: the ones
last sent under its number, or the ones that were skipped. -/
structure BridgeDelivery where
  sequence : Nat
  rowIndex : Nat
  rowCount : Nat
  status : DeliveryStatus
  first : Nat
  count : Nat
  deriving DecidableEq

namespace BridgeDelivery

/-- Is the row one of those it stands for? -/
def holds (d : BridgeDelivery) (row : Nat) : Prop :=
  d.first ≤ row ∧ row < d.first + d.count

instance (d : BridgeDelivery) (row : Nat) : Decidable (d.holds row) :=
  inferInstanceAs (Decidable (_ ∧ _))

end BridgeDelivery

/-- `recordDelivery`'s upsert. A delivery that is there already keeps its `rowIndex` and its
`rowCount`. -/
def recordDelivery (ds : List BridgeDelivery) (new : BridgeDelivery) : List BridgeDelivery :=
  if ds.any (fun d => d.sequence = new.sequence) then
    ds.map fun d =>
      if d.sequence = new.sequence then { new with rowIndex := d.rowIndex, rowCount := d.rowCount }
      else d
  else ds ++ [new]

/-- `settledSequences` -/
def settledSequences (ds : List BridgeDelivery) : List Nat :=
  (ds.filter fun d => d.status ≠ .failed).map (·.sequence)

/-- `skippedSequences` -/
def skippedSequences (ds : List BridgeDelivery) : List Nat :=
  (ds.filter fun d => d.status = .skipped).map (·.sequence)

/-- Is there a failed delivery left? -/
def anyFailed (ds : List BridgeDelivery) : Bool :=
  ds.any fun d => d.status = .failed

/-! ## The job -/

/-- What the runs read of the bridge's configuration. -/
structure Config where
  batchSize : Nat
  onError : OnError
  deriving DecidableEq

structure Job where
  status : BridgeJobStatus
  cursorOffset : Nat
  /-- `cursorJson`: the row that was checkpointed -/
  keyset : Option Nat
  /-- `cursorJson`: the source has been read to the end -/
  streamed : Bool
  /-- `configSnapshotJson` -/
  snapshot : Config
  totalCount : Option Nat
  deliveries : List BridgeDelivery
  /-- the mode of its queue entry is `resend` -/
  resend : Bool
  deriving DecidableEq

/-- Where `execute` stands. `moving`: a full batch has been flushed, and the cursor is about to be
moved past it. -/
inductive Stage where
  | reading
  /-- about to ask whether the batch has been settled -/
  | flushing (last : Bool)
  | sending (last : Bool)
  | moving (stop : Bool)
  /-- onError=abort: about to finalize the job as failed -/
  | stopping
  /-- the source has been read to its end -/
  | ended
  | streamed
  deriving DecidableEq

structure Execution where
  config : Config
  /-- the numbers not to be sent -/
  done : List Nat
  /-- `bufferStart`, and the row of the source that the buffer starts with -/
  start : Nat
  first : Nat
  buffered : Nat
  stage : Stage
  deriving DecidableEq

/-- `Math.floor(startIndex / batchSize)` -/
def Execution.sequence (x : Execution) : Nat :=
  x.start / x.config.batchSize

inductive Worker where
  | idle
  | executing (x : Execution)
  /-- `executeResend`: the failed deliveries it has still to send -/
  | resending (rest : List Nat)
  deriving DecidableEq

structure Replay where
  /-- the bridge as it is now -/
  config : Config
  job : Job
  worker : Worker
  deriving DecidableEq

/-- A run before its first row: its draft, or just created. -/
structure Replay.Fresh (w : Replay) : Prop where
  status : w.job.status = .draft ∨ w.job.status = .queued
  cursorOffset : w.job.cursorOffset = 0
  keyset : w.job.keyset = none
  streamed : w.job.streamed = false
  deliveries : w.job.deliveries = []
  batchSize : 0 < w.job.snapshot.batchSize ∧ 0 < w.config.batchSize
  resend : w.job.resend = false
  worker : w.worker = .idle

/-! ## Steps -/

/-- `skipDeliveries`' row for a number. -/
def skipped (job : Job) (sequence : Nat) : BridgeDelivery :=
  let batchSize := max 1 job.snapshot.batchSize
  -- the last batch may be smaller
  let rowCount :=
    match job.totalCount with
    | some total =>
      if sequence + 1 = (total + batchSize - 1) / batchSize then total - sequence * batchSize
      else batchSize
    | none => batchSize
  { sequence := sequence, rowIndex := sequence * batchSize, rowCount := rowCount, status := .skipped,
    first := sequence * batchSize, count := rowCount }

/-- `skipDeliveries`: only numbers that have no delivery yet. -/
def skipDeliveries (job : Job) (sequences : List Nat) : Job :=
  let fresh := sequences.dedup.filter fun s => !job.deliveries.any fun d => d.sequence = s
  { job with deliveries := job.deliveries ++ fresh.map (skipped job) }

/-- `execute`, up to its first row. -/
def Job.execution (rd : Reading) (job : Job) : Execution where
  config := job.snapshot
  done := settledSequences job.deliveries
  start := job.cursorOffset
  first := rd.place job.cursorOffset job.keyset
  buffered := 0
  stage := .reading

/-- The failed deliveries a resend takes up. -/
def resendable (ds : List BridgeDelivery) : List Nat :=
  (((ds.filter fun d => d.status = .failed).map (·.sequence)).mergeSort).take 2000

/-- A failed delivery is sent again from what was captured of it. -/
def resent (ds : List BridgeDelivery) (sequence : Nat) (ok : Bool) : List BridgeDelivery :=
  ds.map fun d =>
    if d.sequence = sequence then { d with status := if ok then .success else .failed } else d

inductive Activity where
  /-- the bridge is saved with another configuration -/
  | edit (config : Config)
  /-- `prepare`, of the draft that is there -/
  | refreshDraft
  | startDraft
  /-- `resume`, also as `start` of a bridge whose last run stopped -/
  | resume
  | retryFailed
  | resendFailed
  | retryDelivery (sequence : Nat) (ok : Bool)
  | skip (sequences : List Nat)
  /-- `cancel` of a job that no worker has taken -/
  | cancelQueued
  /-- `process`; `lost`: after a restart, of a job whose entry is gone from the queue -/
  | process (lost : Bool)
  | read
  /-- `stopRequested` looks for new skips -/
  | poll
  | endOfSource
  | flush
  | deliver (ok : Bool)
  | setCursor
  | stop
  | markStreamed
  | complete
  | resendOne (ok : Bool)
  | resendEnd
  /-- a cancel takes effect -/
  | cancel
  /-- an error ends the run -/
  | fail
  | crash
  deriving DecidableEq

/-- Where `execute` goes on after a flush. -/
def Execution.flushed (x : Execution) (last stop : Bool) : Execution :=
  { x with stage := if last then (if stop then .stopping else .ended) else .moving stop }

/-- The record of a batch that has been sent. -/
def Execution.delivery (x : Execution) (ok : Bool) : BridgeDelivery where
  sequence := x.sequence
  rowIndex := x.start
  rowCount := x.buffered
  status := if ok then .success else .failed
  first := x.first
  count := x.buffered

/-- What `execute` does next. -/
def Execution.run (rd : Reading) (w : Replay) (x : Execution) : Activity → Option Replay
  | .read =>
    if x.stage = .reading ∧ x.first + x.buffered < rd.rows then
      let x := { x with buffered := x.buffered + 1 }
      some { w with worker := .executing { x with
        stage := if x.buffered = x.config.batchSize then .flushing false else .reading } }
    else none
  | .poll =>
    if x.stage = .reading ∨ x.stage = .ended then
      some { w with worker := .executing { x with
        done := x.done ++ skippedSequences w.job.deliveries } }
    else none
  | .endOfSource =>
    if x.stage = .reading ∧ rd.rows ≤ x.first + x.buffered then
      some { w with worker := .executing { x with
        stage := if x.buffered = 0 then .ended else .flushing true } }
    else none
  | .flush =>
    match x.stage with
    | .flushing last =>
      some { w with worker := .executing (
        if x.done.contains x.sequence then x.flushed last false
        else { x with stage := .sending last }) }
    | _ => none
  | .deliver ok =>
    match x.stage with
    | .sending last =>
      some { w with
        job := { w.job with deliveries := recordDelivery w.job.deliveries (x.delivery ok) },
        worker := .executing (x.flushed last (!ok && x.config.onError = .abort)) }
    | _ => none
  | .setCursor =>
    match x.stage with
    | .moving stop =>
      some { w with
        job := { w.job with
          cursorOffset := x.start + x.buffered,
          -- a checkpoint is written over what `cursorJson` held
          keyset := if rd.keyed then some (x.first + x.buffered - 1) else w.job.keyset,
          streamed := if rd.keyed then false else w.job.streamed },
        worker := .executing { x with
          start := x.start + x.buffered, first := x.first + x.buffered, buffered := 0,
          stage := if stop then .stopping else .reading } }
    | _ => none
  | .stop =>
    if x.stage = .stopping then
      some { w with job := { w.job with status := .failed }, worker := .idle }
    else none
  | .markStreamed =>
    if x.stage = .ended then
      some { w with
        job := { w.job with streamed := true }, worker := .executing { x with stage := .streamed } }
    else none
  | .complete =>
    if x.stage = .streamed then
      some { w with job := { w.job with status := .completed }, worker := .idle }
    else none
  | _ => none

/-- What `executeResend` does next. -/
def resending (rd : Reading) (w : Replay) : List Nat → Activity → Option Replay
  | q :: rest, .resendOne ok =>
    some { w with
      job := { w.job with deliveries := resent w.job.deliveries q ok }, worker := .resending rest }
  | [], .resendEnd =>
    if anyFailed w.job.deliveries then
      some { w with job := { w.job with status := .failed }, worker := .idle }
    else if w.job.streamed then
      some { w with job := { w.job with status := .completed }, worker := .idle }
    else
      -- 'continue': with the bridge as it is now, from where it stopped
      let job := { w.job with snapshot := w.config, status := .running }
      some { w with job := job, worker := .executing (job.execution rd) }
  | _, _ => none

/-- `status: 'queued'`, with the bridge's current configuration. -/
def Job.queued (job : Job) (config : Config) : Job :=
  { job with status := .queued, snapshot := config, resend := false }

/-- What is done to a job that no worker is at. -/
def idleStep (rd : Reading) (w : Replay) : Activity → Option Replay
  | .refreshDraft =>
    if w.job.status = .draft then
      some { w with job := { w.job with snapshot := w.config, totalCount := rd.total } }
    else none
  | .startDraft =>
    if w.job.status = .draft then some { w with job := { w.job with status := .queued } } else none
  | .resume =>
    if w.job.status.resumable then some { w with job := w.job.queued w.config } else none
  | .retryFailed =>
    if w.job.status.terminal ∧ anyFailed w.job.deliveries then
      some { w with job :=
        { w.job.queued w.config with cursorOffset := 0, keyset := none, streamed := false } }
    else none
  | .resendFailed =>
    if !w.job.status.active ∧ anyFailed w.job.deliveries then
      some { w with job := { w.job with status := .queued, resend := true } }
    else none
  | .retryDelivery q ok =>
    if !w.job.status.active ∧
        w.job.deliveries.any (fun d => d.sequence = q && decide (d.status = .failed)) then
      let job := { w.job with deliveries := resent w.job.deliveries q ok }
      some { w with job :=
        if !anyFailed job.deliveries ∧ job.status = .failed then
          if job.streamed then { job with status := .completed } else job.queued w.config
        else job }
    else none
  | .cancelQueued =>
    if w.job.status = .queued then some { w with job := { w.job with status := .canceled } }
    else none
  | .process lost =>
    if w.job.status = .queued ∨ w.job.status = .running then
      if w.job.resend && !lost then
        some { w with
          job := { w.job with status := .running },
          worker := .resending (resendable w.job.deliveries) }
      else
        some { w with
          job := { w.job with status := .running, totalCount := rd.total },
          worker := .executing (w.job.execution rd) }
    else none
  | _ => none

/-- What the worker, or a user while there is none, does next. -/
def Replay.next (rd : Reading) (w : Replay) (e : Activity) : Option Replay :=
  match w.worker with
  | .executing x => x.run rd w e
  | .resending rest => resending rd w rest e
  | .idle => idleStep rd w e

def replayStep (rd : Reading) (w : Replay) (e : Activity) : Option Replay :=
  match e with
  | .edit config => if 0 < config.batchSize then some { w with config := config } else none
  | .skip sequences => some { w with job := skipDeliveries w.job sequences }
  | .crash => some { w with worker := .idle }
  | .cancel =>
    if w.worker = .idle then none
    else some { w with job := { w.job with status := .canceled }, worker := .idle }
  | .fail =>
    if w.worker = .idle then none
    else some { w with job := { w.job with status := .failed }, worker := .idle }
  | e => w.next rd e

/-! ## What is recorded, read back -/

theorem mem_recordDelivery {ds : List BridgeDelivery} {new d : BridgeDelivery}
    (mem : d ∈ recordDelivery ds new) :
    d ∈ ds ∧ d.sequence ≠ new.sequence ∨
      d = new ∧ (∀ d' ∈ ds, d'.sequence ≠ new.sequence) ∨
      ∃ d' ∈ ds, d'.sequence = new.sequence ∧
        d = { new with rowIndex := d'.rowIndex, rowCount := d'.rowCount } := by
  unfold recordDelivery at mem
  split at mem
  · obtain ⟨d', mem', rfl⟩ := List.mem_map.mp mem
    split
    · next same => exact .inr (.inr ⟨d', mem', same, rfl⟩)
    · next other => exact .inl ⟨mem', other⟩
  · next none_ =>
    have never : ∀ d' ∈ ds, d'.sequence ≠ new.sequence := by simpa using none_
    rcases List.mem_append.mp mem with mem | mem
    · exact .inl ⟨mem, never d mem⟩
    · exact .inr (.inl ⟨List.mem_singleton.mp mem, never⟩)

/-- What is recorded under another number stays. -/
theorem mem_recordDelivery_of_ne {ds : List BridgeDelivery} {new d : BridgeDelivery} (mem : d ∈ ds)
    (other : d.sequence ≠ new.sequence) : d ∈ recordDelivery ds new := by
  unfold recordDelivery
  split
  · exact List.mem_map.mpr ⟨d, mem, by simp [other]⟩
  · exact List.mem_append_left _ mem

/-- What was sent is recorded under its number. -/
theorem recordDelivery_has (ds : List BridgeDelivery) (new : BridgeDelivery) :
    ∃ d ∈ recordDelivery ds new, d.sequence = new.sequence ∧ d.first = new.first ∧
      d.count = new.count ∧ d.status = new.status := by
  unfold recordDelivery
  split
  · next some_ =>
    obtain ⟨d, mem, same⟩ := List.any_eq_true.mp some_
    exact ⟨_, List.mem_map_of_mem mem, by simp [of_decide_eq_true same]⟩
  · exact ⟨new, by simp, rfl, rfl, rfl, rfl⟩

theorem mem_settledSequences {ds : List BridgeDelivery} {q : Nat} :
    q ∈ settledSequences ds ↔ ∃ d ∈ ds, d.sequence = q ∧ d.status ≠ .failed := by
  simp [settledSequences, and_assoc, and_comm]

theorem mem_skippedSequences {ds : List BridgeDelivery} {q : Nat} :
    q ∈ skippedSequences ds ↔ ∃ d ∈ ds, d.sequence = q ∧ d.status = .skipped := by
  simp [skippedSequences, and_assoc, and_comm]

/-- A resend changes how a delivery went, and nothing else of it. -/
theorem mem_resent {ds : List BridgeDelivery} {q : Nat} {ok : Bool} {d : BridgeDelivery}
    (mem : d ∈ resent ds q ok) :
    ∃ d' ∈ ds, d.sequence = d'.sequence ∧ d.rowIndex = d'.rowIndex ∧ d.first = d'.first ∧
      d.count = d'.count := by
  obtain ⟨d', mem', rfl⟩ := List.mem_map.mp mem
  refine ⟨d', mem', ?_⟩
  split
  · exact ⟨rfl, rfl, rfl, rfl⟩
  · exact ⟨rfl, rfl, rfl, rfl⟩

theorem resent_has {ds : List BridgeDelivery} (q : Nat) (ok : Bool) {d : BridgeDelivery}
    (mem : d ∈ ds) :
    ∃ d' ∈ resent ds q ok, d'.sequence = d.sequence ∧ d'.first = d.first ∧ d'.count = d.count := by
  refine ⟨_, List.mem_map_of_mem mem, ?_⟩
  split
  · exact ⟨rfl, rfl, rfl⟩
  · exact ⟨rfl, rfl, rfl⟩

/-- What a step does to the records. -/
inductive RecordsStep (w : Replay) (e : Activity) : List BridgeDelivery → Prop
  | same : RecordsStep w e w.job.deliveries
  | deliver {x : Execution} {last ok : Bool} (at_ : w.worker = .executing x)
      (stage : x.stage = .sending last) (event : e = .deliver ok) :
      RecordsStep w e (recordDelivery w.job.deliveries (x.delivery ok))
  | resent (q : Nat) (ok : Bool) (chosen : (∃ rest, w.worker = .resending (q :: rest)) ∨
        ∃ d ∈ w.job.deliveries, d.sequence = q ∧ d.status = .failed) :
      RecordsStep w e (resent w.job.deliveries q ok)
  | skip {sequences : List Nat} (event : e = .skip sequences) :
      RecordsStep w e (skipDeliveries w.job sequences).deliveries

/-- What a step does to the cursor and the checkpoint. -/
inductive CursorStep (rd : Reading) (w : Replay) : Nat → Option Nat → Prop
  | same : CursorStep rd w w.job.cursorOffset w.job.keyset
  | reset : CursorStep rd w 0 none
  | set {x : Execution} {stop : Bool} (at_ : w.worker = .executing x) (stage : x.stage = .moving stop) :
      CursorStep rd w (x.start + x.buffered)
        (if rd.keyed then some (x.first + x.buffered - 1) else w.job.keyset)

/-- **What a step does to a job.** -/
structure JobStep (rd : Reading) (w : Replay) (e : Activity) (w' : Replay) : Prop where
  records : RecordsStep w e w'.job.deliveries
  total : w'.job.totalCount = w.job.totalCount ∨ w'.job.totalCount = rd.total
  cursor : CursorStep rd w w'.job.cursorOffset w'.job.keyset

theorem replayStep_job {rd : Reading} {w w' : Replay} {e : Activity}
    (move : replayStep rd w e = some w') : JobStep rd w e w' := by
  have run {x : Execution} (at_ : w.worker = .executing x) (move : x.run rd w e = some w') :
      JobStep rd w e w' := by
    cases e with
    | deliver ok =>
      simp only [Execution.run] at move
      split at move
      · next last stage =>
        obtain rfl := Option.some.inj move
        exact ⟨.deliver at_ stage rfl, .inl rfl, .same⟩
      · cases move
    | setCursor =>
      simp only [Execution.run] at move
      split at move
      · next stop stage =>
        obtain rfl := Option.some.inj move
        exact ⟨.same, .inl rfl, .set at_ stage⟩
      · cases move
    | read | poll | endOfSource | flush | stop | markStreamed | complete =>
      simp only [Execution.run] at move
      split at move
      · obtain rfl := Option.some.inj move
        exact ⟨.same, .inl rfl, .same⟩
      · cases move
    | _ => cases move
  have resend {rest : List Nat} (at_ : w.worker = .resending rest)
      (move : resending rd w rest e = some w') : JobStep rd w e w' := by
    cases e with
    | resendOne ok =>
      cases rest with
      | nil => cases move
      | cons q rest =>
        obtain rfl := Option.some.inj move
        exact ⟨.resent q ok (.inl ⟨rest, at_⟩), .inl rfl, .same⟩
    | resendEnd =>
      cases rest with
      | cons q rest => cases move
      | nil =>
        simp only [resending] at move
        split at move
        · obtain rfl := Option.some.inj move
          exact ⟨.same, .inl rfl, .same⟩
        · split at move
          · obtain rfl := Option.some.inj move
            exact ⟨.same, .inl rfl, .same⟩
          · obtain rfl := Option.some.inj move
            exact ⟨.same, .inl rfl, .same⟩
    | _ => cases rest <;> cases move
  have idle (at_ : w.worker = .idle) (move : idleStep rd w e = some w') :
      JobStep rd w e w' := by
    cases e with
    | refreshDraft =>
      simp only [idleStep] at move
      split at move
      · obtain rfl := Option.some.inj move
        exact ⟨.same, .inr rfl, .same⟩
      · cases move
    | retryFailed =>
      simp only [idleStep] at move
      split at move
      · obtain rfl := Option.some.inj move
        exact ⟨.same, .inl rfl, .reset⟩
      · cases move
    | startDraft | resume | resendFailed | cancelQueued =>
      simp only [idleStep] at move
      split at move
      · obtain rfl := Option.some.inj move
        exact ⟨.same, .inl rfl, .same⟩
      · cases move
    | retryDelivery q ok =>
      simp only [idleStep] at move
      split at move
      · next failed =>
        obtain rfl := Option.some.inj move
        have chosen : ∃ d ∈ w.job.deliveries, d.sequence = q ∧ d.status = .failed := by
          simpa using failed.2
        split
        · split
          · exact ⟨.resent q ok (.inr chosen), .inl rfl, .same⟩
          · exact ⟨.resent q ok (.inr chosen), .inl rfl, .same⟩
        · exact ⟨.resent q ok (.inr chosen), .inl rfl, .same⟩
      · cases move
    | process lost =>
      simp only [idleStep] at move
      split at move
      · split at move
        · obtain rfl := Option.some.inj move
          exact ⟨.same, .inl rfl, .same⟩
        · obtain rfl := Option.some.inj move
          exact ⟨.same, .inr rfl, .same⟩
      · cases move
    | _ => cases move
  have next (move : w.next rd e = some w') : JobStep rd w e w' := by
    unfold Replay.next at move
    split at move
    · next at_ => exact run at_ move
    · next at_ => exact resend at_ move
    · next at_ => exact idle at_ move
  cases e with
  | edit config | cancel | fail =>
    simp only [replayStep] at move
    split at move
    · first | cases move; done | (obtain rfl := Option.some.inj move; exact ⟨.same, .inl rfl, .same⟩)
    · first | cases move; done | (obtain rfl := Option.some.inj move; exact ⟨.same, .inl rfl, .same⟩)
  | skip sequences =>
    obtain rfl := Option.some.inj move
    exact ⟨.skip rfl, .inl rfl, .same⟩
  | crash =>
    obtain rfl := Option.some.inj move
    exact ⟨.same, .inl rfl, .same⟩
  | _ => exact next move

end Syncle.Jobs
