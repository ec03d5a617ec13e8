import Mathlib.Algebra.BigOperators.Group.List.Basic
import Syncle.Lib.OrderedMap

/-!
# A job's delivery records and its counters

`bridge-job.service.ts`: `recordDelivery`, `recordNotice` and `skipDeliveries`. A delivery is a row
per sequence of the job; the job's own row carries the counts of rows sent, failed and skipped. The
row is upserted by one set of rules, the counts are moved by another.
-/

namespace Syncle.Records

open Lib

inductive DeliveryStatus where
  | success | failed | skipped
  deriving DecidableEq

inductive CdcOperation where
  | insert | update | delete
  deriving DecidableEq

/-- A row of `bridge_deliveries`. The columns that hold JSON hold its text. -/
structure BridgeDelivery where
  rowIndex : Int
  rowCount : Nat
  status : DeliveryStatus
  httpStatus : Option Nat := none
  attempts : Nat := 0
  error : Option String := none
  rowKeysJson : Option String := none
  requestBody : Option String := none
  responseBody : Option String := none
  durationMs : Option Nat := none
  op : Option CdcOperation := none
  bodyTruncated : Bool := false
  succeededTargets : Option (List String) := none
  createdAt : Nat := 0
  deriving DecidableEq

/-- What a delivery came to. Of the last three, `none` is the outcome that does not know. -/
structure DeliveryOutcome where
  delivered : Bool
  httpStatus : Option Nat
  attempts : Nat
  error : Option String
  requestBody : Option String
  responseBody : Option String
  durationMs : Nat
  op : Option (Option CdcOperation) := none
  bodyTruncated : Option Bool := none
  succeededTargets : Option (Option (List String)) := none
  deriving DecidableEq

def DeliveryOutcome.status (o : DeliveryOutcome) : DeliveryStatus :=
  if o.delivered then .success else .failed

/-- Which delivery it was. -/
structure DeliveryMeta where
  sequence : Int
  rowIndex : Int
  rowCount : Nat
  rowKeysJson : Option String
  deriving DecidableEq

/-- A row of `bridge_jobs`, and the deliveries that hang off it. `snapshot` is the batch size the
configuration it was started with names: of an unreadable one, `none`. -/
structure BridgeJob where
  sentCount : Int := 0
  failedCount : Int := 0
  skippedCount : Int := 0
  totalCount : Option Nat := none
  snapshot : Option (Option Int) := none
  deliveries : OrderedMap Int BridgeDelivery := .empty

/-- What is done to the records of a job, and when. -/
inductive RecordEvent where
  | recordDelivery (d : DeliveryMeta) (o : DeliveryOutcome) (now : Nat)
  | recordNotice (sequence : Int) (message : String) (rowIndex : Int) (now : Nat)
  | skipDeliveries (sequences : List Int) (now : Nat)
  deriving DecidableEq

namespace BridgeJob

variable (job : BridgeJob)

def snapshotBatchSize : Nat :=
  match job.snapshot with
  | some size => (max 1 (size.getD 1)).toNat
  | none => 1

/-! ## `recordDelivery` -/

/-- The contribution of a row count under a status to the count of another. -/
def contribution (counted : DeliveryStatus) (status : DeliveryStatus) (rowCount : Nat) : Int :=
  if status = counted then rowCount else 0

/-- What the record there was had added to a count. -/
def contributed (counted : DeliveryStatus) (sequence : Int) : Int :=
  match job.deliveries.get? sequence with
  | some existing => contribution counted existing.status existing.rowCount
  | none => 0

/-- `succeededTargets` is kept only if it names any. -/
def keepTargets (targets : Option (List String)) : Option (List String) :=
  targets.bind fun names => if names = [] then none else some names

/-- The record of a first result. -/
def created (d : DeliveryMeta) (o : DeliveryOutcome) (now : Nat) : BridgeDelivery where
  rowIndex := d.rowIndex
  rowCount := d.rowCount
  status := o.status
  httpStatus := o.httpStatus
  attempts := o.attempts
  error := o.error
  rowKeysJson := d.rowKeysJson
  requestBody := o.requestBody
  responseBody := o.responseBody
  durationMs := some o.durationMs
  op := o.op.getD none
  bodyTruncated := o.bodyTruncated.getD false
  succeededTargets := (o.succeededTargets.map keepTargets).getD none
  createdAt := now

/-- The record of a later result: where it starts, how many rows it has and when it was created
stay as they were. -/
def updated (existing : BridgeDelivery) (d : DeliveryMeta) (o : DeliveryOutcome) : BridgeDelivery :=
  { existing with
    rowKeysJson := d.rowKeysJson
    status := o.status
    httpStatus := o.httpStatus
    attempts := o.attempts
    error := o.error
    requestBody := o.requestBody
    responseBody := o.responseBody
    durationMs := some o.durationMs
    op := o.op.getD existing.op
    bodyTruncated := o.bodyTruncated.getD existing.bodyTruncated
    succeededTargets := (o.succeededTargets.map keepTargets).getD existing.succeededTargets }

def recordDelivery (d : DeliveryMeta) (o : DeliveryOutcome) (now : Nat) : BridgeJob :=
  { job with
    sentCount := job.sentCount - job.contributed .success d.sequence +
      contribution .success o.status d.rowCount
    failedCount := job.failedCount - job.contributed .failed d.sequence +
      contribution .failed o.status d.rowCount
    skippedCount := job.skippedCount - job.contributed .skipped d.sequence
    deliveries := job.deliveries.set d.sequence
      (match job.deliveries.get? d.sequence with
      | some existing => updated existing d o
      | none => created d o now) }

/-! ## `recordNotice` -/

/-- A cell of no rows that says what happened; of a cell that is there, only the status and the
text change. -/
def recordNotice (sequence : Int) (message : String) (rowIndex : Int) (now : Nat) : BridgeJob :=
  { job with
    deliveries := job.deliveries.set sequence
      (match job.deliveries.get? sequence with
      | some existing => { existing with status := .skipped, error := some message }
      | none =>
        { rowIndex, rowCount := 0, status := .skipped, error := some message, createdAt := now }) }

/-! ## `skipDeliveries` -/

/-- The sequence of the last batch, where the total is known. -/
def lastSeq : Option Int :=
  job.totalCount.map fun total =>
    ((total + (job.snapshotBatchSize - 1)) / job.snapshotBatchSize : Nat) - 1

def rowCountFor (sequence : Int) : Int :=
  match job.totalCount, job.lastSeq with
  | some total, some last =>
    if sequence = last then total - last * job.snapshotBatchSize else job.snapshotBatchSize
  | _, _ => job.snapshotBatchSize

def fresh (sequences : List Int) : List Int :=
  sequences.eraseDups.filter fun s => s ∉ job.deliveries.keys

def skippedRecord (now : Nat) (sequence : Int) : BridgeDelivery where
  rowIndex := sequence * job.snapshotBatchSize
  rowCount := (job.rowCountFor sequence).toNat
  status := .skipped
  createdAt := now

def skipDeliveries (sequences : List Int) (now : Nat) : BridgeJob :=
  if job.fresh sequences = [] then job
  else
    { job with
      deliveries := job.deliveries.setAll ((job.fresh sequences).map fun s => (s, job.skippedRecord now s))
      skippedCount := job.skippedCount + ((job.fresh sequences).map job.rowCountFor).sum }

def step : RecordEvent → BridgeJob
  | .recordDelivery d o now => job.recordDelivery d o now
  | .recordNotice sequence message rowIndex now => job.recordNotice sequence message rowIndex now
  | .skipDeliveries sequences now => job.skipDeliveries sequences now

end BridgeJob

end Syncle.Records
