import Syncle.Lib.Pages
import Syncle.Records.Delivery

/-!
# The retention sweep

`retention.service.ts`: which delivery records are removed. A live bridge's job loses those that
are old, or more than it may have; a finished job loses all of them at once. What has its rows
still in the dead-letter queue is kept, as far as the sweep looks there.
-/

namespace Syncle.Records

open Lib

/-- A job as it is stored. Its deliveries hang off the row. -/
structure StoredJob (B : Type*) where
  bridgeId : B
  /-- the status is `queued`, `running` or `canceling` -/
  active : Bool
  startedAt : Nat
  finishedAt : Option Nat := none
  row : BridgeJob := {}
  prunedDeliveries : Nat := 0
  prunedBelowSequence : Option Int := none
  /-- history, which no code reads: the records there ever were, and the sequences removed -/
  recorded : Nat := 0
  removed : List Int := []

inductive LetterStatus where
  | pending | resolved | discarded
  deriving DecidableEq

structure DeadLetter (B J : Type*) where
  bridgeId : B
  jobId : J
  sequence : Int
  status : LetterStatus := .pending
  resolvedAt : Option Nat := none

/-- Of a bridge, whether its trigger is `cdc` or `watch`. -/
structure Store (B J : Type*) where
  bridges : OrderedMap B Bool
  jobs : OrderedMap J (StoredJob B)
  letters : List (DeadLetter B J)

/-- `deliveryRetentionDays` and `deliveryMaxPerJob` -/
structure RetentionSettings where
  days : Int
  cap : Int
  deriving DecidableEq

structure RetentionResult where
  expiredDeliveries : Nat := 0
  overflowDeliveries : Nat := 0
  deadLetters : Nat := 0
  jobsEmptied : Nat := 0
  limited : Bool := false
  deriving DecidableEq

/-- `BATCH` -/
def batchLimit : Nat := 2000

/-- `SWEEP_LIMIT` -/
def sweepLimit : Nat := 500000

/-- A sweep under way. -/
structure Sweep (B J : Type*) where
  store : Store B J
  budget : Int := sweepLimit
  result : RetentionResult := {}

variable {B J : Type*}

namespace StoredJob

variable (job : StoredJob B)

/-- The deliveries of the batch go, and the job's record of what is gone moves up. -/
def deleteBatch (batch : List Int) : StoredJob B :=
  { job with
    row := { job.row with deliveries := job.row.deliveries.filter fun s => s ∉ batch }
    prunedDeliveries := job.prunedDeliveries + batch.length
    prunedBelowSequence :=
      batch.getLast?.elim job.prunedBelowSequence fun last =>
        some (max (job.prunedBelowSequence.getD 0) (last + 1))
    removed := job.removed ++ batch }

/-- The sequences that match, in order. -/
def matching (p : Int → BridgeDelivery → Bool) : List Int :=
  inOrder id ((job.row.deliveries.entries.filter fun e => p e.1 e.2).map Prod.fst)

/-- In batches, oldest first, never past the budget. -/
def deleteWhere (p : Int → BridgeDelivery → Bool) : Nat → StoredJob B → Int → StoredJob B × Int
  | 0, job, budget => (job, budget)
  | batches + 1, job, budget =>
    if budget ≤ 0 then (job, budget)
    else
      let batch := (job.matching p).take (min batchLimit budget.toNat)
      if batch = [] then (job, budget)
      else
        let spent := (job.deleteBatch batch, budget - max batch.length 1)
        if batch.length < batchLimit then spent else deleteWhere p batches spent.1 spent.2

end StoredJob

namespace Store

variable [DecidableEq B] (s : Store B J)

/-- The job of each live bridge: its latest. -/
def liveJobIds : List J :=
  (s.bridges.entries.filter (·.2)).flatMap fun b =>
    ((inOrder (fun e : J × StoredJob B => OrderDual.toDual e.2.startedAt)
      (s.jobs.entries.filter fun e => e.2.bridgeId = b.1)).take 1).map Prod.fst

/-- The jobs that ended before the cutoff and have deliveries, the first to end first. -/
def finishedJobs (cutoff : Int) : List J :=
  (inOrder (fun e : J × StoredJob B => e.2.finishedAt.getD 0)
    (s.jobs.entries.filter fun e =>
      !e.2.active && e.2.finishedAt.any (fun t => (t : Int) < cutoff) &&
        decide (e.2.row.deliveries.entries ≠ []))).map Prod.fst

variable [DecidableEq J]

/-- Deliveries whose rows still wait in the dead-letter queue. -/
def parkedSequences (j : J) : List Int :=
  ((s.letters.filter fun l => l.jobId = j && l.status = .pending).map (·.sequence)).eraseDups

end Store

namespace Sweep

variable [DecidableEq J] (w : Sweep B J)

def deleteWhere (j : J) (p : Int → BridgeDelivery → Bool) : Sweep B J :=
  match w.store.jobs.get? j with
  | none => w
  | some job =>
    let spent := job.deleteWhere p (job.row.deliveries.size + 1) w.budget
    { w with
      store := { w.store with jobs := w.store.jobs.set j spent.1 }
      budget := spent.2 }

/-- How many deliveries went since. -/
def spentSince (before : Sweep B J) : Nat := (before.budget - w.budget).toNat

variable [DecidableEq B]

def emptyFinishedJobs (cutoff : Int) : Sweep B J :=
  let live := w.store.liveJobIds
  (w.store.finishedJobs cutoff).foldl (fun w j =>
    if j ∈ live then w -- handled row by row, below
    else if w.budget ≤ 0 then w
    else
      let w' := w.deleteWhere j fun _ _ => true
      { w' with
        result.expiredDeliveries := w'.result.expiredDeliveries + w'.spentSince w
        result.jobsEmptied := w'.result.jobsEmptied +
          if (w'.store.jobs.get? j).all (fun job => job.row.deliveries.entries = []) then 1 else 0 }) w

def expireLiveDeliveries (cutoff : Int) : Sweep B J :=
  w.store.liveJobIds.foldl (fun w j =>
    if w.budget ≤ 0 then w
    else
      let w' := w.deleteWhere j fun s d =>
        decide ((d.createdAt : Int) < cutoff) && decide (s ∉ w.store.parkedSequences j)
      { w' with result.expiredDeliveries := w'.result.expiredDeliveries + w'.spentSince w }) w

/-- Keep the newest `cap` deliveries of each live job. -/
def trimLiveJobs (cap : Nat) : Sweep B J :=
  w.store.liveJobIds.foldl (fun w j =>
    if w.budget ≤ 0 then w
    else
      match w.store.jobs.get? j with
      | none => w
      | some job =>
        if job.row.deliveries.size ≤ cap then w
        else
          match ((inOrder id job.row.deliveries.keys).reverse.drop (cap - 1)).head? with
          | none => w
          | some boundary =>
            let w' := w.deleteWhere j fun s _ =>
              decide (s < boundary) && decide (s ∉ w.store.parkedSequences j)
            { w' with result.overflowDeliveries := w'.result.overflowDeliveries + w'.spentSince w }) w

/-- Dead letters that were retried successfully or discarded: only the record is left. -/
def settledBefore (cutoff : Int) (l : DeadLetter B J) : Bool :=
  decide (l.status ≠ .pending) && l.resolvedAt.any fun t => (t : Int) < cutoff

/-- The store answers with the ones it likes first; that is the order they are in. -/
def expireDeadLetters (cutoff : Int) : Sweep B J :=
  let gone := min w.budget.toNat (w.store.letters.countP (settledBefore cutoff))
  let kept := w.store.letters.foldl (fun (acc : List (DeadLetter B J) × Nat) l =>
    if settledBefore cutoff l && decide (0 < acc.2) then (acc.1, acc.2 - 1) else (acc.1 ++ [l], acc.2))
    ([], gone)
  { w with
    store := { w.store with letters := kept.1 }
    budget := w.budget - gone
    result.deadLetters := w.result.deadLetters + gone }

/-- What is older than the cutoff goes. -/
def expire (cutoff : Int) : Sweep B J :=
  let w := w.emptyFinishedJobs cutoff
  let w := if 0 < w.budget then w.expireLiveDeliveries cutoff else w
  if 0 < w.budget then w.expireDeadLetters cutoff else w

/-- The end of what is kept. -/
def cutoff (settings : RetentionSettings) (now : Nat) : Int := now - settings.days * 86400000

/-- `run`: one pass. -/
def run (settings : RetentionSettings) (now : Nat) (store : Store B J) : Sweep B J :=
  let w : Sweep B J := { store := store }
  let w := if 0 < settings.days then w.expire (cutoff settings now) else w
  let w := if 0 < settings.cap ∧ 0 < w.budget then w.trimLiveJobs settings.cap.toNat else w
  { w with result.limited := decide (w.budget ≤ 0) }

end Sweep

end Syncle.Records
