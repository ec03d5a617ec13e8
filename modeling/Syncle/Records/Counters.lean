import Mathlib.Algebra.BigOperators.Ring.List
import Syncle.Records.Delivery

/-!
# A job's counters against its records

The counters equal the sums over the records as long as, and only as long as, a result that is
recorded again has the row count of the first, and a notice falls on no cell of delivered rows
(`countsRight_iff_keepsCounts`). A record's row count is written once; the counters are moved by
that of each result.
-/

namespace Syncle.Records

open Lib

namespace BridgeJob

/-- The rows of the records of a status. -/
def rowsOf (job : BridgeJob) (status : DeliveryStatus) : Nat :=
  ((job.deliveries.values.filter fun d => d.status = status).map (·.rowCount)).sum

structure CountsRight (job : BridgeJob) : Prop where
  sent : job.sentCount = job.rowsOf .success
  failed : job.failedCount = job.rowsOf .failed
  skipped : job.skippedCount = job.rowsOf .skipped
  sent_nonneg : 0 ≤ job.sentCount
  failed_nonneg : 0 ≤ job.failedCount
  skipped_nonneg : 0 ≤ job.skippedCount

/-- A result recorded again has as many rows as the first; a notice falls on no cell that counts
rows as delivered or failed. -/
def keepsCount (job : BridgeJob) : RecordEvent → Prop
  | .recordDelivery d _ _ =>
    ∀ existing, job.deliveries.get? d.sequence = some existing → existing.rowCount = d.rowCount
  | .recordNotice sequence _ _ _ =>
    ∀ existing, job.deliveries.get? sequence = some existing →
      existing.status = .skipped ∨ existing.rowCount = 0
  | .skipDeliveries _ _ => True

def KeepsCounts : BridgeJob → List RecordEvent → Prop
  | _, [] => True
  | job, e :: es => job.keepsCount e ∧ KeepsCounts (job.step e) es

variable {job : BridgeJob}

/-- How far a count is from what it should be. -/
def off (job : BridgeJob) (status : DeliveryStatus) (count : Int) : Int :=
  count - job.deliveries.sum fun d => contribution status d.status d.rowCount

theorem rowsOf_eq (status : DeliveryStatus) :
    (job.rowsOf status : Int) =
      job.deliveries.sum fun d => contribution status d.status d.rowCount := by
  unfold rowsOf OrderedMap.sum
  induction job.deliveries.values with
  | nil => rfl
  | cons d ds ih =>
    rw [List.map_cons, List.sum_cons, ← ih, List.filter_cons]
    unfold contribution
    by_cases same : d.status = status <;> simp [same]

/-- The counters are right when none of them is off: a sum of row counts is not negative. -/
theorem countsRight_iff : job.CountsRight ↔
    job.off .success job.sentCount = 0 ∧ job.off .failed job.failedCount = 0 ∧
      job.off .skipped job.skippedCount = 0 := by
  unfold off
  simp only [← rowsOf_eq, sub_eq_zero]
  constructor
  · intro h
    exact ⟨h.sent, h.failed, h.skipped⟩
  · rintro ⟨sent, failed, skipped⟩
    exact ⟨sent, failed, skipped, sent ▸ Int.natCast_nonneg _, failed ▸ Int.natCast_nonneg _,
      skipped ▸ Int.natCast_nonneg _⟩

/-! ## One step -/

theorem contributed_eq (status : DeliveryStatus) (sequence : Int) :
    job.contributed status sequence =
      ((job.deliveries.get? sequence).map fun d => contribution status d.status d.rowCount).getD 0 := by
  unfold contributed
  cases job.deliveries.get? sequence <;> rfl

/-- The row count the record of a result has. -/
def recordedCount (job : BridgeJob) (d : DeliveryMeta) : Nat :=
  ((job.deliveries.get? d.sequence).map (·.rowCount)).getD d.rowCount

theorem off_recordDelivery (d : DeliveryMeta) (o : DeliveryOutcome) (now : Nat)
    (status : DeliveryStatus) (count : Int) :
    (job.recordDelivery d o now).off status
        (count - job.contributed status d.sequence + contribution status o.status d.rowCount) =
      job.off status count +
        (contribution status o.status d.rowCount -
          contribution status o.status (job.recordedCount d)) := by
  unfold off recordDelivery
  simp only
  rw [OrderedMap.sum_set, ← contributed_eq]
  unfold recordedCount
  cases job.deliveries.get? d.sequence with
  | none =>
    simp only [created, Option.map_none, Option.getD_none]
    omega
  | some existing =>
    simp only [updated, Option.map_some, Option.getD_some]
    omega

theorem off_recordNotice (sequence : Int) (message : String) (rowIndex : Int) (now : Nat)
    (status : DeliveryStatus) (count : Int) :
    (job.recordNotice sequence message rowIndex now).off status count =
      job.off status count +
        (job.contributed status sequence -
          contribution status .skipped
            (((job.deliveries.get? sequence).map (·.rowCount)).getD 0)) := by
  unfold off recordNotice
  simp only
  rw [OrderedMap.sum_set, ← contributed_eq]
  cases job.deliveries.get? sequence with
  | none =>
    simp only [Option.map_none, Option.getD_none]
    omega
  | some existing =>
    simp only [Option.map_some, Option.getD_some]
    omega

theorem snapshotBatchSize_pos : 0 < job.snapshotBatchSize := by
  unfold snapshotBatchSize
  split <;> omega

/-- The last batch is the rest of the rows, and there is a rest. -/
theorem rowCountFor_nonneg (sequence : Int) : 0 ≤ job.rowCountFor sequence := by
  have pos := job.snapshotBatchSize_pos
  unfold rowCountFor lastSeq
  cases job.totalCount with
  | none => exact Int.natCast_nonneg _
  | some total =>
    simp only [Option.map_some]
    split
    case isFalse => exact Int.natCast_nonneg _
    case isTrue =>
      generalize job.snapshotBatchSize = size at pos
      have whole := Nat.div_mul_le_self (total + (size - 1)) size
      have fits : ((total + (size - 1)) / size * size : Nat) ≤ (total + size : Int) := by omega
      rw [Nat.cast_mul] at fits
      rw [sub_mul]
      omega

theorem off_skipDeliveries (sequences : List Int) (now : Nat) (status : DeliveryStatus)
    (count : Int) :
    (job.skipDeliveries sequences now).off status
        (count + contribution status .skipped 1 * ((job.fresh sequences).map job.rowCountFor).sum) =
      job.off status count := by
  unfold skipDeliveries
  split
  case isTrue none => simp [none]
  case isFalse =>
    unfold off
    simp only
    have keys : (((job.fresh sequences).map fun s => (s, job.skippedRecord now s)).map Prod.fst) =
        job.fresh sequences := by
      rw [List.map_map]
      exact List.map_id _
    have nodup : (job.fresh sequences).Nodup := (nodup_eraseDups sequences).filter _
    have new : ∀ k ∈ job.fresh sequences, k ∉ job.deliveries.keys := by
      intro k mem
      simpa using (List.mem_filter.mp mem).2
    rw [OrderedMap.sum_setAll _ (by rwa [keys]) (by rwa [keys]), List.map_map]
    have added : ((job.fresh sequences).map ((fun e : Int × BridgeDelivery =>
        contribution status e.2.status e.2.rowCount) ∘ fun s => (s, job.skippedRecord now s))).sum =
          contribution status .skipped 1 * ((job.fresh sequences).map job.rowCountFor).sum := by
      rw [← List.sum_map_mul_left]
      refine congrArg _ (List.map_congr_left fun s _ => ?_)
      have := job.rowCountFor_nonneg s
      simp only [Function.comp_apply, contribution, skippedRecord]
      split <;> omega
    rw [added]
    omega

/-- **Right counters stay right in exactly the steps that keep the count.** -/
theorem step_countsRight (right : job.CountsRight) (e : RecordEvent) :
    (job.step e).CountsRight ↔ job.keepsCount e := by
  obtain ⟨sent, failed, skipped⟩ := countsRight_iff.mp right
  rw [countsRight_iff]
  cases e with
  | recordDelivery d o now =>
    have sent' := @off_recordDelivery job d o now .success job.sentCount
    have failed' := @off_recordDelivery job d o now .failed job.failedCount
    have skipped' := @off_recordDelivery job d o now .skipped job.skippedCount
    have never : ∀ n, contribution .skipped o.status n = 0 := by
      intro n
      unfold contribution DeliveryOutcome.status
      cases o.delivered <;> rfl
    rw [sent] at sent'
    rw [failed] at failed'
    rw [skipped, never, never, add_zero] at skipped'
    have counts : (job.step (.recordDelivery d o now)).off .success
          (job.step (.recordDelivery d o now)).sentCount = _ ∧
        (job.step (.recordDelivery d o now)).off .failed
          (job.step (.recordDelivery d o now)).failedCount = _ ∧
        (job.step (.recordDelivery d o now)).off .skipped
          (job.step (.recordDelivery d o now)).skippedCount = _ := ⟨sent', failed', skipped'⟩
    obtain ⟨sent', failed', skipped'⟩ := counts
    rw [sent', failed', skipped']
    have same : job.keepsCount (.recordDelivery d o now) ↔ job.recordedCount d = d.rowCount := by
      unfold recordedCount
      simp only [keepsCount]
      cases found : job.deliveries.get? d.sequence <;> simp
    rw [same]
    unfold contribution DeliveryOutcome.status
    cases o.delivered <;> simp <;> omega
  | recordNotice sequence message rowIndex now =>
    have after := fun status count =>
      @off_recordNotice job sequence message rowIndex now status count
    have counts : (job.step (.recordNotice sequence message rowIndex now)) =
      job.recordNotice sequence message rowIndex now := rfl
    have kept : (job.recordNotice sequence message rowIndex now).sentCount = job.sentCount ∧
        (job.recordNotice sequence message rowIndex now).failedCount = job.failedCount ∧
        (job.recordNotice sequence message rowIndex now).skippedCount = job.skippedCount :=
      ⟨rfl, rfl, rfl⟩
    rw [counts, kept.1, kept.2.1, kept.2.2, after, after, after, sent, failed, skipped]
    unfold contributed
    simp only [keepsCount]
    cases found : job.deliveries.get? sequence with
    | none => simp [contribution]
    | some existing =>
      obtain ⟨_, rowCount, status⟩ := existing
      cases status <;> simp [contribution]
  | skipDeliveries sequences now =>
    have sent' := @off_skipDeliveries job sequences now .success job.sentCount
    have failed' := @off_skipDeliveries job sequences now .failed job.failedCount
    have skipped' := @off_skipDeliveries job sequences now .skipped job.skippedCount
    have kept : (job.skipDeliveries sequences now).sentCount = job.sentCount ∧
        (job.skipDeliveries sequences now).failedCount = job.failedCount ∧
        (job.skipDeliveries sequences now).skippedCount =
          job.skippedCount + ((job.fresh sequences).map job.rowCountFor).sum := by
      unfold skipDeliveries
      split
      case isTrue none => simp [none]
      case isFalse => exact ⟨rfl, rfl, rfl⟩
    have counts : job.step (.skipDeliveries sequences now) = job.skipDeliveries sequences now := rfl
    rw [counts, kept.1, kept.2.1, kept.2.2]
    simp only [contribution, reduceCtorEq, if_true, if_false, zero_mul, one_mul, add_zero,
      Nat.cast_one] at sent' failed' skipped'
    rw [sent', failed', skipped']
    exact ⟨fun _ => trivial, fun _ => ⟨sent, failed, skipped⟩⟩

/-! ## A run -/

/-- The job of a run that has just been started. -/
def started (total : Option Nat) (snapshot : Option (Option Int)) : BridgeJob :=
  { totalCount := total, snapshot := snapshot }

def run (job : BridgeJob) (events : List RecordEvent) : BridgeJob := events.foldl step job

theorem countsRight_started (total : Option Nat) (snapshot : Option (Option Int)) :
    (started total snapshot).CountsRight :=
  ⟨rfl, rfl, rfl, Int.le_refl 0, Int.le_refl 0, Int.le_refl 0⟩

theorem countsRight_run (right : job.CountsRight) (events : List RecordEvent) :
    (∀ n, (job.run (events.take n)).CountsRight) ↔ job.KeepsCounts events := by
  induction events generalizing job with
  | nil =>
    constructor
    · exact fun _ => trivial
    · intro _ n
      rw [List.take_nil]
      exact right
  | cons e es ih =>
    constructor
    · intro always
      have next : (job.step e).CountsRight := always 1
      refine ⟨(step_countsRight right e).mp next, (ih next).mp fun n => ?_⟩
      exact always (n + 1)
    · intro keeps n
      have next := (step_countsRight right e).mpr keeps.1
      cases n with
      | zero => exact right
      | succ n => exact (ih next).mpr keeps.2 n

/-- **The counters equal the records at every moment of a run, if and only if every step keeps the
count.** -/
theorem countsRight_iff_keepsCounts (total : Option Nat) (snapshot : Option (Option Int))
    (events : List RecordEvent) :
    (∀ n, ((started total snapshot).run (events.take n)).CountsRight) ↔
      (started total snapshot).KeepsCounts events :=
  countsRight_run (countsRight_started total snapshot) events

/-- A result of so many rows for the first delivery. -/
def result (delivered : Bool) (rowCount : Nat) : RecordEvent :=
  .recordDelivery { sequence := 0, rowIndex := 0, rowCount, rowKeysJson := none }
    { delivered, httpStatus := none, attempts := 1, error := none, requestBody := none,
      responseBody := none, durationMs := 0 } 0

/-- Five rows delivered, then a result of one row that failed, then the five rows again: the count
of failed rows goes below zero. -/
theorem not_countsRight :
    ¬ ∀ events : List RecordEvent,
      ∀ n, ((started none none).run (events.take n)).CountsRight := by
  intro always
  have wrong := (always [result true 5, result false 1, result true 5] 3).failed_nonneg
  exact absurd wrong (by decide)

end BridgeJob

end Syncle.Records
