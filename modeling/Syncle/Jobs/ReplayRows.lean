import Mathlib.Data.List.Dedup
import Syncle.Jobs.Replay

/-!
# Every row of a completed replay is in one recorded batch

A batch's number is its offset over the batch size, and a resumed run takes the batch size that the
bridge has by then. Under another size the numbers of what is still to be read can be numbers of what
was recorded before: such a batch is passed over, or recorded in another one's place.

`keepsBatches` is where that does not happen: a batch that is flushed is recorded under its own number
with its own rows, or neither it nor any of its rows is recorded. A run that keeps to it accounts for
every row of the source, however it is stopped, resumed and retried: `accounted_of_keepsBatches`.
-/

namespace Syncle.Jobs

open Lib

/-- Some recorded delivery stands for the row. -/
def Held (ds : List BridgeDelivery) (row : Nat) : Prop :=
  ∃ d ∈ ds, d.holds row

/-- **Every row of the source is in exactly one recorded batch** of a job that has completed. -/
def Replay.Accounted (rd : Reading) (w : Replay) : Prop :=
  w.job.status = .completed → ∀ row < rd.rows, ∃ d ∈ w.job.deliveries, d.holds row ∧
    ∀ d' ∈ w.job.deliveries, d'.holds row → d' = d

/-- Is the row in the batch that has been gathered? -/
def Execution.holds (x : Execution) (row : Nat) : Prop :=
  x.first ≤ row ∧ row < x.first + x.buffered

/-- What is recorded under the batch's number, or holds any of its rows, is this batch. -/
def Execution.Matches (rd : Reading) (x : Execution) (ds : List BridgeDelivery) : Prop :=
  ∀ d ∈ ds, (d.sequence = x.sequence ∨ ∃ row < rd.rows, d.holds row ∧ x.holds row) →
    d.sequence = x.sequence ∧ ∀ row < rd.rows, d.holds row ↔ x.holds row

/-- The reading goes on at the row that the job's offset says. -/
def Job.ReadsOn (rd : Reading) (job : Job) : Prop :=
  rd.place job.cursorOffset job.keyset = job.cursorOffset

/-- A step that takes no number, and no row, for another batch's. -/
def keepsBatches (rd : Reading) (w : Replay) : Activity → Prop
  | .flush => ∀ x, w.worker = .executing x → x.sequence ∈ x.done → x.Matches rd w.job.deliveries
  | .deliver _ => ∀ x, w.worker = .executing x → x.Matches rd w.job.deliveries
  | .skip sequences => ∀ s ∈ sequences, ∀ d ∈ w.job.deliveries, d.sequence ≠ s →
      ∀ row < rd.rows, d.holds row → ¬ (skipped w.job s).holds row
  | .process lost => (w.job.resend && !lost) = false → w.job.ReadsOn rd
  | .resendEnd => anyFailed w.job.deliveries = false → w.job.streamed = false → w.job.ReadsOn rd
  | _ => True

instance (rd : Reading) (x : Execution) (ds : List BridgeDelivery) : Decidable (x.Matches rd ds) :=
  inferInstanceAs (Decidable (∀ d ∈ ds, (d.sequence = x.sequence ∨ ∃ row < rd.rows,
      (d.first ≤ row ∧ row < d.first + d.count) ∧ (x.first ≤ row ∧ row < x.first + x.buffered)) →
    d.sequence = x.sequence ∧ ∀ row < rd.rows, (d.first ≤ row ∧ row < d.first + d.count) ↔
      (x.first ≤ row ∧ row < x.first + x.buffered)))

instance (rd : Reading) (job : Job) : Decidable (job.ReadsOn rd) :=
  inferInstanceAs (Decidable (_ = _))

/-- What is asked of the execution, if there is one. -/
instance Worker.decidableExecuting (worker : Worker) (p : Execution → Prop) [DecidablePred p] :
    Decidable (∀ x, worker = .executing x → p x) :=
  match worker with
  | .executing x => decidable_of_iff (p x) ⟨fun h _ same => Worker.executing.inj same ▸ h, fun h => h x rfl⟩
  | .idle | .resending _ => isTrue nofun

instance (rd : Reading) (w : Replay) (e : Activity) : Decidable (keepsBatches rd w e) :=
  match e with
  | .flush => inferInstanceAs (Decidable (∀ x, w.worker = .executing x →
      (x.sequence ∈ x.done → x.Matches rd w.job.deliveries)))
  | .deliver _ => inferInstanceAs (Decidable (∀ x, w.worker = .executing x →
      x.Matches rd w.job.deliveries))
  | .skip sequences => inferInstanceAs (Decidable (∀ s ∈ sequences, ∀ d ∈ w.job.deliveries,
      d.sequence ≠ s → ∀ row < rd.rows, d.holds row → ¬ (skipped w.job s).holds row))
  | .process lost => inferInstanceAs (Decidable ((w.job.resend && !lost) = false → w.job.ReadsOn rd))
  | .resendEnd => inferInstanceAs (Decidable (anyFailed w.job.deliveries = false →
      w.job.streamed = false → w.job.ReadsOn rd))
  | .edit _ | .refreshDraft | .startDraft | .resume | .retryFailed | .resendFailed
  | .retryDelivery _ _ | .cancelQueued | .read | .poll | .endOfSource | .setCursor | .stop
  | .markStreamed | .complete | .resendOne _ | .cancel | .fail | .crash => isTrue trivial

/-! ## The records -/

/-- A number is recorded once. -/
def Numbered (ds : List BridgeDelivery) : Prop :=
  ∀ d ∈ ds, ∀ d' ∈ ds, d.sequence = d'.sequence → d = d'

/-- A number is recorded once, and a row is in one record. -/
structure Records (rd : Reading) (ds : List BridgeDelivery) : Prop where
  unique : Numbered ds
  apart : ∀ d ∈ ds, ∀ d' ∈ ds, ∀ row < rd.rows, d.holds row → d'.holds row → d = d'

section Records

variable {rd : Reading} {ds : List BridgeDelivery}

theorem Numbered.resent (numbered : Numbered ds) (q : Nat) (ok : Bool) :
    Numbered (resent ds q ok) := by
  have sequence (d : BridgeDelivery) : (if d.sequence = q then
      { d with status := if ok then DeliveryStatus.success else .failed } else d).sequence =
        d.sequence := by
    split <;> rfl
  intro d mem d' mem' same
  obtain ⟨e, at_, rfl⟩ := List.mem_map.mp mem
  obtain ⟨e', at', rfl⟩ := List.mem_map.mp mem'
  rw [numbered e at_ e' at' (by simpa only [sequence] using same)]

theorem Records.resent (records : Records rd ds) (q : Nat) (ok : Bool) :
    Records rd (resent ds q ok) := by
  have holds (d : BridgeDelivery) (row : Nat) : (if d.sequence = q then
      { d with status := if ok then DeliveryStatus.success else .failed } else d).holds row ↔
        d.holds row := by
    split <;> rfl
  refine ⟨records.unique.resent q ok, fun d mem d' mem' row lt there there' => ?_⟩
  obtain ⟨e, at_, rfl⟩ := List.mem_map.mp mem
  obtain ⟨e', at', rfl⟩ := List.mem_map.mp mem'
  rw [records.apart e at_ e' at' row lt ((holds e row).mp there) ((holds e' row).mp there')]

theorem Held.resent {row : Nat} (held : Held ds row) (q : Nat) (ok : Bool) :
    Held (resent ds q ok) row := by
  obtain ⟨d, mem, there⟩ := held
  obtain ⟨d', mem', -, first, count⟩ := resent_has q ok mem
  exact ⟨d', mem', by simpa [BridgeDelivery.holds, first, count] using there⟩

theorem Numbered.record (numbered : Numbered ds) (new : BridgeDelivery) :
    Numbered (recordDelivery ds new) := by
  intro d mem d' mem' same
  rcases mem_recordDelivery mem with ⟨old, other⟩ | ⟨rfl, fresh⟩ | ⟨e, old, at_, rfl⟩
  · rcases mem_recordDelivery mem' with ⟨old', -⟩ | ⟨rfl, -⟩ | ⟨e', -, -, rfl⟩
    · exact numbered d old d' old' same
    · exact absurd same other
    · exact absurd same other
  · rcases mem_recordDelivery mem' with ⟨-, other⟩ | ⟨rfl, -⟩ | ⟨e', old', at', rfl⟩
    · exact absurd same.symm other
    · rfl
    · exact absurd at' (fresh e' old')
  · rcases mem_recordDelivery mem' with ⟨-, other⟩ | ⟨rfl, fresh⟩ | ⟨e', old', at', rfl⟩
    · exact absurd same.symm other
    · exact absurd at_ (fresh e old)
    · rw [numbered e old e' old' (at_.trans at'.symm)]

/-- A batch that matches what is recorded takes its own place, or a new one. -/
theorem Records.record (records : Records rd ds) {x : Execution} (fits : x.Matches rd ds)
    (ok : Bool) : Records rd (recordDelivery ds (x.delivery ok)) := by
  have rows {d : BridgeDelivery} {row : Nat} (first : d.first = x.first)
      (count : d.count = x.buffered) : d.holds row ↔ x.holds row := by
    simp [BridgeDelivery.holds, Execution.holds, first, count]
  have unique := records.unique.record (x.delivery ok)
  have old : ∀ d ∈ recordDelivery ds (x.delivery ok), d.sequence ≠ x.sequence → d ∈ ds := by
    intro d mem other
    rcases mem_recordDelivery mem with ⟨there, -⟩ | ⟨rfl, -⟩ | ⟨e, -, -, rfl⟩
    · exact there
    · exact absurd rfl other
    · exact absurd rfl other
  have holds : ∀ d ∈ recordDelivery ds (x.delivery ok), d.sequence = x.sequence →
      ∀ row, d.holds row ↔ x.holds row := by
    intro d mem at_ row
    rcases mem_recordDelivery mem with ⟨-, other⟩ | ⟨rfl, -⟩ | ⟨e, -, -, rfl⟩
    · exact absurd at_ other
    · exact rows rfl rfl
    · exact rows rfl rfl
  refine ⟨unique, fun d mem d' mem' row lt there there' => ?_⟩
  by_cases at_ : d.sequence = x.sequence
  · by_cases at' : d'.sequence = x.sequence
    · exact unique d mem d' mem' (at_.trans at'.symm)
    · exact absurd (fits d' (old d' mem' at')
        (.inr ⟨row, lt, there', (holds d mem at_ row).mp there⟩)).1 at'
  · by_cases at' : d'.sequence = x.sequence
    · exact absurd (fits d (old d mem at_)
        (.inr ⟨row, lt, there, (holds d' mem' at' row).mp there'⟩)).1 at_
    · exact records.apart d (old d mem at_) d' (old d' mem' at') row lt there there'

/-- The rows of a batch that is recorded are held, and so are those that were before. -/
theorem Held.record {x : Execution} (fits : x.Matches rd ds) (ok : Bool) {row : Nat}
    (lt : row < rd.rows) (held : Held ds row ∨ x.holds row) :
    Held (recordDelivery ds (x.delivery ok)) row := by
  obtain ⟨new, mem_new, -, first, count, -⟩ := recordDelivery_has ds (x.delivery ok)
  have own (there : x.holds row) : Held (recordDelivery ds (x.delivery ok)) row := by
    refine ⟨new, mem_new, ?_⟩
    simpa [BridgeDelivery.holds, Execution.holds, first, count, Execution.delivery] using there
  rcases held with ⟨d, mem, there⟩ | there
  · by_cases at_ : d.sequence = x.sequence
    · exact own (((fits d mem (.inl at_)).2 row lt).mp there)
    · exact ⟨d, mem_recordDelivery_of_ne mem at_, there⟩
  · exact own there

/-- The rows of a number that is settled are held. -/
theorem Execution.Matches.held {x : Execution} (fits : x.Matches rd ds)
    (recorded : ∃ d ∈ ds, d.sequence = x.sequence) {row : Nat} (lt : row < rd.rows)
    (there : x.holds row) : Held ds row := by
  obtain ⟨d, mem, at_⟩ := recorded
  exact ⟨d, mem, ((fits d mem (.inl at_)).2 row lt).mpr there⟩

/-- A skipped batch is no longer than a batch. -/
theorem skipped_count_le (job : Job) (s : Nat) :
    (skipped job s).count ≤ max 1 job.snapshot.batchSize := by
  have pos : 0 < max 1 job.snapshot.batchSize := by omega
  unfold skipped
  generalize max 1 job.snapshot.batchSize = b at pos ⊢
  dsimp only
  split
  · next total _ =>
    split
    · next last =>
      have lt : total + b - 1 < (s + 1 + 1) * b := by
        rw [← Nat.div_lt_iff_lt_mul pos]
        omega
      have : (s + 1 + 1) * b = s * b + b + b := by simp only [Nat.add_mul, Nat.one_mul]
      omega
    · exact Nat.le_refl b
  · exact Nat.le_refl b

theorem skipped_apart {job : Job} {s s' row : Nat} (there : (skipped job s).holds row)
    (there' : (skipped job s').holds row) : s = s' := by
  have le := skipped_count_le job s
  have le' := skipped_count_le job s'
  have first (s : Nat) : (skipped job s).first = s * max 1 job.snapshot.batchSize := rfl
  simp only [BridgeDelivery.holds, first] at there there'
  generalize max 1 job.snapshot.batchSize = b at *
  rcases Nat.lt_trichotomy s s' with lt | rfl | lt
  · have := Nat.mul_le_mul_right b (Nat.succ_le_of_lt lt)
    simp only [Nat.succ_eq_add_one, Nat.add_mul, Nat.one_mul] at this
    omega
  · rfl
  · have := Nat.mul_le_mul_right b (Nat.succ_le_of_lt lt)
    simp only [Nat.succ_eq_add_one, Nat.add_mul, Nat.one_mul] at this
    omega

theorem mem_skipDeliveries {job : Job} {sequences : List Nat} {d : BridgeDelivery} :
    d ∈ (skipDeliveries job sequences).deliveries ↔ d ∈ job.deliveries ∨
      ∃ s ∈ sequences, (∀ d' ∈ job.deliveries, d'.sequence ≠ s) ∧ skipped job s = d := by
  simp [skipDeliveries, List.mem_dedup, and_assoc]

theorem Numbered.skip {job : Job} (numbered : Numbered job.deliveries) (sequences : List Nat) :
    Numbered (skipDeliveries job sequences).deliveries := by
  intro d mem d' mem' same
  rcases mem_skipDeliveries.mp mem with old | ⟨s, -, fresh, rfl⟩
  · rcases mem_skipDeliveries.mp mem' with old' | ⟨s', -, fresh', rfl⟩
    · exact numbered d old d' old' same
    · exact absurd same (fresh' d old)
  · rcases mem_skipDeliveries.mp mem' with old' | ⟨s', -, -, rfl⟩
    · exact absurd same.symm (fresh d' old')
    · have : s = s' := same
      rw [this]

theorem Records.skip {job : Job} {sequences : List Nat} (records : Records rd job.deliveries)
    (clear : ∀ s ∈ sequences, ∀ d ∈ job.deliveries, d.sequence ≠ s →
      ∀ row < rd.rows, d.holds row → ¬ (skipped job s).holds row) :
    Records rd (skipDeliveries job sequences).deliveries := by
  refine ⟨records.unique.skip sequences, fun d mem d' mem' row lt there there' => ?_⟩
  rcases mem_skipDeliveries.mp mem with old | ⟨s, asked, fresh, rfl⟩
  · rcases mem_skipDeliveries.mp mem' with old' | ⟨s', asked', fresh', rfl⟩
    · exact records.apart d old d' old' row lt there there'
    · exact absurd there' (clear s' asked' d old (fresh' d old) row lt there)
  · rcases mem_skipDeliveries.mp mem' with old' | ⟨s', -, -, rfl⟩
    · exact absurd there (clear s asked d' old' (fresh d' old') row lt there')
    · rw [skipped_apart there there']

theorem Held.skip {job : Job} {row : Nat} (held : Held job.deliveries row) (sequences : List Nat) :
    Held (skipDeliveries job sequences).deliveries row := by
  obtain ⟨d, mem, there⟩ := held
  exact ⟨d, mem_skipDeliveries.mpr (.inl mem), there⟩

end Records

/-! ## The invariant -/

/-- How far an execution accounts for the source. -/
structure Execution.Reached (rd : Reading) (x : Execution) (ds : List BridgeDelivery) : Prop where
  place : x.first = x.start
  /-- what is not sent is recorded -/
  done : ∀ q ∈ x.done, ∃ d ∈ ds, d.sequence = q
  behind : ∀ row < rd.rows, row < x.first → Held ds row
  moving : ∀ stop, x.stage = .moving stop → ∀ row < rd.rows, x.holds row → Held ds row
  last : x.stage = .flushing true ∨ x.stage = .sending true → rd.rows ≤ x.first + x.buffered
  ended : x.stage = .ended ∨ x.stage = .streamed → ∀ row < rd.rows, Held ds row

/-- Every row behind the cursor is held, and every row at all once the source has been read. -/
structure Replay.Sound (rd : Reading) (w : Replay) : Prop where
  records : Records rd w.job.deliveries
  behind : ∀ row < rd.rows, row < w.job.cursorOffset → Held w.job.deliveries row
  streamed : w.job.streamed = true → ∀ row < rd.rows, Held w.job.deliveries row
  completed : w.job.status = .completed → ∀ row < rd.rows, Held w.job.deliveries row
  execution : ∀ x, w.worker = .executing x → x.Reached rd w.job.deliveries

theorem Replay.Fresh.sound {rd : Reading} {w : Replay} (fresh : w.Fresh) : w.Sound rd where
  records := by rw [fresh.deliveries]; exact ⟨nofun, nofun⟩
  behind row _ lt := by simp [fresh.cursorOffset] at lt
  streamed at_ := by simp [fresh.streamed] at at_
  completed at_ := by rcases fresh.status with eq | eq <;> simp [eq] at at_
  execution x at_ := by simp [fresh.worker] at at_

theorem Replay.Sound.accounted {rd : Reading} {w : Replay} (sound : w.Sound rd) :
    w.Accounted rd := by
  intro completed row lt
  obtain ⟨d, mem, there⟩ := sound.completed completed row lt
  exact ⟨d, mem, there, fun d' mem' there' =>
    sound.records.apart d' mem' d mem row lt there' there⟩

/-! ## The steps -/

section Steps

variable {rd : Reading} {w w' : Replay}

theorem Replay.Sound.goto (sound : w.Sound rd) {x : Execution}
    (reached : x.Reached rd w.job.deliveries) : Replay.Sound rd { w with worker := .executing x } :=
  ⟨sound.records, sound.behind, sound.streamed, sound.completed, fun y at_ => by
    obtain rfl : x = y := by simpa using at_
    exact reached⟩

/-- A job that nothing is done to but what its status is, or its configuration. -/
theorem Replay.Sound.of_job (sound : w.Sound rd) {job : Job} {worker : Worker}
    (deliveries : job.deliveries = w.job.deliveries)
    (cursorOffset : job.cursorOffset ≤ w.job.cursorOffset)
    (streamed : job.streamed = true → w.job.streamed = true)
    (completed : job.status = .completed → ∀ row < rd.rows, Held w.job.deliveries row)
    (execution : ∀ x, worker = .executing x → x.Reached rd w.job.deliveries) :
    Replay.Sound rd { w with job := job, worker := worker } := by
  refine ⟨?_, ?_, ?_, ?_, ?_⟩
  · simpa only [deliveries] using sound.records
  · intro row lt le
    simpa only [deliveries] using sound.behind row lt (Nat.lt_of_lt_of_le le cursorOffset)
  · intro at_
    simpa only [deliveries] using sound.streamed (streamed at_)
  · intro at_
    simpa only [deliveries] using completed at_
  · intro x at_
    simpa only [deliveries] using execution x at_

/-- An execution starts behind everything that the cursor says has been done. -/
theorem Replay.Sound.started (sound : w.Sound rd) {job : Job}
    (deliveries : job.deliveries = w.job.deliveries)
    (cursorOffset : job.cursorOffset = w.job.cursorOffset) (on : job.ReadsOn rd) :
    (job.execution rd).Reached rd w.job.deliveries where
  place := on
  done q mem := by
    obtain ⟨d, there, same, -⟩ := mem_settledSequences.mp mem
    exact ⟨d, deliveries ▸ there, same⟩
  behind row lt le := sound.behind row lt (by
    have first : (job.execution rd).first = job.cursorOffset := on
    omega)
  moving stop at_ := by cases at_
  last at_ := by rcases at_ with at_ | at_ <;> cases at_
  ended at_ := by rcases at_ with at_ | at_ <;> cases at_

/-! ### What the worker does next -/

variable {x : Execution}

theorem Replay.Sound.run_read (sound : w.Sound rd) (at_ : w.worker = .executing x)
    (move : x.run rd w .read = some w') : w'.Sound rd := by
  have reached := sound.execution x at_
  simp only [Execution.run] at move
  split at move
  · obtain rfl := Option.some.inj move
    refine sound.goto ⟨reached.place, reached.done, reached.behind, fun stop at_ => ?_,
      fun at_ => ?_, fun at_ => ?_⟩
    · dsimp only at at_
      split at at_ <;> cases at_
    · dsimp only at at_
      split at at_ <;> rcases at_ with at_ | at_ <;> cases at_
    · dsimp only at at_
      split at at_ <;> rcases at_ with at_ | at_ <;> cases at_
  · cases move

theorem Replay.Sound.run_poll (sound : w.Sound rd) (at_ : w.worker = .executing x)
    (move : x.run rd w .poll = some w') : w'.Sound rd := by
  have reached := sound.execution x at_
  simp only [Execution.run] at move
  split at move
  · next where_ =>
    obtain rfl := Option.some.inj move
    refine sound.goto ⟨reached.place, fun q mem => ?_, reached.behind, reached.moving, reached.last,
      reached.ended⟩
    rcases List.mem_append.mp mem with mem | mem
    · exact reached.done q mem
    · obtain ⟨d, there, same, -⟩ := mem_skippedSequences.mp mem
      exact ⟨d, there, same⟩
  · cases move

theorem Replay.Sound.run_endOfSource (sound : w.Sound rd) (at_ : w.worker = .executing x)
    (move : x.run rd w .endOfSource = some w') : w'.Sound rd := by
  have reached := sound.execution x at_
  simp only [Execution.run] at move
  split at move
  · next all =>
    obtain rfl := Option.some.inj move
    refine sound.goto ⟨reached.place, reached.done, reached.behind, fun stop at_ => ?_,
      fun _ => all.2, fun at_ row lt => ?_⟩
    · dsimp only at at_
      split at at_ <;> cases at_
    · -- an empty buffer: everything before it is held, and it is at the end
      dsimp only at at_
      split at at_
      · next empty =>
        exact reached.behind row lt (by omega)
      · rcases at_ with at_ | at_ <;> cases at_
  · cases move

theorem Replay.Sound.run_flush (sound : w.Sound rd) (at_ : w.worker = .executing x)
    (keeps : keepsBatches rd w (.flush)) (move : x.run rd w .flush = some w') : w'.Sound rd := by
  have reached := sound.execution x at_
  simp only [Execution.run] at move
  split at move
  · next last stage =>
    obtain rfl := Option.some.inj move
    split
    · next settled =>
      have settled : x.sequence ∈ x.done := by simpa using settled
      have fits := keeps x at_ settled
      have held (row : Nat) (lt : row < rd.rows) (there : x.holds row) :=
        fits.held (reached.done _ settled) lt there
      refine sound.goto ⟨reached.place, reached.done, reached.behind,
        fun _ _ row lt there => held row lt there, fun at_ => ?_, fun at_ row lt => ?_⟩
      · cases last <;> rcases at_ with at_ | at_ <;> cases at_
      · cases last with
        | false => rcases at_ with at_ | at_ <;> cases at_
        | true =>
          by_cases le : row < x.first
          · exact reached.behind row lt le
          · exact held row lt ⟨by omega, Nat.lt_of_lt_of_le lt (reached.last (.inl stage))⟩
    · refine sound.goto ⟨reached.place, reached.done, reached.behind, fun _ at_ => (by cases at_),
        fun at_ => reached.last (.inl ?_), fun at_ => ?_⟩
      · rcases at_ with at_ | at_
        · cases at_
        · cases at_
          exact stage
      · rcases at_ with at_ | at_ <;> cases at_
  · cases move

theorem Replay.Sound.run_deliver {ok : Bool} (sound : w.Sound rd) (at_ : w.worker = .executing x)
    (keeps : keepsBatches rd w (.deliver ok)) (move : x.run rd w (.deliver ok) = some w') :
    w'.Sound rd := by
  have reached := sound.execution x at_
  simp only [Execution.run] at move
  split at move
  · next last stage =>
    obtain rfl := Option.some.inj move
    have fits := keeps x at_
    refine ⟨sound.records.record fits ok, fun row lt le => ?_, fun streamed row lt => ?_,
      fun completed row lt => ?_, fun y at_' => ?_⟩
    · exact Held.record fits ok lt (.inl (sound.behind row lt le))
    · exact Held.record fits ok lt (.inl (sound.streamed streamed row lt))
    · exact Held.record fits ok lt (.inl (sound.completed completed row lt))
    · obtain rfl := Worker.executing.inj at_'
      refine ⟨reached.place, fun q mem => ?_, fun row lt le => ?_, fun _ _ row lt there => ?_,
        fun at_ => ?_, fun at_ row lt => ?_⟩
      · obtain ⟨d, there, same⟩ := reached.done q mem
        by_cases own : d.sequence = x.sequence
        · obtain ⟨new, mem_new, number, -⟩ := recordDelivery_has w.job.deliveries (x.delivery ok)
          exact ⟨new, mem_new, number.trans (own.symm.trans same)⟩
        · exact ⟨d, mem_recordDelivery_of_ne there own, same⟩
      · exact Held.record fits ok lt (.inl (reached.behind row lt le))
      · exact Held.record fits ok lt (.inr there)
      · simp only [Execution.flushed] at at_
        cases last with
        | false => rcases at_ with at_ | at_ <;> cases at_
        | true =>
          simp only [if_true] at at_
          split at at_ <;> rcases at_ with at_ | at_ <;> cases at_
      · simp only [Execution.flushed] at at_
        cases last with
        | false => rcases at_ with at_ | at_ <;> cases at_
        | true =>
          by_cases le : row < x.first
          · exact Held.record fits ok lt (.inl (reached.behind row lt le))
          · exact Held.record fits ok lt (.inr ⟨by omega,
              Nat.lt_of_lt_of_le lt (reached.last (.inr stage))⟩)
  · cases move

theorem Replay.Sound.run_setCursor (sound : w.Sound rd) (at_ : w.worker = .executing x)
    (move : x.run rd w .setCursor = some w') : w'.Sound rd := by
  have reached := sound.execution x at_
  simp only [Execution.run] at move
  split at move
  · next stop stage =>
    obtain rfl := Option.some.inj move
    have behind (row : Nat) (lt : row < rd.rows) (le : row < x.first + x.buffered) :
        Held w.job.deliveries row := by
      by_cases before : row < x.first
      · exact reached.behind row lt before
      · exact reached.moving stop stage row lt ⟨by omega, le⟩
    refine ⟨sound.records, fun row lt le => behind row lt (by rw [reached.place]; exact le),
      fun streamed => ?_, sound.completed, fun y at_' => ?_⟩
    · dsimp only at streamed
      split at streamed
      · cases streamed
      · exact sound.streamed streamed
    · obtain rfl := Worker.executing.inj at_'
      refine ⟨by simp [reached.place], reached.done, behind, fun _ at_ => ?_, fun at_ => ?_,
        fun at_ => ?_⟩
      · dsimp only at at_
        split at at_ <;> cases at_
      · dsimp only at at_
        split at at_ <;> rcases at_ with at_ | at_ <;> cases at_
      · dsimp only at at_
        split at at_ <;> rcases at_ with at_ | at_ <;> cases at_
  · cases move

theorem Replay.Sound.run_markStreamed (sound : w.Sound rd) (at_ : w.worker = .executing x)
    (move : x.run rd w .markStreamed = some w') : w'.Sound rd := by
  have reached := sound.execution x at_
  simp only [Execution.run] at move
  split at move
  · next stage =>
    obtain rfl := Option.some.inj move
    have all := reached.ended (.inl stage)
    refine ⟨sound.records, sound.behind, fun _ => all, sound.completed, fun y at_' => ?_⟩
    obtain rfl := Worker.executing.inj at_'
    refine ⟨reached.place, reached.done, reached.behind, fun _ at_ => (by cases at_), fun at_ => ?_,
      fun _ => all⟩
    rcases at_ with at_ | at_ <;> cases at_
  · cases move

theorem Replay.Sound.run_complete (sound : w.Sound rd) (at_ : w.worker = .executing x)
    (move : x.run rd w .complete = some w') : w'.Sound rd := by
  have reached := sound.execution x at_
  simp only [Execution.run] at move
  split at move
  · next stage =>
    obtain rfl := Option.some.inj move
    exact sound.of_job rfl (Nat.le_refl _) id (fun _ => reached.ended (.inr stage))
      (fun _ at_ => by cases at_)
  · cases move

/-- **What the worker does next** keeps the account. -/
theorem Replay.Sound.run {e : Activity} (sound : w.Sound rd)
    (at_ : w.worker = .executing x) (keeps : keepsBatches rd w e)
    (move : x.run rd w e = some w') : w'.Sound rd := by
  cases e with
  | read => exact sound.run_read at_ move
  | poll => exact sound.run_poll at_ move
  | endOfSource => exact sound.run_endOfSource at_ move
  | flush => exact sound.run_flush at_ keeps move
  | deliver ok => exact sound.run_deliver at_ keeps move
  | setCursor => exact sound.run_setCursor at_ move
  | stop =>
    simp only [Execution.run] at move
    split at move
    · obtain rfl := Option.some.inj move
      exact sound.of_job rfl (Nat.le_refl _) id (fun at_ => by cases at_) (fun _ at_ => by cases at_)
    · cases move
  | markStreamed => exact sound.run_markStreamed at_ move
  | complete => exact sound.run_complete at_ move
  | _ => cases move

/-- A resend of one delivery leaves what it stands for. -/
theorem Replay.Sound.resent (sound : w.Sound rd) (idle : ∀ x, w.worker ≠ .executing x) (q : Nat)
    (ok : Bool) :
    Replay.Sound rd { w with job := { w.job with deliveries := resent w.job.deliveries q ok } } :=
  ⟨sound.records.resent q ok, fun row lt le => (sound.behind row lt le).resent q ok,
    fun at_ row lt => (sound.streamed at_ row lt).resent q ok,
    fun at_ row lt => (sound.completed at_ row lt).resent q ok,
    fun x at_ => absurd at_ (idle x)⟩

/-- **What a resend does next** keeps the account. -/
theorem Replay.Sound.resending {rest : List Nat} {e : Activity} (sound : w.Sound rd)
    (at_ : w.worker = .resending rest) (keeps : keepsBatches rd w e)
    (move : Jobs.resending rd w rest e = some w') : w'.Sound rd := by
  cases e with
  | resendOne ok =>
    cases rest with
    | nil => cases move
    | cons q rest =>
      obtain rfl := Option.some.inj move
      have sound := sound.resent (by simp [at_]) q ok
      exact ⟨sound.records, sound.behind, sound.streamed, sound.completed, fun _ at_ => by cases at_⟩
  | resendEnd =>
    cases rest with
    | cons q rest => cases move
    | nil =>
      simp only [Jobs.resending] at move
      split at move
      · obtain rfl := Option.some.inj move
        exact sound.of_job rfl (Nat.le_refl _) id (fun at_ => by cases at_) (fun _ at_ => by cases at_)
      · next settled =>
        split at move
        · next streamed =>
          obtain rfl := Option.some.inj move
          exact sound.of_job rfl (Nat.le_refl _) id (fun _ => sound.streamed streamed)
            (fun _ at_ => by cases at_)
        · next more =>
          obtain rfl := Option.some.inj move
          refine sound.of_job rfl (Nat.le_refl _) id (fun at_ => by cases at_) fun x at_ => ?_
          obtain rfl := Worker.executing.inj at_
          exact sound.started rfl rfl (keeps (by simpa using settled) (by simpa using more))
  | _ => cases rest <;> cases move

/-- **What is done to a job while it rests** keeps the account. -/
theorem Replay.Sound.idle {e : Activity} (sound : w.Sound rd) (at_ : w.worker = .idle)
    (keeps : keepsBatches rd w e) (move : idleStep rd w e = some w') : w'.Sound rd := by
  have resting : ∀ x, w.worker ≠ .executing x := by simp [at_]
  cases e with
  | refreshDraft =>
    simp only [idleStep] at move
    split at move
    · next draft =>
      obtain rfl := Option.some.inj move
      exact sound.of_job rfl (Nat.le_refl _) id sound.completed sound.execution
    · cases move
  | startDraft | cancelQueued =>
    simp only [idleStep] at move
    split at move
    · obtain rfl := Option.some.inj move
      exact sound.of_job rfl (Nat.le_refl _) id (fun at_ => by cases at_) sound.execution
    · cases move
  | resume | resendFailed =>
    simp only [idleStep] at move
    split at move
    · obtain rfl := Option.some.inj move
      exact sound.of_job rfl (Nat.le_refl _) id (fun at_ => by cases at_) sound.execution
    · cases move
  | retryFailed =>
    simp only [idleStep] at move
    split at move
    · obtain rfl := Option.some.inj move
      exact sound.of_job rfl (Nat.zero_le _) (fun at_ => by cases at_) (fun at_ => by cases at_)
        sound.execution
    · cases move
  | retryDelivery q ok =>
    simp only [idleStep] at move
    split at move
    · obtain rfl := Option.some.inj move
      have sound := sound.resent resting q ok
      split
      · split
        · next streamed =>
          exact sound.of_job rfl (Nat.le_refl _) id (fun _ => sound.streamed streamed)
            sound.execution
        · exact sound.of_job rfl (Nat.le_refl _) id (fun at_ => by cases at_) sound.execution
      · exact sound
    · cases move
  | process lost =>
    simp only [idleStep] at move
    split at move
    · split at move
      · obtain rfl := Option.some.inj move
        exact sound.of_job rfl (Nat.le_refl _) id (fun at_ => by cases at_) (fun _ at_ => by cases at_)
      · next mode =>
        obtain rfl := Option.some.inj move
        refine sound.of_job rfl (Nat.le_refl _) id (fun at_ => by cases at_) fun x at_ => ?_
        obtain rfl := Worker.executing.inj at_
        exact sound.started rfl rfl (keeps (by simpa using mode))
    · cases move
  | _ => cases move

/-- **One step keeps the account.** -/
theorem Replay.Sound.step {e : Activity} (sound : w.Sound rd) (keeps : keepsBatches rd w e)
    (move : replayStep rd w e = some w') : w'.Sound rd := by
  have next (move : w.next rd e = some w') : w'.Sound rd := by
    unfold Replay.next at move
    split at move
    · next at_ => exact sound.run at_ keeps move
    · next at_ => exact sound.resending at_ keeps move
    · next at_ => exact sound.idle at_ keeps move
  cases e with
  | edit config =>
    simp only [replayStep] at move
    split at move
    · obtain rfl := Option.some.inj move
      exact ⟨sound.records, sound.behind, sound.streamed, sound.completed, sound.execution⟩
    · cases move
  | skip sequences =>
    obtain rfl := Option.some.inj move
    refine ⟨sound.records.skip keeps, fun row lt le => (sound.behind row lt le).skip sequences,
      fun at_ row lt => (sound.streamed at_ row lt).skip sequences,
      fun at_ row lt => (sound.completed at_ row lt).skip sequences, fun x at_ => ?_⟩
    have reached := sound.execution x at_
    refine ⟨reached.place, fun q mem => ?_, fun row lt le => (reached.behind row lt le).skip sequences,
      fun stop at_ row lt there => (reached.moving stop at_ row lt there).skip sequences,
      reached.last, fun at_ row lt => (reached.ended at_ row lt).skip sequences⟩
    obtain ⟨d, there, same⟩ := reached.done q mem
    exact ⟨d, mem_skipDeliveries.mpr (.inl there), same⟩
  | crash =>
    obtain rfl := Option.some.inj move
    exact sound.of_job rfl (Nat.le_refl _) id sound.completed (fun _ at_ => by cases at_)
  | cancel | fail =>
    simp only [replayStep] at move
    split at move
    · cases move
    · obtain rfl := Option.some.inj move
      exact sound.of_job rfl (Nat.le_refl _) id (fun at_ => by cases at_) (fun _ at_ => by cases at_)
  | _ => exact next move

end Steps

/-- **A replay skips no row**, in a run that takes no number and no row for another batch's. -/
theorem accounted_of_keepsBatches {rd : Reading} {w t : Replay} {es : List Activity}
    (fresh : w.Fresh) (run : Run (replayStep rd) (keepsBatches rd) w es t) : t.Accounted rd :=
  (run.invariant fresh.sound fun _ _ _ keeps sound move => sound.step keeps move).accounted

/-! ## A run stopped, and resumed in larger batches -/

namespace Resized

/-- Four rows, read by OFFSET. -/
def rd : Reading := .byOffset 4 (some 4)

def bridge : Replay where
  config := { batchSize := 2, onError := .abort }
  job := {
    status := .queued, cursorOffset := 0, keyset := none, streamed := false,
    snapshot := { batchSize := 2, onError := .abort }, totalCount := some 4, deliveries := [],
    resend := false }
  worker := .idle

theorem fresh : bridge.Fresh :=
  ⟨.inr rfl, rfl, rfl, rfl, rfl, by decide, rfl, rfl⟩

/-- The first batch is delivered, and the run is stopped. -/
def stopped : List Activity :=
  [.process false, .read, .read, .flush, .deliver true, .setCursor, .cancel]

/-- The batch is delivered, and the run completes. -/
def finished : List Activity :=
  [.resume, .process false, .read, .read, .flush, .deliver true, .setCursor, .endOfSource,
    .markStreamed, .complete]

end Resized

/-- The run that is stopped and resumed with its batch size. -/
theorem accounted_resumed : ∃ t, runEvents (replayStep Resized.rd) Resized.bridge
    (Resized.stopped ++ Resized.finished) = some t ∧ t.job.status = .completed ∧
      t.Accounted Resized.rd := by
  have run : runEvents (guarded (replayStep Resized.rd) (keepsBatches Resized.rd)) Resized.bridge
      (Resized.stopped ++ Resized.finished) = some {
        config := { batchSize := 2, onError := .abort }
        job := {
          status := .completed, cursorOffset := 4, keyset := none, streamed := true,
          snapshot := { batchSize := 2, onError := .abort }, totalCount := some 4,
          deliveries := [⟨0, 0, 2, .success, 0, 2⟩, ⟨1, 2, 2, .success, 2, 2⟩], resend := false }
        worker := .idle } := by
    decide +kernel
  exact ⟨_, by decide +kernel, rfl,
    accounted_of_keepsBatches Resized.fresh (run_iff_runEvents.mpr run)⟩

/-- **Rows are skipped:** with batches of four, the rows after the first batch of two are batch 0,
which has been delivered. -/
theorem not_accounted : ¬ ∀ (rd : Reading) (w t : Replay) (es : List Activity), w.Fresh →
    Run (replayStep rd) anyStep w es t → t.Accounted rd := by
  intro always
  have run : runEvents (replayStep Resized.rd) Resized.bridge
      (Resized.stopped ++ .edit { batchSize := 4, onError := .abort } ::
        [.resume, .process false, .read, .read, .endOfSource, .flush, .markStreamed, .complete]) =
      some {
        config := { batchSize := 4, onError := .abort }
        job := {
          status := .completed, cursorOffset := 2, keyset := none, streamed := true,
          snapshot := { batchSize := 4, onError := .abort }, totalCount := some 4,
          deliveries := [⟨0, 0, 2, .success, 0, 2⟩], resend := false }
        worker := .idle } := by
    decide
  obtain ⟨d, mem, there, -⟩ := always _ _ _ _ Resized.fresh (run_of_eval run) rfl 3 (by decide)
  obtain rfl := List.mem_singleton.mp mem
  exact absurd there (by decide)

end Syncle.Jobs
