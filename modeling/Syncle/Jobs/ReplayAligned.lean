import Mathlib.Tactic.Ring
import Syncle.Jobs.ReplayRows

/-!
# A replay whose batch size stays

While every run of a job has one batch size, a batch's number is where it starts: the cursor is at a
multiple of the size, a batch is gathered from one multiple to the next or to the end of the source,
and what is recorded or skipped under a number are the rows from that multiple on. No number can then
be another batch's, so no row is skipped: `accounted_of_keepsSize`.
-/

namespace Syncle.Jobs

open Lib

/-- A step that leaves the bridge's batch size, and reads on at the row the job's offset says. -/
def keepsSize (rd : Reading) (b : Nat) (w : Replay) : Activity → Prop
  | .edit config => config.batchSize = b
  | .process lost => (w.job.resend && !lost) = false → w.job.ReadsOn rd
  | .resendEnd => anyFailed w.job.deliveries = false → w.job.streamed = false → w.job.ReadsOn rd
  | _ => True

instance (rd : Reading) (b : Nat) (w : Replay) (e : Activity) : Decidable (keepsSize rd b w e) :=
  match e with
  | .edit config => inferInstanceAs (Decidable (config.batchSize = b))
  | .process lost => inferInstanceAs (Decidable ((w.job.resend && !lost) = false → w.job.ReadsOn rd))
  | .resendEnd => inferInstanceAs (Decidable (anyFailed w.job.deliveries = false →
      w.job.streamed = false → w.job.ReadsOn rd))
  | .refreshDraft | .startDraft | .resume | .retryFailed | .resendFailed | .retryDelivery _ _
  | .skip _ | .cancelQueued | .read | .poll | .endOfSource | .flush | .deliver _ | .setCursor
  | .stop | .markStreamed | .complete | .resendOne _ | .cancel | .fail | .crash => isTrue trivial

/-- An execution in step with the batches of the source. -/
structure Execution.Aligned (rd : Reading) (b : Nat) (x : Execution) : Prop where
  size : x.config.batchSize = b
  start : x.start = x.sequence * b
  place : x.first = x.start
  inside : x.first + x.buffered ≤ rd.rows
  reading : x.stage = .reading → x.buffered < b
  full : x.stage = .flushing false ∨ x.stage = .sending false ∨ (∃ stop, x.stage = .moving stop) →
    x.buffered = b
  last : x.stage = .flushing true ∨ x.stage = .sending true ∨ x.stage = .ended ∨
    x.stage = .streamed → x.first + x.buffered = rd.rows ∧ x.buffered < b

structure Replay.Aligned (rd : Reading) (b : Nat) (w : Replay) : Prop where
  config : w.config.batchSize = b
  snapshot : w.job.snapshot.batchSize = b
  cursor : b ∣ w.job.cursorOffset
  inside : w.job.cursorOffset ≤ rd.rows
  rowIndex : ∀ d ∈ w.job.deliveries, d.rowIndex = d.sequence * b
  execution : ∀ x, w.worker = .executing x → x.Aligned rd b

section Steps

variable {rd : Reading} {b : Nat} {w w' : Replay}

theorem Replay.Fresh.aligned (fresh : w.Fresh) (snapshot : w.job.snapshot.batchSize = b)
    (config : w.config.batchSize = b) : w.Aligned rd b where
  config := config
  snapshot := snapshot
  cursor := by simp [fresh.cursorOffset]
  inside := by simp [fresh.cursorOffset]
  rowIndex := by simp [fresh.deliveries]
  execution x at_ := by simp [fresh.worker] at at_

theorem Replay.Aligned.of_job (aligned : w.Aligned rd b) {job : Job} {worker : Worker}
    (snapshot : job.snapshot.batchSize = b)
    (cursor : b ∣ job.cursorOffset ∧ job.cursorOffset ≤ rd.rows)
    (rowIndex : ∀ d ∈ job.deliveries, d.rowIndex = d.sequence * b)
    (execution : ∀ x, worker = .executing x → x.Aligned rd b) :
    Replay.Aligned rd b { w with job := job, worker := worker } :=
  ⟨aligned.config, snapshot, cursor.1, cursor.2, rowIndex, execution⟩

/-- An execution starts in step. -/
theorem Job.aligned (pos : 0 < b) {job : Job} (snapshot : job.snapshot.batchSize = b)
    (cursor : b ∣ job.cursorOffset) (inside : job.cursorOffset ≤ rd.rows) (on : job.ReadsOn rd) :
    (job.execution rd).Aligned rd b where
  size := snapshot
  start := by
    have size : (job.execution rd).config.batchSize = b := snapshot
    simp only [Execution.sequence, size]
    exact (Nat.div_mul_cancel cursor).symm
  place := on
  inside := by
    have first : (job.execution rd).first = job.cursorOffset := on
    have buffered : (job.execution rd).buffered = 0 := rfl
    omega
  reading _ := pos
  full at_ := by rcases at_ with at_ | at_ | ⟨_, at_⟩ <;> cases at_
  last at_ := by rcases at_ with at_ | at_ | at_ | at_ <;> cases at_

/-- A batch's record is at its number's place. -/
theorem Execution.Aligned.record {x : Execution} (aligned : x.Aligned rd b) (ok : Bool)
    {ds : List BridgeDelivery} (rowIndex : ∀ d ∈ ds, d.rowIndex = d.sequence * b) :
    ∀ d ∈ recordDelivery ds (x.delivery ok), d.rowIndex = d.sequence * b := by
  intro d mem
  rcases mem_recordDelivery mem with ⟨old, -⟩ | ⟨rfl, -⟩ | ⟨e, old, same, rfl⟩
  · exact rowIndex d old
  · exact aligned.start
  · exact (rowIndex e old).trans (by rw [same])

/-- Past a full batch the number is the next one. -/
theorem Execution.Aligned.moved {x : Execution} (pos : 0 < b) (aligned : x.Aligned rd b) {stop : Bool}
    (stage : x.stage = .moving stop) : x.start + x.buffered = (x.sequence + 1) * b ∧
      (x.start + x.buffered) / x.config.batchSize = x.sequence + 1 := by
  have full := aligned.full (.inr (.inr ⟨stop, stage⟩))
  have start := aligned.start
  have next : x.start + x.buffered = (x.sequence + 1) * b := by rw [start, full]; ring
  exact ⟨next, by rw [next, aligned.size, Nat.mul_div_cancel _ pos]⟩

theorem Replay.Aligned.goto (aligned : w.Aligned rd b) {x : Execution} (there : x.Aligned rd b) :
    Replay.Aligned rd b { w with worker := .executing x } :=
  aligned.of_job aligned.snapshot ⟨aligned.cursor, aligned.inside⟩ aligned.rowIndex
    fun _ at_ => Worker.executing.inj at_ ▸ there

/-- The same batch, at another stage. -/
theorem Execution.Aligned.stays {x : Execution} (own : x.Aligned rd b) {stage : Stage}
    (reading : stage = .reading → x.buffered < b)
    (full : stage = .flushing false ∨ stage = .sending false ∨ (∃ stop, stage = .moving stop) →
      x.buffered = b)
    (last : stage = .flushing true ∨ stage = .sending true ∨ stage = .ended ∨ stage = .streamed →
      x.first + x.buffered = rd.rows ∧ x.buffered < b) :
    Execution.Aligned rd b { x with stage := stage } :=
  ⟨own.size, own.start, own.place, own.inside, reading, full, last⟩

theorem Execution.Aligned.flushed {x : Execution} (own : x.Aligned rd b) {last : Bool} (stop : Bool)
    (stage : x.stage = .flushing last ∨ x.stage = .sending last) :
    (x.flushed last stop).Aligned rd b := by
  cases last with
  | false =>
    have full := own.full (stage.imp_right .inl)
    exact own.stays (fun at_ => by cases at_) (fun _ => full)
      fun at_ => by rcases at_ with at_ | at_ | at_ | at_ <;> cases at_
  | true =>
    have last := own.last (stage.imp_right .inl)
    refine own.stays (fun at_ => ?_) (fun at_ => ?_) (fun _ => last)
    · cases stop <;> cases at_
    · rcases at_ with at_ | at_ | ⟨_, at_⟩ <;> cases stop <;> cases at_

/-! ### What the worker does next -/

variable {x : Execution}

theorem Replay.Aligned.run_read (aligned : w.Aligned rd b) (at_ : w.worker = .executing x)
    (move : x.run rd w .read = some w') : w'.Aligned rd b := by
  have own := aligned.execution x at_
  simp only [Execution.run] at move
  split at move
  · next more =>
    obtain rfl := Option.some.inj move
    have lt := own.reading more.1
    have size := own.size
    refine aligned.goto ⟨own.size, own.start, own.place, more.2, fun at_ => ?_, fun at_ => ?_,
      fun at_ => ?_⟩
    · dsimp only at at_ ⊢
      split at at_
      · cases at_
      · omega
    · dsimp only at at_ ⊢
      split at at_
      · omega
      · rcases at_ with at_ | at_ | ⟨_, at_⟩ <;> cases at_
    · dsimp only at at_
      split at at_ <;> rcases at_ with at_ | at_ | at_ | at_ <;> cases at_
  · cases move

theorem Replay.Aligned.run_endOfSource (aligned : w.Aligned rd b) (at_ : w.worker = .executing x)
    (move : x.run rd w .endOfSource = some w') : w'.Aligned rd b := by
  have own := aligned.execution x at_
  simp only [Execution.run] at move
  split at move
  · next all =>
    obtain rfl := Option.some.inj move
    have lt := own.reading all.1
    have inside := own.inside
    refine aligned.goto (own.stays (fun at_ => ?_) (fun at_ => ?_) (fun _ => ⟨by omega, lt⟩))
    · split at at_ <;> cases at_
    · split at at_ <;> rcases at_ with at_ | at_ | ⟨_, at_⟩ <;> cases at_
  · cases move

theorem Replay.Aligned.run_flush (aligned : w.Aligned rd b) (at_ : w.worker = .executing x)
    (move : x.run rd w .flush = some w') : w'.Aligned rd b := by
  have own := aligned.execution x at_
  simp only [Execution.run] at move
  split at move
  · next last stage =>
    obtain rfl := Option.some.inj move
    split
    · exact aligned.goto (own.flushed false (.inl stage))
    · refine aligned.goto (own.stays (fun at_ => by cases at_) (fun at_ => ?_) (fun at_ => ?_))
      · rcases at_ with at_ | at_ | ⟨_, at_⟩ <;> cases at_
        exact own.full (.inl stage)
      · rcases at_ with at_ | at_ | at_ | at_ <;> cases at_
        exact own.last (.inl stage)
  · cases move

theorem Replay.Aligned.run_deliver {ok : Bool} (aligned : w.Aligned rd b)
    (at_ : w.worker = .executing x) (move : x.run rd w (.deliver ok) = some w') :
    w'.Aligned rd b := by
  have own := aligned.execution x at_
  simp only [Execution.run] at move
  split at move
  · next last stage =>
    obtain rfl := Option.some.inj move
    exact aligned.of_job aligned.snapshot ⟨aligned.cursor, aligned.inside⟩
      (own.record ok aligned.rowIndex)
      fun y at_ => Worker.executing.inj at_ ▸ own.flushed _ (.inr stage)
  · cases move

theorem Replay.Aligned.run_setCursor (pos : 0 < b) (aligned : w.Aligned rd b)
    (at_ : w.worker = .executing x) (move : x.run rd w .setCursor = some w') : w'.Aligned rd b := by
  have own := aligned.execution x at_
  simp only [Execution.run] at move
  split at move
  · next stop stage =>
    obtain rfl := Option.some.inj move
    obtain ⟨next, number⟩ := own.moved pos stage
    have inside := own.inside
    have place := own.place
    refine aligned.of_job aligned.snapshot ⟨⟨x.sequence + 1, by rw [next, Nat.mul_comm]⟩, ?_⟩
      aligned.rowIndex fun y at_ => ?_
    · dsimp only
      omega
    · obtain rfl := Worker.executing.inj at_
      refine ⟨own.size, ?_, by simp [place], by simpa using inside, fun _ => pos, fun at_ => ?_,
        fun at_ => ?_⟩
      · simp only [Execution.sequence, number]
        exact next
      · dsimp only at at_
        split at at_ <;> rcases at_ with at_ | at_ | ⟨_, at_⟩ <;> cases at_
      · dsimp only at at_
        split at at_ <;> rcases at_ with at_ | at_ | at_ | at_ <;> cases at_
  · cases move

theorem Replay.Aligned.run_markStreamed (aligned : w.Aligned rd b) (at_ : w.worker = .executing x)
    (move : x.run rd w .markStreamed = some w') : w'.Aligned rd b := by
  have own := aligned.execution x at_
  simp only [Execution.run] at move
  split at move
  · next stage =>
    obtain rfl := Option.some.inj move
    refine aligned.of_job aligned.snapshot ⟨aligned.cursor, aligned.inside⟩ aligned.rowIndex
      fun y at_ => ?_
    obtain rfl := Worker.executing.inj at_
    refine own.stays (fun at_ => by cases at_) (fun at_ => ?_)
      (fun _ => own.last (.inr (.inr (.inl stage))))
    rcases at_ with at_ | at_ | ⟨_, at_⟩ <;> cases at_
  · cases move

theorem Replay.Aligned.run {e : Activity} (pos : 0 < b) (aligned : w.Aligned rd b)
    (at_ : w.worker = .executing x) (move : x.run rd w e = some w') : w'.Aligned rd b := by
  have own := aligned.execution x at_
  cases e with
  | read => exact aligned.run_read at_ move
  | poll =>
    simp only [Execution.run] at move
    split at move
    · obtain rfl := Option.some.inj move
      exact aligned.goto ⟨own.size, own.start, own.place, own.inside, own.reading, own.full, own.last⟩
    · cases move
  | endOfSource => exact aligned.run_endOfSource at_ move
  | flush => exact aligned.run_flush at_ move
  | deliver ok => exact aligned.run_deliver at_ move
  | setCursor => exact aligned.run_setCursor pos at_ move
  | stop | complete =>
    simp only [Execution.run] at move
    split at move
    · obtain rfl := Option.some.inj move
      exact aligned.of_job aligned.snapshot ⟨aligned.cursor, aligned.inside⟩ aligned.rowIndex
        (fun _ at_ => by cases at_)
    · cases move
  | markStreamed => exact aligned.run_markStreamed at_ move
  | _ => cases move

theorem resent_rowIndex {ds : List BridgeDelivery} (rowIndex : ∀ d ∈ ds, d.rowIndex = d.sequence * b)
    (q : Nat) (ok : Bool) : ∀ d ∈ resent ds q ok, d.rowIndex = d.sequence * b := by
  intro d mem
  obtain ⟨e, old, sequence, index, -⟩ := mem_resent mem
  rw [sequence, index]
  exact rowIndex e old

theorem Replay.Aligned.resending {rest : List Nat} {e : Activity} (pos : 0 < b)
    (aligned : w.Aligned rd b) (keeps : keepsSize rd b w e)
    (move : Jobs.resending rd w rest e = some w') : w'.Aligned rd b := by
  cases e with
  | resendOne ok =>
    cases rest with
    | nil => cases move
    | cons q rest =>
      obtain rfl := Option.some.inj move
      exact aligned.of_job aligned.snapshot ⟨aligned.cursor, aligned.inside⟩
        (resent_rowIndex aligned.rowIndex q ok) (fun _ at_ => by cases at_)
  | resendEnd =>
    cases rest with
    | cons q rest => cases move
    | nil =>
      simp only [Jobs.resending] at move
      split at move
      · obtain rfl := Option.some.inj move
        exact aligned.of_job aligned.snapshot ⟨aligned.cursor, aligned.inside⟩ aligned.rowIndex
          (fun _ at_ => by cases at_)
      · next settled =>
        split at move
        · obtain rfl := Option.some.inj move
          exact aligned.of_job aligned.snapshot ⟨aligned.cursor, aligned.inside⟩ aligned.rowIndex
            (fun _ at_ => by cases at_)
        · next more =>
          obtain rfl := Option.some.inj move
          refine aligned.of_job aligned.config ⟨aligned.cursor, aligned.inside⟩ aligned.rowIndex
            fun x at_ => ?_
          obtain rfl := Worker.executing.inj at_
          exact Job.aligned pos aligned.config aligned.cursor aligned.inside
            (keeps (by simpa using settled) (by simpa using more))
  | _ => cases rest <;> cases move

theorem Replay.Aligned.idle {e : Activity} (pos : 0 < b) (aligned : w.Aligned rd b)
    (keeps : keepsSize rd b w e) (move : idleStep rd w e = some w') : w'.Aligned rd b := by
  have cursor := And.intro aligned.cursor aligned.inside
  cases e with
  | refreshDraft | resume =>
    simp only [idleStep] at move
    split at move
    · obtain rfl := Option.some.inj move
      exact aligned.of_job aligned.config cursor aligned.rowIndex aligned.execution
    · cases move
  | startDraft | resendFailed | cancelQueued =>
    simp only [idleStep] at move
    split at move
    · obtain rfl := Option.some.inj move
      exact aligned.of_job aligned.snapshot cursor aligned.rowIndex aligned.execution
    · cases move
  | retryFailed =>
    simp only [idleStep] at move
    split at move
    · obtain rfl := Option.some.inj move
      exact aligned.of_job aligned.config ⟨Nat.dvd_zero b, Nat.zero_le _⟩ aligned.rowIndex
        aligned.execution
    · cases move
  | retryDelivery q ok =>
    simp only [idleStep] at move
    split at move
    · obtain rfl := Option.some.inj move
      have rowIndex := resent_rowIndex aligned.rowIndex q ok
      split
      · split
        · exact aligned.of_job aligned.snapshot cursor rowIndex aligned.execution
        · exact aligned.of_job aligned.config cursor rowIndex aligned.execution
      · exact aligned.of_job aligned.snapshot cursor rowIndex aligned.execution
    · cases move
  | process lost =>
    simp only [idleStep] at move
    split at move
    · split at move
      · obtain rfl := Option.some.inj move
        exact aligned.of_job aligned.snapshot cursor aligned.rowIndex (fun _ at_ => by cases at_)
      · next mode =>
        obtain rfl := Option.some.inj move
        refine aligned.of_job aligned.snapshot cursor aligned.rowIndex fun x at_ => ?_
        obtain rfl := Worker.executing.inj at_
        exact Job.aligned pos aligned.snapshot aligned.cursor aligned.inside
          (keeps (by simpa using mode))
    · cases move
  | _ => cases move

/-- **One step stays in step with the batches.** -/
theorem Replay.Aligned.step {e : Activity} (pos : 0 < b) (aligned : w.Aligned rd b)
    (keeps : keepsSize rd b w e) (move : replayStep rd w e = some w') : w'.Aligned rd b := by
  have cursor := And.intro aligned.cursor aligned.inside
  have next (move : w.next rd e = some w') : w'.Aligned rd b := by
    unfold Replay.next at move
    split at move
    · next at_ => exact aligned.run pos at_ move
    · exact aligned.resending pos keeps move
    · exact aligned.idle pos keeps move
  cases e with
  | edit config =>
    simp only [replayStep] at move
    split at move
    · obtain rfl := Option.some.inj move
      exact ⟨keeps, aligned.snapshot, aligned.cursor, aligned.inside, aligned.rowIndex,
        aligned.execution⟩
    · cases move
  | skip sequences =>
    obtain rfl := Option.some.inj move
    refine aligned.of_job aligned.snapshot cursor (fun d mem => ?_) aligned.execution
    rcases mem_skipDeliveries.mp mem with old | ⟨s, -, -, rfl⟩
    · exact aligned.rowIndex d old
    · have size : max 1 w.job.snapshot.batchSize = b := by rw [aligned.snapshot]; omega
      exact congrArg (s * ·) size
  | crash =>
    obtain rfl := Option.some.inj move
    exact aligned.of_job aligned.snapshot cursor aligned.rowIndex (fun _ at_ => by cases at_)
  | cancel | fail =>
    simp only [replayStep] at move
    split at move
    · cases move
    · obtain rfl := Option.some.inj move
      exact aligned.of_job aligned.snapshot cursor aligned.rowIndex (fun _ at_ => by cases at_)
  | _ => exact next move

end Steps

/-! ## Where the reading goes on -/

/-- The row before the cursor is the one that was checkpointed. -/
def Job.Checkpointed (job : Job) : Prop :=
  ∀ row, job.keyset = some row → row + 1 = job.cursorOffset

/-- A stored key leads the engine to the row behind its own: JSON keeps what the engine compares. A
binary key, for one, does not. -/
def KeysReturn (rows : Nat) (after : Nat → Nat) : Prop := ∀ row < rows, after row = row + 1

/-- A source read by its key goes on where the job stopped. -/
theorem Job.Checkpointed.readsOn {job : Job} (checkpointed : job.Checkpointed) {rows : Nat}
    {after : Nat → Nat} (returned : KeysReturn rows after) (inside : job.cursorOffset ≤ rows)
    (total : Option Nat) : job.ReadsOn (.byKeyset rows total after) := by
  unfold Job.ReadsOn Reading.byKeyset
  dsimp only
  split
  · next zero => exact zero.symm
  · split
    · next row at_ =>
      have here := checkpointed row at_
      rw [returned row (by omega), here]
    · rfl

theorem Replay.Aligned.checkpointed {rd : Reading} {b : Nat} {w w' : Replay} {e : Activity}
    (keyed : rd.keyed = true) (pos : 0 < b) (aligned : w.Aligned rd b)
    (checkpointed : w.job.Checkpointed) (move : replayStep rd w e = some w') :
    w'.job.Checkpointed := by
  intro row at_
  have cursor := (replayStep_job move).cursor
  generalize w'.job.cursorOffset = offset at cursor ⊢
  generalize w'.job.keyset = keyset at cursor at_
  cases cursor with
  | same => exact checkpointed row at_
  | reset => cases at_
  | @set x stop worker stage =>
    have own := aligned.execution x worker
    have full := own.full (.inr (.inr ⟨stop, stage⟩))
    have place := own.place
    simp only [keyed, if_true, Option.some.injEq] at at_
    omega

/-! ## The rows of a number -/

/-- The source says how many rows it has, or nothing. -/
def Counts (rd : Reading) (total : Option Nat) : Prop :=
  total = none ∨ total = some rd.rows

/-- What is recorded under a number are the rows of that number. -/
structure Replay.Ranged (rd : Reading) (b : Nat) (w : Replay) : Prop where
  total : Counts rd w.job.totalCount
  rows : ∀ d ∈ w.job.deliveries, ∀ row < rd.rows, d.holds row ↔ row / b = d.sequence

section Rows

variable {rd : Reading} {b : Nat} {w w' : Replay}

/-- The rows from a multiple of the batch size on, up to the next one or to the end. -/
theorem div_eq_iff_between (pos : 0 < b) {q n row : Nat} (lt : row < rd.rows)
    (size : n = b ∨ q * b + n = rd.rows ∧ n < b) :
    row / b = q ↔ q * b ≤ row ∧ row < q * b + n := by
  rw [Nat.div_eq_iff pos]
  rcases size with rfl | ⟨all, short⟩
  · omega
  · omega

/-- A batch that is about to be sent, or passed over, has the rows of its number. -/
theorem Execution.Aligned.holds_iff {x : Execution} (pos : 0 < b) (aligned : x.Aligned rd b)
    {last : Bool} (stage : x.stage = .flushing last ∨ x.stage = .sending last) {row : Nat}
    (lt : row < rd.rows) : x.holds row ↔ row / b = x.sequence := by
  have first : x.first = x.sequence * b := aligned.place.trans aligned.start
  rw [div_eq_iff_between pos lt (n := x.buffered), Execution.holds, first]
  cases last with
  | false => exact .inl (aligned.full (stage.imp_right .inl))
  | true =>
    have last := aligned.last (stage.imp_right .inl)
    exact .inr (first ▸ last)

/-- A skipped number stands for its rows. -/
theorem skipped_holds_iff (pos : 0 < b) {job : Job} (snapshot : job.snapshot.batchSize = b)
    (total : Counts rd job.totalCount) (s : Nat) {row : Nat} (lt : row < rd.rows) :
    (skipped job s).holds row ↔ row / b = s := by
  have size : max 1 job.snapshot.batchSize = b := by omega
  have whole : b = b ∨ s * b + b = rd.rows ∧ b < b := .inl rfl
  rcases total with none_ | all
  · rw [div_eq_iff_between pos lt whole]
    simp [skipped, BridgeDelivery.holds, none_, size]
  · by_cases last : s + 1 = (rd.rows + b - 1) / b
    · have lower : (s + 1) * b ≤ rd.rows + b - 1 := by
        rw [last]
        exact Nat.div_mul_le_self _ _
      have upper : rd.rows + b - 1 < (s + 1 + 1) * b := by
        rw [← Nat.div_lt_iff_lt_mul pos]
        omega
      simp only [Nat.add_mul, Nat.one_mul] at lower upper
      have : (skipped job s).holds row ↔ s * b ≤ row ∧ row < s * b + (rd.rows - s * b) := by
        simp [skipped, BridgeDelivery.holds, all, size, last]
      rw [this, Nat.div_eq_iff pos]
      omega
    · rw [div_eq_iff_between pos lt whole]
      simp [skipped, BridgeDelivery.holds, all, size, last]

/-- Where the numbers are in step, what is recorded under a batch's number is that batch. -/
theorem Replay.Ranged.fits (pos : 0 < b) (ranged : w.Ranged rd b) {x : Execution}
    (aligned : x.Aligned rd b) {last : Bool}
    (stage : x.stage = .flushing last ∨ x.stage = .sending last) :
    x.Matches rd w.job.deliveries := by
  intro d mem or_
  have number : d.sequence = x.sequence := by
    rcases or_ with same | ⟨row, lt, there, there'⟩
    · exact same
    · exact ((ranged.rows d mem row lt).mp there).symm.trans
        ((aligned.holds_iff pos stage lt).mp there')
  refine ⟨number, fun row lt => ?_⟩
  rw [ranged.rows d mem row lt, aligned.holds_iff pos stage lt, number]

/-- **In step with the batches, no number and no row is taken for another batch's.** -/
theorem keepsBatches_of_keepsSize (pos : 0 < b) {e : Activity} (aligned : w.Aligned rd b)
    (ranged : w.Ranged rd b) (keeps : keepsSize rd b w e) (move : replayStep rd w e = some w') :
    keepsBatches rd w e := by
  cases e with
  | flush =>
    intro x at_ _
    simp only [replayStep, Replay.next, at_, Execution.run] at move
    split at move
    · next last stage => exact ranged.fits pos (aligned.execution x at_) (.inl stage)
    · cases move
  | deliver ok =>
    intro x at_
    simp only [replayStep, Replay.next, at_, Execution.run] at move
    split at move
    · next last stage => exact ranged.fits pos (aligned.execution x at_) (.inr stage)
    · cases move
  | skip sequences =>
    intro s _ d mem other row lt there there'
    have number := (ranged.rows d mem row lt).mp there
    exact other (number.symm.trans
      ((skipped_holds_iff pos aligned.snapshot ranged.total s lt).mp there'))
  | process lost => exact keeps
  | resendEnd => exact keeps
  | _ => trivial

theorem Replay.Ranged.step (pos : 0 < b) {e : Activity} (total : Counts rd rd.total)
    (aligned : w.Aligned rd b) (ranged : w.Ranged rd b) (move : replayStep rd w e = some w') :
    w'.Ranged rd b := by
  obtain ⟨records, count, -⟩ := replayStep_job move
  refine ⟨?_, fun d mem row lt => ?_⟩
  · rcases count with same | read
    · exact same ▸ ranged.total
    · exact read ▸ total
  · generalize w'.job.deliveries = ds at records mem
    cases records with
    | same => exact ranged.rows d mem row lt
    | @deliver x last ok at_ stage _ =>
      have own := (aligned.execution x at_).holds_iff pos (.inr stage) lt
      rcases mem_recordDelivery mem with ⟨old, -⟩ | ⟨rfl, -⟩ | ⟨e, -, -, rfl⟩
      · exact ranged.rows d old row lt
      · exact own
      · exact own
    | resent q ok _ =>
      obtain ⟨e, old, sequence, -, first, count⟩ := mem_resent mem
      simpa [BridgeDelivery.holds, sequence, first, count] using ranged.rows e old row lt
    | skip _ =>
      rcases mem_skipDeliveries.mp mem with old | ⟨s, -, -, rfl⟩
      · exact ranged.rows d old row lt
      · exact skipped_holds_iff pos aligned.snapshot ranged.total s lt

end Rows

section Runs

variable {rd : Reading} {b : Nat} {w t : Replay} {es : List Activity}

/-- **A replay whose batch size stays skips no row.** -/
theorem accounted_of_keepsSize (pos : 0 < b)
    (total : Counts rd rd.total ∧ Counts rd w.job.totalCount) (fresh : w.Fresh)
    (size : w.job.snapshot.batchSize = b ∧ w.config.batchSize = b)
    (run : Run (replayStep rd) (keepsSize rd b) w es t) : t.Accounted rd := by
  let Inv (w : Replay) : Prop := w.Aligned rd b ∧ w.Ranged rd b ∧ w.Sound rd
  have start : Inv w :=
    ⟨fresh.aligned size.1 size.2, ⟨total.2, by simp [fresh.deliveries]⟩, fresh.sound⟩
  have keep : ∀ w e w', keepsSize rd b w e → Inv w → replayStep rd w e = some w' → Inv w' := by
    rintro w e w' keeps ⟨aligned, ranged, sound⟩ move
    exact ⟨aligned.step pos keeps move, ranged.step pos total.1 aligned move,
      sound.step (keepsBatches_of_keepsSize pos aligned ranged keeps move) move⟩
  exact (run.invariant start keep).2.2.accounted

/-- The bridge is saved with the same batch size. -/
def sameSize (b : Nat) (_ : Replay) : Activity → Prop
  | .edit config => config.batchSize = b
  | _ => True

/-- A source read by its key is read on from where the job stopped, in every run of that size. -/
theorem keepsSize_byKeyset {rows : Nat} {count : Option Nat} {after : Nat → Nat}
    (returned : KeysReturn rows after) (pos : 0 < b) (fresh : w.Fresh)
    (size : w.job.snapshot.batchSize = b ∧ w.config.batchSize = b)
    (run : Run (replayStep (.byKeyset rows count after)) (sameSize b) w es t) :
    Run (replayStep (.byKeyset rows count after)) (keepsSize (.byKeyset rows count after) b)
      w es t := by
  have aligned : w.Aligned (.byKeyset rows count after) b := fresh.aligned size.1 size.2
  have checkpointed : w.job.Checkpointed := fun row at_ => by simp [fresh.keyset] at at_
  clear fresh size
  induction run with
  | nil w => exact .nil w
  | @cons w v u e es same move _ ih =>
    have keeps : keepsSize (.byKeyset rows count after) b w e := by
      have on := checkpointed.readsOn returned aligned.inside count
      cases e with
      | edit config => exact same
      | process lost => exact fun _ => on
      | resendEnd => exact fun _ _ => on
      | _ => trivial
    exact .cons keeps move
      (ih (aligned.step pos keeps move) (aligned.checkpointed rfl pos checkpointed move))

end Runs

/-- The four rows, read by their key. -/
def Resized.keyed : Reading := .byKeyset 4 (some 4) Nat.succ

end Syncle.Jobs
