import Syncle.Jobs.ReplayAligned

/-!
# A replay that aborts on a failure, and the failure it is to meet again

With `onError=abort` a run stops at the first delivery that fails. The cursor, though, is moved past a
full batch before the run stops, whatever became of it. `retryFailed` starts over, and a resend goes
on only when nothing is left that failed; a plain start goes on from the cursor, behind which the
failed batch is then left. Only the last batch of the source, when it is not full, is met again.

`meetsFailure` is what is missing: a run is not gone on with from a cursor that has a failed delivery
behind it. In a run that keeps to it no row is sent while a delivery before it has failed, and a job
that has completed has no failed delivery: `abortsInOrder_of_meetsFailure`.
-/

namespace Syncle.Jobs

open Lib
open Cdc (OnError)

/-- **Never past a failure:** what is sent has no failed delivery before it, and what has completed
has none at all. -/
structure Replay.AbortsInOrder (w : Replay) : Prop where
  sending : ∀ x last, w.worker = .executing x → x.stage = .sending last →
    ∀ d ∈ w.job.deliveries, d.status = .failed → x.start ≤ d.rowIndex
  completed : w.job.status = .completed → ∀ d ∈ w.job.deliveries, d.status ≠ .failed

/-- No failed delivery is behind the cursor. -/
def Job.NoneBehind (job : Job) : Prop :=
  ∀ d ∈ job.deliveries, d.status = .failed → job.cursorOffset ≤ d.rowIndex

/-- A step of a replay that aborts on failures, with one batch size: a run starts with no failure
behind its cursor. -/
def meetsFailure (rd : Reading) (b : Nat) (w : Replay) (e : Activity) : Prop :=
  keepsSize rd b w e ∧
    match e with
    | .edit config => config.onError = .abort
    | .process lost => (w.job.resend && !lost) = false → w.job.NoneBehind
    | _ => True

instance (job : Job) : Decidable job.NoneBehind :=
  inferInstanceAs (Decidable (∀ d ∈ job.deliveries, d.status = .failed → job.cursorOffset ≤ d.rowIndex))

instance (rd : Reading) (b : Nat) (w : Replay) (e : Activity) : Decidable (meetsFailure rd b w e) :=
  match e with
  | .edit config => inferInstanceAs (Decidable (_ ∧ config.onError = .abort))
  | .process lost => inferInstanceAs (Decidable (_ ∧
      ((w.job.resend && !lost) = false → w.job.NoneBehind)))
  | .resendEnd | .refreshDraft | .startDraft | .resume | .retryFailed | .resendFailed
  | .retryDelivery _ _ | .skip _ | .cancelQueued | .read | .poll | .endOfSource | .flush
  | .deliver _ | .setCursor | .stop | .markStreamed | .complete | .resendOne _ | .cancel | .fail
  | .crash => inferInstanceAs (Decidable (_ ∧ True))

/-! ## The invariant -/

/-- Where the failed deliveries are, seen from an execution. -/
structure Execution.Meets (x : Execution) (ds : List BridgeDelivery) : Prop where
  abort : x.config.onError = .abort
  done : ∀ q ∈ x.done, ∀ d ∈ ds, d.sequence = q → d.status ≠ .failed
  ahead : (x.stage = .reading ∨ (∃ last, x.stage = .flushing last) ∨ ∃ last, x.stage = .sending last) →
    ∀ d ∈ ds, d.status = .failed → x.sequence ≤ d.sequence
  unsettled : ∀ last, x.stage = .sending last → x.sequence ∉ x.done
  nonempty : (∃ last, x.stage = .flushing last) ∨ (∃ last, x.stage = .sending last) →
    0 < x.buffered
  moving : x.stage = .moving false → ∀ d ∈ ds, d.status = .failed → x.sequence < d.sequence
  ended : x.stage = .ended ∨ x.stage = .streamed → ∀ d ∈ ds, d.status ≠ .failed

structure Replay.Meets (rd : Reading) (b : Nat) (w : Replay) : Prop where
  abort : w.config.onError = .abort ∧ w.job.snapshot.onError = .abort
  numbered : Numbered w.job.deliveries
  /-- what failed was sent, and so has rows -/
  inside : ∀ d ∈ w.job.deliveries, d.status = .failed → d.sequence * b < rd.rows
  rest : ∀ rest, w.worker = .resending rest → ∀ q ∈ rest, q * b < rd.rows
  working : w.worker ≠ .idle → w.job.status = .running
  completed : w.job.status = .completed → ∀ d ∈ w.job.deliveries, d.status ≠ .failed
  execution : ∀ x, w.worker = .executing x → x.Meets w.job.deliveries

section Steps

variable {rd : Reading} {b : Nat} {w w' : Replay}

theorem Replay.Fresh.meets (fresh : w.Fresh)
    (abort : w.config.onError = .abort ∧ w.job.snapshot.onError = .abort) : w.Meets rd b where
  abort := abort
  numbered := by rw [fresh.deliveries]; exact nofun
  inside := by simp [fresh.deliveries]
  rest l at_ := by simp [fresh.worker] at at_
  working busy := absurd fresh.worker busy
  completed at_ := by rcases fresh.status with eq | eq <;> simp [eq] at at_
  execution x at_ := by simp [fresh.worker] at at_

theorem Replay.Meets.abortsInOrder (aligned : w.Aligned rd b) (meets : w.Meets rd b) :
    w.AbortsInOrder where
  sending x last at_ stage d mem failed := by
    have le := (meets.execution x at_).ahead (.inr (.inr ⟨last, stage⟩)) d mem failed
    rw [(aligned.execution x at_).start, aligned.rowIndex d mem]
    exact Nat.mul_le_mul_right b le
  completed := meets.completed

theorem Replay.Meets.of_job (meets : w.Meets rd b) {job : Job} {worker : Worker}
    (deliveries : job.deliveries = w.job.deliveries) (abort : job.snapshot.onError = .abort)
    (rest : ∀ rest, worker = .resending rest → ∀ q ∈ rest, q * b < rd.rows)
    (working : worker ≠ .idle → job.status = .running)
    (completed : job.status = .completed → ∀ d ∈ w.job.deliveries, d.status ≠ .failed)
    (execution : ∀ x, worker = .executing x → x.Meets w.job.deliveries) :
    Replay.Meets rd b { w with job := job, worker := worker } where
  abort := ⟨meets.abort.1, abort⟩
  numbered := by simpa only [deliveries] using meets.numbered
  inside := by simpa only [deliveries] using meets.inside
  rest := rest
  working := working
  completed := by simpa only [deliveries] using completed
  execution := by simpa only [deliveries] using execution

/-- An execution starts with every failure ahead of it. -/
theorem Replay.Meets.started (aligned : w.Aligned rd b) (meets : w.Meets rd b)
    {job : Job} (deliveries : job.deliveries = w.job.deliveries)
    (cursorOffset : job.cursorOffset = w.job.cursorOffset)
    (config : job.snapshot.batchSize = b ∧ job.snapshot.onError = .abort)
    (none_ : w.job.NoneBehind) : (job.execution rd).Meets w.job.deliveries where
  abort := config.2
  done q mem d there same failed := by
    obtain ⟨d', there', same', settled⟩ := mem_settledSequences.mp mem
    obtain rfl := meets.numbered d there d' (deliveries ▸ there') (same.trans same'.symm)
    exact settled failed
  ahead _ d mem failed := by
    have le := none_ d mem failed
    rw [aligned.rowIndex d mem, ← cursorOffset] at le
    have size : (job.execution rd).config.batchSize = b := config.1
    show job.cursorOffset / (job.execution rd).config.batchSize ≤ d.sequence
    rw [size]
    exact Nat.div_le_of_le_mul (by rwa [Nat.mul_comm])
  unsettled last at_ := by cases at_
  nonempty at_ := by rcases at_ with ⟨_, at_⟩ | ⟨_, at_⟩ <;> cases at_
  moving at_ := by cases at_
  ended at_ := by rcases at_ with at_ | at_ <;> cases at_

theorem Replay.Meets.goto (meets : w.Meets rd b) (busy : w.worker ≠ .idle) {x : Execution}
    (there : x.Meets w.job.deliveries) : Replay.Meets rd b { w with worker := .executing x } :=
  meets.of_job rfl meets.abort.2 (fun _ at_ => by cases at_) (fun _ => meets.working busy)
    meets.completed fun _ at_ => Worker.executing.inj at_ ▸ there

/-- Nothing that was sent comes after the last batch of the source. -/
theorem Execution.Aligned.sequence_le {x : Execution} (aligned : x.Aligned rd b)
    (all : x.first + x.buffered = rd.rows ∧ x.buffered < b) {q : Nat} (inside : q * b < rd.rows) :
    q ≤ x.sequence := by
  have first : x.first = x.sequence * b := aligned.place.trans aligned.start
  by_contra after
  have := Nat.mul_le_mul_right b (Nat.succ_le_of_lt (Nat.lt_of_not_le after))
  simp only [Nat.succ_eq_add_one, Nat.add_mul, Nat.one_mul] at this
  omega

/-- A flush that does not stop the run, and after which the batch has not failed. -/
theorem Execution.Meets.flushed {x : Execution} {ds : List BridgeDelivery} (aligned : x.Aligned rd b)
    (inside : ∀ d ∈ ds, d.status = .failed → d.sequence * b < rd.rows) {last : Bool}
    (stage : x.stage = .flushing last ∨ x.stage = .sending last) (stop : Bool)
    (abort : x.config.onError = .abort)
    (done : ∀ q ∈ x.done, ∀ d ∈ ds, d.sequence = q → d.status ≠ .failed)
    (past : stop = false → ∀ d ∈ ds, d.status = .failed → x.sequence < d.sequence) :
    (x.flushed last stop).Meets ds := by
  cases last with
  | false =>
    refine ⟨abort, done, fun at_ => ?_, fun _ at_ => (by cases at_), fun at_ => ?_, fun at_ => ?_,
      fun at_ => ?_⟩
    · rcases at_ with at_ | ⟨_, at_⟩ | ⟨_, at_⟩ <;> cases at_
    · rcases at_ with ⟨_, at_⟩ | ⟨_, at_⟩ <;> cases at_
    · exact past (Stage.moving.inj at_)
    · rcases at_ with at_ | at_ <;> cases at_
  | true =>
    refine ⟨abort, done, fun at_ => ?_, fun _ at_ => ?_, fun at_ => ?_, fun at_ => ?_,
      fun at_ d mem failed => ?_⟩
    · rcases at_ with at_ | ⟨_, at_⟩ | ⟨_, at_⟩ <;> cases stop <;> cases at_
    · cases stop <;> cases at_
    · rcases at_ with ⟨_, at_⟩ | ⟨_, at_⟩ <;> cases stop <;> cases at_
    · cases stop <;> cases at_
    · cases stop with
      | true => rcases at_ with at_ | at_ <;> cases at_
      | false =>
        have all := aligned.last (stage.imp_right .inl)
        have le := aligned.sequence_le all (inside d mem failed)
        exact absurd (past rfl d mem failed) (by omega)

/-! ### What the worker does next -/

variable {x : Execution}

theorem Replay.Meets.run_read (meets : w.Meets rd b) (at_ : w.worker = .executing x)
    (move : x.run rd w .read = some w') : w'.Meets rd b := by
  have busy : w.worker ≠ .idle := by simp [at_]
  have own := meets.execution x at_
  simp only [Execution.run] at move
  split at move
  · next more =>
    obtain rfl := Option.some.inj move
    refine meets.goto busy ⟨own.abort, own.done, fun _ => own.ahead (.inl more.1), fun _ at_ => ?_,
      fun _ => Nat.succ_pos _, fun at_ => ?_, fun at_ => ?_⟩
    · dsimp only at at_
      split at at_ <;> cases at_
    · dsimp only at at_
      split at at_ <;> cases at_
    · dsimp only at at_
      split at at_ <;> rcases at_ with at_ | at_ <;> cases at_
  · cases move

theorem Replay.Meets.run_poll (meets : w.Meets rd b) (at_ : w.worker = .executing x)
    (move : x.run rd w .poll = some w') : w'.Meets rd b := by
  have busy : w.worker ≠ .idle := by simp [at_]
  have own := meets.execution x at_
  simp only [Execution.run] at move
  split at move
  · next where_ =>
    obtain rfl := Option.some.inj move
    refine meets.goto busy ⟨own.abort, fun q mem d there same failed => ?_, own.ahead,
      fun last at_ => ?_, own.nonempty, own.moving, own.ended⟩
    · rcases List.mem_append.mp mem with mem | mem
      · exact own.done q mem d there same failed
      · obtain ⟨d', there', same', skipped⟩ := mem_skippedSequences.mp mem
        obtain rfl := meets.numbered d there d' there' (same.trans same'.symm)
        simp [skipped] at failed
    · have at_ : x.stage = .sending last := at_
      simp [at_] at where_
  · cases move

theorem Replay.Meets.run_endOfSource (aligned : w.Aligned rd b) (meets : w.Meets rd b)
    (at_ : w.worker = .executing x) (move : x.run rd w .endOfSource = some w') : w'.Meets rd b := by
  have busy : w.worker ≠ .idle := by simp [at_]
  have own := meets.execution x at_
  have place := aligned.execution x at_
  simp only [Execution.run] at move
  split at move
  · next all =>
    obtain rfl := Option.some.inj move
    have ahead := own.ahead (.inl all.1)
    refine meets.goto busy ⟨own.abort, own.done, fun _ => ahead, fun _ at_ => ?_, fun at_ => ?_,
      fun at_ => ?_, fun at_ d mem failed => ?_⟩
    · dsimp only at at_
      split at at_ <;> cases at_
    · dsimp only at at_ ⊢
      split at at_
      · rcases at_ with ⟨_, at_⟩ | ⟨_, at_⟩ <;> cases at_
      · omega
    · dsimp only at at_
      split at at_ <;> cases at_
    · -- the last batch was full: what failed would have to be past the end
      dsimp only at at_
      split at at_
      · next empty =>
        have inside := meets.inside d mem failed
        have le := Nat.mul_le_mul_right b (ahead d mem failed)
        have first : x.first = x.sequence * b := place.place.trans place.start
        omega
      · rcases at_ with at_ | at_ <;> cases at_
  · cases move

theorem Replay.Meets.run_flush (aligned : w.Aligned rd b) (meets : w.Meets rd b)
    (at_ : w.worker = .executing x) (move : x.run rd w .flush = some w') : w'.Meets rd b := by
  have busy : w.worker ≠ .idle := by simp [at_]
  have own := meets.execution x at_
  have place := aligned.execution x at_
  simp only [Execution.run] at move
  split at move
  · next last stage =>
    obtain rfl := Option.some.inj move
    have ahead := own.ahead (.inr (.inl ⟨last, stage⟩))
    split
    · next settled =>
      have settled : x.sequence ∈ x.done := by simpa using settled
      refine meets.goto busy (Execution.Meets.flushed place meets.inside (.inl stage) false own.abort
        own.done fun _ d mem failed => ?_)
      refine Nat.lt_of_le_of_ne (ahead d mem failed) fun same => ?_
      exact own.done _ settled d mem same.symm failed
    · next unsettled =>
      have unsettled : x.sequence ∉ x.done := by simpa using unsettled
      refine meets.goto busy ⟨own.abort, own.done, fun _ => ahead, fun _ _ => unsettled,
        fun _ => own.nonempty (.inl ⟨last, stage⟩), fun at_ => (by cases at_), fun at_ => ?_⟩
      rcases at_ with at_ | at_ <;> cases at_
  · cases move

theorem Replay.Meets.run_deliver {ok : Bool} (aligned : w.Aligned rd b) (meets : w.Meets rd b)
    (at_ : w.worker = .executing x) (move : x.run rd w (.deliver ok) = some w') :
    w'.Meets rd b := by
  have busy : w.worker ≠ .idle := by simp [at_]
  have own := meets.execution x at_
  have place := aligned.execution x at_
  simp only [Execution.run] at move
  split at move
  · next last stage =>
    obtain rfl := Option.some.inj move
    have ahead := own.ahead (.inr (.inr ⟨last, stage⟩))
    have fresh := own.unsettled last stage
    have nonempty := own.nonempty (.inr ⟨last, stage⟩)
    have start := place.start
    have first := place.place
    have within := place.inside
    have inside : ∀ d ∈ recordDelivery w.job.deliveries (x.delivery ok), d.status = .failed →
        d.sequence * b < rd.rows := by
      intro d mem failed
      rcases mem_recordDelivery mem with ⟨old, -⟩ | ⟨rfl, -⟩ | ⟨e, -, -, rfl⟩
      · exact meets.inside d old failed
      · show x.sequence * b < rd.rows
        omega
      · show x.sequence * b < rd.rows
        omega
    have done : ∀ q ∈ x.done, ∀ d ∈ recordDelivery w.job.deliveries (x.delivery ok),
        d.sequence = q → d.status ≠ .failed := by
      intro q mem d there same
      rcases mem_recordDelivery there with ⟨old, -⟩ | ⟨rfl, -⟩ | ⟨e, -, -, rfl⟩
      · exact own.done q mem d old same
      · have own_number : x.sequence = q := same
        exact absurd (own_number ▸ mem) fresh
      · have own_number : x.sequence = q := same
        exact absurd (own_number ▸ mem) fresh
    refine ⟨meets.abort, meets.numbered.record _, inside, fun _ at_ => (by cases at_),
      fun _ => meets.working busy, fun at_' => ?_, fun y at_' => ?_⟩
    · cases at_'.symm.trans (meets.working busy)
    · obtain rfl := Worker.executing.inj at_'
      refine Execution.Meets.flushed place inside (.inr stage) _ own.abort done
        fun goes d mem failed => ?_
      -- the run goes on, so the batch went through
      have went : ok = true := by simpa [own.abort] using goes
      rcases mem_recordDelivery mem with ⟨old, other⟩ | ⟨rfl, -⟩ | ⟨e, -, -, rfl⟩
      · exact Nat.lt_of_le_of_ne (ahead d old failed) (Ne.symm other)
      · simp [Execution.delivery, went] at failed
      · simp [Execution.delivery, went] at failed
  · cases move

theorem Replay.Meets.run_setCursor (pos : 0 < b) (aligned : w.Aligned rd b) (meets : w.Meets rd b)
    (at_ : w.worker = .executing x) (move : x.run rd w .setCursor = some w') : w'.Meets rd b := by
  have busy : w.worker ≠ .idle := by simp [at_]
  have own := meets.execution x at_
  have place := aligned.execution x at_
  simp only [Execution.run] at move
  split at move
  · next stop stage =>
    obtain rfl := Option.some.inj move
    have number := (place.moved pos stage).2
    refine meets.of_job rfl meets.abort.2 (fun _ at_ => by cases at_)
      (fun _ => meets.working busy) meets.completed fun y at_' => ?_
    obtain rfl := Worker.executing.inj at_'
    refine ⟨own.abort, own.done, fun at_ d mem failed => ?_, fun _ at_ => ?_, fun at_ => ?_,
      fun at_ => ?_, fun at_ => ?_⟩
    · cases stop with
      | true => rcases at_ with at_ | ⟨_, at_⟩ | ⟨_, at_⟩ <;> cases at_
      | false =>
        have past := own.moving stage d mem failed
        simp only [Execution.sequence, number]
        exact past
    · cases stop <;> cases at_
    · rcases at_ with ⟨_, at_⟩ | ⟨_, at_⟩ <;> cases stop <;> cases at_
    · cases stop <;> cases at_
    · rcases at_ with at_ | at_ <;> cases stop <;> cases at_
  · cases move

theorem Replay.Meets.run_markStreamed (meets : w.Meets rd b) (at_ : w.worker = .executing x)
    (move : x.run rd w .markStreamed = some w') : w'.Meets rd b := by
  have busy : w.worker ≠ .idle := by simp [at_]
  have own := meets.execution x at_
  simp only [Execution.run] at move
  split at move
  · next stage =>
    obtain rfl := Option.some.inj move
    refine meets.of_job rfl meets.abort.2 (fun _ at_ => by cases at_)
      (fun _ => meets.working busy) meets.completed fun y at_' => ?_
    obtain rfl := Worker.executing.inj at_'
    refine ⟨own.abort, own.done, fun at_ => ?_, fun _ at_ => (by cases at_), fun at_ => ?_,
      fun at_ => (by cases at_), fun _ => own.ended (.inl stage)⟩
    · rcases at_ with at_ | ⟨_, at_⟩ | ⟨_, at_⟩ <;> cases at_
    · rcases at_ with ⟨_, at_⟩ | ⟨_, at_⟩ <;> cases at_
  · cases move

theorem Replay.Meets.run_complete (meets : w.Meets rd b) (at_ : w.worker = .executing x)
    (move : x.run rd w .complete = some w') : w'.Meets rd b := by
  have own := meets.execution x at_
  simp only [Execution.run] at move
  split at move
  · next stage =>
    obtain rfl := Option.some.inj move
    exact meets.of_job rfl meets.abort.2 (fun _ at_ => by cases at_) (fun idle => absurd rfl idle)
      (fun _ => own.ended (.inr stage)) (fun _ at_ => by cases at_)
  · cases move

/-- **What the worker does next** leaves every failure ahead. -/
theorem Replay.Meets.run {e : Activity} (pos : 0 < b) (aligned : w.Aligned rd b)
    (meets : w.Meets rd b) (at_ : w.worker = .executing x) (move : x.run rd w e = some w') :
    w'.Meets rd b := by
  cases e with
  | read => exact meets.run_read at_ move
  | poll => exact meets.run_poll at_ move
  | endOfSource => exact meets.run_endOfSource aligned at_ move
  | flush => exact meets.run_flush aligned at_ move
  | deliver ok => exact meets.run_deliver aligned at_ move
  | setCursor => exact meets.run_setCursor pos aligned at_ move
  | stop =>
    simp only [Execution.run] at move
    split at move
    · obtain rfl := Option.some.inj move
      exact meets.of_job rfl meets.abort.2 (fun _ at_ => by cases at_) (fun idle => absurd rfl idle)
        (fun at_ => by cases at_) (fun _ at_ => by cases at_)
    · cases move
  | markStreamed => exact meets.run_markStreamed at_ move
  | complete => exact meets.run_complete at_ move
  | _ => cases move

/-- A delivery that is sent again had been sent. -/
theorem inside_resent {ds : List BridgeDelivery}
    (inside : ∀ d ∈ ds, d.status = .failed → d.sequence * b < rd.rows) {q : Nat}
    (sent : q * b < rd.rows) (ok : Bool) :
    ∀ d ∈ resent ds q ok, d.status = .failed → d.sequence * b < rd.rows := by
  intro d mem failed
  obtain ⟨e, old, rfl⟩ := List.mem_map.mp mem
  split at failed
  · next same =>
    simp only [same, if_true]
    exact sent
  · next other =>
    simp only [other, if_false]
    exact inside e old failed

theorem not_failed_of_anyFailed {ds : List BridgeDelivery} (none_ : anyFailed ds = false) :
    ∀ d ∈ ds, d.status ≠ .failed := by
  simpa [anyFailed] using none_

theorem Replay.Meets.resending {rest : List Nat} {e : Activity} (aligned : w.Aligned rd b)
    (meets : w.Meets rd b) (at_ : w.worker = .resending rest)
    (move : Jobs.resending rd w rest e = some w') : w'.Meets rd b := by
  have running := meets.working (by simp [at_])
  cases e with
  | resendOne ok =>
    cases rest with
    | nil => cases move
    | cons q rest =>
      obtain rfl := Option.some.inj move
      have sent := meets.rest _ at_
      refine ⟨meets.abort, meets.numbered.resent q ok,
        inside_resent meets.inside (sent q List.mem_cons_self) ok, fun l at_' q' mem => ?_,
        fun _ => running, fun at_' => (by cases at_'.symm.trans running), fun _ at_' => (by cases at_')⟩
      obtain rfl := Worker.resending.inj at_'
      exact sent q' (List.mem_cons_of_mem q mem)
  | resendEnd =>
    cases rest with
    | cons q rest => cases move
    | nil =>
      simp only [Jobs.resending] at move
      split at move
      · obtain rfl := Option.some.inj move
        exact meets.of_job rfl meets.abort.2 (fun _ at_ => by cases at_) (fun idle => absurd rfl idle)
          (fun at_ => by cases at_) (fun _ at_ => by cases at_)
      · next settled =>
        have none_ := not_failed_of_anyFailed (by simpa using settled)
        split at move
        · obtain rfl := Option.some.inj move
          exact meets.of_job rfl meets.abort.2 (fun _ at_ => by cases at_)
            (fun idle => absurd rfl idle) (fun _ => none_) (fun _ at_ => by cases at_)
        · obtain rfl := Option.some.inj move
          refine meets.of_job rfl meets.abort.1 (fun _ at_ => by cases at_) (fun _ => rfl)
            (fun at_ => by cases at_) fun x at_' => ?_
          obtain rfl := Worker.executing.inj at_'
          exact meets.started aligned rfl rfl ⟨aligned.config, meets.abort.1⟩
            fun d mem failed => absurd failed (none_ d mem)
  | _ => cases rest <;> cases move

theorem Replay.Meets.idle {e : Activity} (aligned : w.Aligned rd b) (meets : w.Meets rd b)
    (at_ : w.worker = .idle) (keeps : meetsFailure rd b w e) (move : idleStep rd w e = some w') :
    w'.Meets rd b := by
  have resting (job : Job) (deliveries : job.deliveries = w.job.deliveries)
      (abort : job.snapshot.onError = .abort)
      (completed : job.status = .completed → ∀ d ∈ w.job.deliveries, d.status ≠ .failed) :
      Replay.Meets rd b { w with job := job } :=
    meets.of_job deliveries abort (fun _ at_' => by cases at_.symm.trans at_')
      (fun busy => absurd at_ busy) completed (fun _ at_' => by cases at_.symm.trans at_')
  cases e with
  | refreshDraft =>
    simp only [idleStep] at move
    split at move
    · obtain rfl := Option.some.inj move
      exact resting _ rfl meets.abort.1 meets.completed
    · cases move
  | startDraft | resendFailed | cancelQueued =>
    simp only [idleStep] at move
    split at move
    · obtain rfl := Option.some.inj move
      exact resting _ rfl meets.abort.2 (fun at_ => by cases at_)
    · cases move
  | resume | retryFailed =>
    simp only [idleStep] at move
    split at move
    · obtain rfl := Option.some.inj move
      exact resting _ rfl meets.abort.1 (fun at_ => by cases at_)
    · cases move
  | retryDelivery q ok =>
    simp only [idleStep] at move
    split at move
    · next failing =>
      obtain rfl := Option.some.inj move
      obtain ⟨d, mem, failed⟩ : ∃ d ∈ w.job.deliveries, d.sequence = q ∧ d.status = .failed := by
        simpa using failing.2
      have sent : q * b < rd.rows := failed.1 ▸ meets.inside d mem failed.2
      have resent : Replay.Meets rd b
          { w with job := { w.job with deliveries := resent w.job.deliveries q ok } } :=
        ⟨meets.abort, meets.numbered.resent q ok, inside_resent meets.inside sent ok,
          fun _ at_' => (by cases at_.symm.trans at_'), fun busy => absurd at_ busy,
          fun done => absurd failed.2 (meets.completed done d mem),
          fun _ at_' => (by cases at_.symm.trans at_')⟩
      have resting (job : Job) (deliveries : job.deliveries = Jobs.resent w.job.deliveries q ok)
          (abort : job.snapshot.onError = .abort) (completed : job.status = .completed →
            ∀ d ∈ Jobs.resent w.job.deliveries q ok, d.status ≠ .failed) :
          Replay.Meets rd b { w with job := job } :=
        resent.of_job deliveries abort (fun _ at_' => by cases at_.symm.trans at_')
          (fun busy => absurd at_ busy) completed (fun _ at_' => by cases at_.symm.trans at_')
      split
      · next settled =>
        split
        · exact resting _ rfl meets.abort.2
            fun _ => not_failed_of_anyFailed (by simpa using settled.1)
        · exact resting _ rfl meets.abort.1 (fun at_ => by cases at_)
      · exact resent
    · cases move
  | process lost =>
    simp only [idleStep] at move
    split at move
    · split at move
      · obtain rfl := Option.some.inj move
        refine meets.of_job rfl meets.abort.2 (fun l at_' q mem => ?_) (fun _ => rfl)
          (fun at_ => by cases at_) (fun _ at_ => by cases at_)
        obtain rfl := Worker.resending.inj at_'
        obtain ⟨d, failing, rfl⟩ := List.mem_map.mp (List.mem_mergeSort.mp (List.mem_of_mem_take mem))
        obtain ⟨there, failed⟩ := List.mem_filter.mp failing
        exact meets.inside d there (by simpa using failed)
      · next mode =>
        obtain rfl := Option.some.inj move
        refine meets.of_job rfl meets.abort.2 (fun _ at_ => by cases at_) (fun _ => rfl)
          (fun at_ => by cases at_) fun x at_' => ?_
        obtain rfl := Worker.executing.inj at_'
        exact meets.started aligned rfl rfl ⟨aligned.snapshot, meets.abort.2⟩
          (keeps.2 (by simpa using mode))
    · cases move
  | _ => cases move

/-- **One step leaves every failure ahead.** -/
theorem Replay.Meets.step {e : Activity} (pos : 0 < b) (aligned : w.Aligned rd b)
    (meets : w.Meets rd b) (keeps : meetsFailure rd b w e) (move : replayStep rd w e = some w') :
    w'.Meets rd b := by
  have next (move : w.next rd e = some w') : w'.Meets rd b := by
    unfold Replay.next at move
    split at move
    · next at_ => exact meets.run pos aligned at_ move
    · next at_ => exact meets.resending aligned at_ move
    · next at_ => exact meets.idle aligned at_ keeps move
  cases e with
  | edit config =>
    simp only [replayStep] at move
    split at move
    · obtain rfl := Option.some.inj move
      exact ⟨⟨keeps.2, meets.abort.2⟩, meets.numbered, meets.inside, meets.rest, meets.working,
        meets.completed, meets.execution⟩
    · cases move
  | skip sequences =>
    obtain rfl := Option.some.inj move
    -- what is skipped has not failed
    have old {d : BridgeDelivery} (mem : d ∈ (skipDeliveries w.job sequences).deliveries)
        (failed : d.status = .failed) : d ∈ w.job.deliveries := by
      rcases mem_skipDeliveries.mp mem with old | ⟨s, -, -, rfl⟩
      · exact old
      · cases failed
    refine ⟨meets.abort, meets.numbered.skip sequences,
      fun d mem failed => meets.inside d (old mem failed) failed, meets.rest, meets.working,
      fun done d mem failed => meets.completed done d (old mem failed) failed, fun x at_ => ?_⟩
    have own := meets.execution x at_
    exact ⟨own.abort,
      fun q mem d there same failed => own.done q mem d (old there failed) same failed,
      fun at_ d mem failed => own.ahead at_ d (old mem failed) failed, own.unsettled, own.nonempty,
      fun at_ d mem failed => own.moving at_ d (old mem failed) failed,
      fun at_ d mem failed => own.ended at_ d (old mem failed) failed⟩
  | crash =>
    obtain rfl := Option.some.inj move
    exact meets.of_job rfl meets.abort.2 (fun _ at_ => by cases at_) (fun idle => absurd rfl idle)
      meets.completed (fun _ at_ => by cases at_)
  | cancel | fail =>
    simp only [replayStep] at move
    split at move
    · cases move
    · obtain rfl := Option.some.inj move
      exact meets.of_job rfl meets.abort.2 (fun _ at_ => by cases at_) (fun idle => absurd rfl idle)
        (fun at_ => by cases at_) (fun _ at_ => by cases at_)
  | _ => exact next move

end Steps

/-- **A replay that aborts on failures never moves past one**, in a run that is not gone on with while
a failure is behind its cursor. -/
theorem abortsInOrder_of_meetsFailure {rd : Reading} {b : Nat} {w t : Replay} {es : List Activity}
    (pos : 0 < b) (fresh : w.Fresh)
    (size : w.job.snapshot.batchSize = b ∧ w.config.batchSize = b)
    (abort : w.config.onError = .abort ∧ w.job.snapshot.onError = .abort)
    (run : Run (replayStep rd) (meetsFailure rd b) w es t) : t.AbortsInOrder := by
  let Inv (w : Replay) : Prop := w.Aligned rd b ∧ w.Meets rd b
  have start : Inv w := ⟨fresh.aligned size.1 size.2, fresh.meets abort⟩
  have keep : ∀ w e w', meetsFailure rd b w e → Inv w → replayStep rd w e = some w' → Inv w' := by
    rintro w e w' keeps ⟨aligned, meets⟩ move
    exact ⟨aligned.step pos keeps.1 move, meets.step pos aligned keeps move⟩
  obtain ⟨aligned, meets⟩ := run.invariant start keep
  exact meets.abortsInOrder aligned

/-! ## The first of two batches fails -/

namespace FirstFails

/-- Two rows, read by OFFSET, a row to a batch. -/
def rd : Reading := .byOffset 2 (some 2)

def config : Config where
  batchSize := 1
  onError := .abort

def bridge : Replay where
  config := config
  job := {
    status := .queued, cursorOffset := 0, keyset := none, streamed := false, snapshot := config,
    totalCount := some 2, deliveries := [], resend := false }
  worker := .idle

theorem fresh : bridge.Fresh :=
  ⟨.inr rfl, rfl, rfl, rfl, rfl, by decide, rfl, rfl⟩

/-- The first row's delivery fails, and the run stops. -/
def failed : List Activity :=
  [.process false, .read, .flush, .deliver false, .setCursor, .stop]

/-- One row is read and delivered. -/
def row : List Activity := [.read, .flush, .deliver true, .setCursor]

def finished : List Activity := [.endOfSource, .markStreamed, .complete]

/-- The job in the end, with what became of the first row. -/
def completed (first : DeliveryStatus) : Replay where
  config := config
  job := {
    status := .completed, cursorOffset := 2, keyset := none, streamed := true, snapshot := config,
    totalCount := some 2,
    deliveries := [⟨0, 0, 1, first, 0, 1⟩, ⟨1, 1, 1, .success, 1, 1⟩], resend := false }
  worker := .idle

end FirstFails

/-- The failed rows are retried: the run starts over. -/
theorem abortsInOrder_retried : (FirstFails.completed .success).AbortsInOrder := by
  have run : runEvents (guarded (replayStep FirstFails.rd) (meetsFailure FirstFails.rd 1))
      FirstFails.bridge (FirstFails.failed ++ [.retryFailed, .process false] ++ FirstFails.row ++
        FirstFails.row ++ FirstFails.finished) = some (FirstFails.completed .success) := by
    decide +kernel
  exact abortsInOrder_of_meetsFailure (by decide) FirstFails.fresh ⟨rfl, rfl⟩ ⟨rfl, rfl⟩
    (run_iff_runEvents.mpr run)

/-- The bridge is saved with this batch size, and to abort on failures. -/
def staysAborting (b : Nat) (_ : Replay) : Activity → Prop
  | .edit config => config.batchSize = b ∧ config.onError = .abort
  | _ => True

/-- **The failure is passed:** the run that stopped at the first row is started again, goes on with the
second, and completes. -/
theorem not_abortsInOrder : ¬ ∀ (rd : Reading) (b : Nat) (w t : Replay) (es : List Activity), 0 < b →
    w.Fresh → w.job.snapshot.batchSize = b ∧ w.config.batchSize = b →
    w.config.onError = .abort ∧ w.job.snapshot.onError = .abort →
    Run (replayStep rd) (staysAborting b) w es t → t.AbortsInOrder := by
  intro always
  let again : List Activity := .resume :: .process false :: FirstFails.row ++ FirstFails.finished
  have run : Run (replayStep FirstFails.rd) anyStep FirstFails.bridge (FirstFails.failed ++ again)
      (FirstFails.completed .failed) := run_of_eval (by decide +kernel)
  have aborting : Run (replayStep FirstFails.rd) (staysAborting 1) FirstFails.bridge
      (FirstFails.failed ++ again) (FirstFails.completed .failed) :=
    run.of_events (by simp [again, FirstFails.failed, FirstFails.row, FirstFails.finished,
      staysAborting])
  have inOrder := always _ 1 _ _ _ (by decide) FirstFails.fresh ⟨rfl, rfl⟩ ⟨rfl, rfl⟩ aborting
  exact inOrder.completed rfl _ List.mem_cons_self rfl

end Syncle.Jobs
