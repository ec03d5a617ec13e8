import Syncle.Jobs.ReplayAligned
import Syncle.Keys.Requests

/-!
# The keys of a replay

`flush` names a batch by its number, `floor(startIndex / batchSize)`, and so does a resend of what was
captured of it. While the batch size stays, the number says which rows of the source the batch has.
-/

namespace Syncle.Keys

open Lib Jobs

/-! ## What is sent -/

/-- `flush` -/
def batchRequest (x : Execution) : Request Empty Nat where
  key := .sequence x.sequence
  rows := List.range' x.first x.buffered

/-- `resendDelivery` -/
def capturedRequest (d : BridgeDelivery) : Request Empty Nat where
  key := .sequence d.sequence
  rows := List.range' d.first d.count
  resent := true

def capturedRequests (ds : List BridgeDelivery) (q : Nat) : List (Request Empty Nat) :=
  (ds.filter (·.sequence = q)).map capturedRequest

/-- What a step sends. A resend that a crash, a cancel or an error cuts short may have been sent. -/
def replayRequests (w : Replay) (e : Activity) : List (Request Empty Nat) :=
  match w.worker, e with
  | .executing x, .flush =>
    match x.stage with
    | .flushing _ => if x.done.contains x.sequence then [] else [batchRequest x]
    | _ => []
  | .resending (q :: _), .resendOne _ | .resending (q :: _), .crash | .resending (q :: _), .cancel
  | .resending (q :: _), .fail => capturedRequests w.job.deliveries q
  | .idle, .retryDelivery q _ => capturedRequests w.job.deliveries q
  | _, _ => []

structure ReplaySending where
  replay : Replay
  sent : List (Request Empty Nat) := []

def replaySendingStep (rd : Reading) (s : ReplaySending) (e : Activity) : Option ReplaySending :=
  (replayStep rd s.replay e).map fun w => { replay := w, sent := s.sent ++ replayRequests s.replay e }

/-! ## The rows of a number -/

/-- The rows from `first` on, `count` of them, are the batch of that number. -/
def BatchRows (rd : Reading) (b first count q : Nat) : Prop :=
  ∀ row, (first ≤ row ∧ row < first + count) ↔ (row < rd.rows ∧ row / b = q)

/-- What the records say of the failed deliveries, which are what is sent again. A number that was
skipped has not been sent. -/
structure Captured (rd : Reading) (b : Nat) (w : Replay) : Prop where
  numbered : Numbered w.job.deliveries
  rows : ∀ d ∈ w.job.deliveries, d.status ≠ .skipped → BatchRows rd b d.first d.count d.sequence
  resending : ∀ rest, w.worker = .resending rest → ∀ q ∈ rest,
    ∃ d ∈ w.job.deliveries, d.sequence = q ∧ d.status ≠ .skipped

section Steps

variable {rd : Reading} {b : Nat} {w w' : Replay} {e : Activity}

/-- A run that is aligned cuts its batches where their numbers say. -/
theorem batchRows_of_aligned (pos : 0 < b) {x : Execution} (aligned : x.Aligned rd b) {last : Bool}
    (stage : x.stage = .flushing last ∨ x.stage = .sending last) :
    BatchRows rd b x.first x.buffered x.sequence := by
  intro row
  have inside := aligned.inside
  constructor
  · intro there
    have lt : row < rd.rows := by omega
    exact ⟨lt, (aligned.holds_iff pos stage lt).mp there⟩
  · intro number
    exact (aligned.holds_iff pos stage number.1).mpr number.2

/-- How a resend comes about. -/
theorem resending_step (move : replayStep rd w e = some w') {rest : List Nat}
    (at_ : w'.worker = .resending rest) :
    (∃ q, w.worker = .resending (q :: rest)) ∨ w.worker = .resending rest ∨
      (rest = resendable w.job.deliveries ∧ w'.job.deliveries = w.job.deliveries) := by
  have run {x : Execution} (move : x.run rd w e = some w') : False := by
    cases e with
    | read | poll | endOfSource | stop | markStreamed | complete =>
      simp only [Execution.run] at move
      split at move
      · obtain rfl := Option.some.inj move
        cases at_
      · cases move
    | flush | deliver ok | setCursor =>
      simp only [Execution.run] at move
      split at move
      · obtain rfl := Option.some.inj move
        cases at_
      · cases move
    | _ => cases move
  have next (move : w.next rd e = some w') : (∃ q, w.worker = .resending (q :: rest)) ∨
      w.worker = .resending rest ∨
      (rest = resendable w.job.deliveries ∧ w'.job.deliveries = w.job.deliveries) := by
    unfold Replay.next at move
    split at move
    · exact (run move).elim
    · next left at_rest =>
      cases e with
      | resendOne ok =>
        cases left with
        | nil => cases move
        | cons q left =>
          obtain rfl := Option.some.inj move
          obtain rfl := Worker.resending.inj at_
          exact .inl ⟨q, at_rest⟩
      | resendEnd =>
        cases left with
        | cons q left => cases move
        | nil =>
          simp only [resending] at move
          split at move
          · obtain rfl := Option.some.inj move
            cases at_
          · split at move <;> obtain rfl := Option.some.inj move <;> cases at_
      | _ => cases left <;> cases move
    · next idle =>
      cases e with
      | process lost =>
        simp only [idleStep] at move
        split at move
        · split at move
          · obtain rfl := Option.some.inj move
            exact .inr (.inr ⟨(Worker.resending.inj at_).symm, rfl⟩)
          · obtain rfl := Option.some.inj move
            cases at_
        · cases move
      | refreshDraft | startDraft | resume | retryFailed | resendFailed | cancelQueued
      | retryDelivery q ok =>
        simp only [idleStep] at move
        split at move
        · obtain rfl := Option.some.inj move
          cases idle.symm.trans at_
        · cases move
      | _ => cases move
  cases e with
  | edit config =>
    simp only [replayStep] at move
    split at move
    · obtain rfl := Option.some.inj move
      exact .inr (.inl at_)
    · cases move
  | skip sequences =>
    obtain rfl := Option.some.inj move
    exact .inr (.inl at_)
  | crash =>
    obtain rfl := Option.some.inj move
    cases at_
  | cancel | fail =>
    simp only [replayStep] at move
    split at move
    · cases move
    · obtain rfl := Option.some.inj move
      cases at_
  | _ => exact next move

/-- A number that is in the records, and was not skipped, stays so. -/
theorem recorded_step (records : RecordsStep w e w'.job.deliveries) {q : Nat}
    (there : ∃ d ∈ w.job.deliveries, d.sequence = q ∧ d.status ≠ .skipped) :
    ∃ d ∈ w'.job.deliveries, d.sequence = q ∧ d.status ≠ .skipped := by
  obtain ⟨d, mem, sequence, status⟩ := there
  generalize w'.job.deliveries = ds at records
  cases records with
  | same => exact ⟨d, mem, sequence, status⟩
  | @deliver x last ok at_ stage _ =>
    by_cases same : d.sequence = (x.delivery ok).sequence
    · obtain ⟨d', mem', sequence', -, -, status'⟩ :=
        recordDelivery_has w.job.deliveries (x.delivery ok)
      refine ⟨d', mem', sequence'.trans (same.symm.trans sequence), ?_⟩
      rw [status']
      cases ok <;> nofun
    · exact ⟨d, mem_recordDelivery_of_ne mem same, sequence, status⟩
  | resent q' ok _ =>
    refine ⟨_, List.mem_map_of_mem mem, ?_⟩
    split
    · exact ⟨sequence, by cases ok <;> nofun⟩
    · exact ⟨sequence, status⟩
  | skip _ => exact ⟨d, List.mem_append_left _ mem, sequence, status⟩

theorem Captured.step (pos : 0 < b) (aligned : w.Aligned rd b) (captured : Captured rd b w)
    (move : replayStep rd w e = some w') : Captured rd b w' := by
  have records := (replayStep_job move).records
  refine ⟨?_, fun d mem status => ?_, fun rest at_ q mem => ?_⟩
  · generalize w'.job.deliveries = ds at records
    cases records with
    | same => exact captured.numbered
    | deliver _ _ _ => exact captured.numbered.record _
    | resent q ok _ => exact captured.numbered.resent q ok
    | @skip sequences _ => exact captured.numbered.skip sequences
  · generalize w'.job.deliveries = ds at records mem
    cases records with
    | same => exact captured.rows d mem status
    | @deliver x last ok at_ stage _ =>
      have own := batchRows_of_aligned pos (aligned.execution x at_) (.inr stage)
      rcases mem_recordDelivery mem with ⟨old, -⟩ | ⟨rfl, -⟩ | ⟨e, -, -, rfl⟩
      · exact captured.rows d old status
      · exact own
      · exact own
    | resent q ok chosen =>
      obtain ⟨old, mem', rfl⟩ := List.mem_map.mp mem
      -- the number that is sent again has not been skipped
      have sent : old.sequence = q → old.status ≠ .skipped := by
        intro same
        have there : ∃ d ∈ w.job.deliveries, d.sequence = q ∧ d.status ≠ .skipped := by
          rcases chosen with ⟨rest, at_⟩ | ⟨d, mem, sequence, failed⟩
          · exact captured.resending _ at_ q List.mem_cons_self
          · exact ⟨d, mem, sequence, by rw [failed]; nofun⟩
        obtain ⟨d, mem, sequence, status⟩ := there
        exact captured.numbered old mem' d mem (same.trans sequence.symm) ▸ status
      split
      · next same => exact captured.rows old mem' (sent same)
      · next other =>
        rw [if_neg other] at status
        exact captured.rows old mem' status
    | skip _ =>
      rcases mem_skipDeliveries.mp mem with old | ⟨s, -, -, rfl⟩
      · exact captured.rows d old status
      · exact absurd rfl status
  · rcases resending_step move at_ with ⟨q', before⟩ | before | ⟨rfl, same⟩
    · exact recorded_step records (captured.resending _ before q (List.mem_cons_of_mem _ mem))
    · exact recorded_step records (captured.resending _ before q mem)
    · have failed : q ∈ ((w.job.deliveries.filter fun d => d.status = .failed).map (·.sequence)) :=
        (List.mergeSort_perm _ _).mem_iff.mp (List.mem_of_mem_take mem)
      obtain ⟨d, among, rfl⟩ := List.mem_map.mp failed
      obtain ⟨there, status⟩ := List.mem_filter.mp among
      refine ⟨d, same ▸ there, rfl, ?_⟩
      rw [of_decide_eq_true status]
      nofun

end Steps

/-! ## One key, one batch -/

theorem range'_ext {a n a' n' : Nat} (same : ∀ row, (a ≤ row ∧ row < a + n) ↔ (a' ≤ row ∧ row < a' + n')) :
    List.range' a n = List.range' a' n' := by
  have first := same a
  have first' := same a'
  have last := same (a + n - 1)
  have last' := same (a' + n' - 1)
  rcases Nat.eq_zero_or_pos n with rfl | pos
  · obtain rfl : n' = 0 := by omega
    rfl
  · obtain ⟨rfl, rfl⟩ : a = a' ∧ n = n' := by omega
    rfl

/-- The request has the rows of its number. -/
def Request.OfBatch (rd : Reading) (b : Nat) (r : Request Empty Nat) : Prop :=
  ∃ first count q, r.key = .sequence q ∧ r.rows = List.range' first count ∧
    BatchRows rd b first count q

section Runs

variable {rd : Reading} {b : Nat} {w : Replay} {es : List Activity} {s : ReplaySending}

theorem Request.OfBatch.agrees {r r' : Request Empty Nat} (batch : r.OfBatch rd b)
    (batch' : r'.OfBatch rd b) : r.Agrees r' := by
  obtain ⟨first, count, q, key, rows, here⟩ := batch
  obtain ⟨first', count', q', key', rows', here'⟩ := batch'
  constructor
  · intro same
    obtain rfl := Key.sequence.inj (key.symm.trans (same.trans key'))
    rw [rows, rows']
    exact range'_ext fun row => (here row).trans (here' row).symm
  · rintro - - ⟨row, mem, mem'⟩
    rw [rows, List.mem_range'_1] at mem
    rw [rows', List.mem_range'_1] at mem'
    rw [key, key', ← ((here row).mp mem).2, ← ((here' row).mp mem').2]

theorem requests_ofBatch (pos : 0 < b) (aligned : w.Aligned rd b) (captured : Captured rd b w)
    {e : Activity} {w' : Replay} (move : replayStep rd w e = some w') :
    ∀ r ∈ replayRequests w e, r.OfBatch rd b := by
  have again {q : Nat} (there : ∃ d ∈ w.job.deliveries, d.sequence = q ∧ d.status ≠ .skipped) :
      ∀ r ∈ capturedRequests w.job.deliveries q, r.OfBatch rd b := by
    intro r mem
    obtain ⟨d, among, rfl⟩ := List.mem_map.mp mem
    obtain ⟨old, same⟩ := List.mem_filter.mp among
    obtain ⟨d', old', sequence, status⟩ := there
    obtain rfl := captured.numbered d old d' old' ((of_decide_eq_true same).trans sequence.symm)
    exact ⟨_, _, _, rfl, rfl, captured.rows d old status⟩
  intro r mem
  unfold replayRequests at mem
  split at mem
  · next x at_ =>
    split at mem
    · next last stage =>
      split at mem
      · cases mem
      · obtain rfl := List.mem_singleton.mp mem
        exact ⟨_, _, _, rfl, rfl, batchRows_of_aligned pos (aligned.execution x at_) (.inl stage)⟩
    · cases mem
  · next at_ => exact again (captured.resending _ at_ _ List.mem_cons_self) r mem
  · next at_ => exact again (captured.resending _ at_ _ List.mem_cons_self) r mem
  · next at_ => exact again (captured.resending _ at_ _ List.mem_cons_self) r mem
  · next at_ => exact again (captured.resending _ at_ _ List.mem_cons_self) r mem
  · next q ok idle =>
    simp only [replayStep, Replay.next, idle, idleStep] at move
    split at move
    · next failed =>
      have there : ∃ d ∈ w.job.deliveries, d.sequence = q ∧ d.status = .failed := by
        simpa using failed.2
      obtain ⟨d, mem', sequence, status⟩ := there
      exact again ⟨d, mem', sequence, by rw [status]; simp⟩ r mem
    · cases move
  · cases mem

/-- **While the batch size stays, and each run reads on at the row of its offset, a key of a replay
names one batch.** -/
theorem replay_onePayload (pos : 0 < b) (fresh : w.Fresh)
    (size : w.job.snapshot.batchSize = b ∧ w.config.batchSize = b)
    (run : Run (replaySendingStep rd) (fun s e => keepsSize rd b s.replay e) { replay := w } es s) :
    OnePayload s.sent := by
  let Inv (s : ReplaySending) : Prop :=
    s.replay.Aligned rd b ∧ Captured rd b s.replay ∧ ∀ r ∈ s.sent, r.OfBatch rd b
  have start : Inv { replay := w } := by
    refine ⟨fresh.aligned size.1 size.2, ⟨?_, ?_, ?_⟩, nofun⟩
    · simp [Numbered, fresh.deliveries]
    · simp [fresh.deliveries]
    · simp [fresh.worker]
  have keep : ∀ s e s', keepsSize rd b s.replay e → Inv s →
      replaySendingStep rd s e = some s' → Inv s' := by
    rintro s e s' keeps ⟨aligned, captured, sent⟩ move
    obtain ⟨w, moved, rfl⟩ := Option.map_eq_some_iff.mp move
    refine ⟨aligned.step pos keeps moved, captured.step pos aligned moved, fun r mem => ?_⟩
    rcases List.mem_append.mp mem with old | new
    · exact sent r old
    · exact requests_ofBatch pos aligned captured moved r new
  obtain ⟨-, -, sent⟩ := run.invariant start keep
  intro r mem r' mem'
  exact (sent r mem).agrees (sent r' mem')

end Runs

end Syncle.Keys
