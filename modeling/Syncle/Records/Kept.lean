import Syncle.Lib.Run
import Syncle.Records.Sweeps

/-!
# What retention keeps, over whole runs

Deliveries are recorded, rows are parked and settled, bridges and jobs come and go, and in between
the store is swept. What each sweep keeps is in `Sweeps.lean`; here it holds of every state a run
reaches (`retention_keeps`).
-/

namespace Syncle.Records

open Lib

variable {B J : Type*} [DecidableEq B] [DecidableEq J]

inductive StoreEvent (B J : Type*) where
  | addBridge (b : B) (live : Bool)
  /-- the bridge is edited -/
  | setTrigger (b : B) (live : Bool)
  | removeBridge (b : B)
  | addJob (j : J) (b : B) (now : Nat) (total : Option Nat) (snapshot : Option (Option Int))
  | setStatus (j : J) (active : Bool) (finishedAt : Option Nat)
  | record (j : J) (e : RecordEvent)
  | park (j : J) (sequence : Int)
  /-- the rows were retried, or discarded -/
  | settle (j : J) (sequence : Int) (status : LetterStatus) (now : Nat)
  /-- a batch that is isolated again takes back what it had parked -/
  | unpark (j : J) (first : Int)
  | sweep (settings : RetentionSettings) (now : Nat)

namespace Store

def empty : Store B J := { bridges := .empty, jobs := .empty, letters := [] }

/-- The records of a job change; how many there ever were is counted. -/
def recorded (e : RecordEvent) (job : StoredJob B) : StoredJob B :=
  { job with
    row := job.row.step e
    recorded := job.recorded + ((job.row.step e).deliveries.size - job.row.deliveries.size) }

def step (s : Store B J) : StoreEvent B J → Option (Store B J)
  | .addBridge b live => some { s with bridges := s.bridges.set b live }
  | .setTrigger b live => some { s with bridges := s.bridges.modify b fun _ => live }
  | .removeBridge b => some
      { bridges := s.bridges.filter fun x => x ≠ b
        jobs := s.jobs.filter fun j => (s.jobs.get? j).all fun job => job.bridgeId ≠ b
        letters := s.letters.filter fun l => l.bridgeId ≠ b }
  | .addJob j b now total snapshot =>
    if j ∈ s.jobs.keys then none
    else some
      { s with
        jobs := s.jobs.set j
          { bridgeId := b
            active := true
            startedAt := now
            row := { totalCount := total, snapshot := snapshot } } }
  | .setStatus j active finishedAt => some
      { s with jobs := s.jobs.modify j fun job => { job with active, finishedAt } }
  | .record j e => some { s with jobs := s.jobs.modify j (recorded e) }
  | .park j sequence =>
    (s.jobs.get? j).map fun job =>
      { s with letters := s.letters ++ [{ bridgeId := job.bridgeId, jobId := j, sequence }] }
  | .settle j sequence status now => some
      { s with
        letters := s.letters.map fun l =>
          if l.jobId = j ∧ l.sequence = sequence then { l with status, resolvedAt := some now }
          else l }
  | .unpark j first => some
      { s with letters := s.letters.filter fun l => ¬ (l.jobId = j ∧ first ≤ l.sequence) }
  | .sweep settings now => some (Sweep.run settings now s).store

/-- No sweep gets, in a job that is emptied, to a failed delivery whose rows wait. -/
def sweepSpares (s : Store B J) : StoreEvent B J → Prop
  | .sweep settings now => 0 < settings.days → s.Spares (Sweep.cutoff settings now)
  | _ => True

/-- What a step must not touch: what is owed, if it is a sweep, and the boundaries. -/
structure Kept (s : Store B J) (e : StoreEvent B J) (s' : Store B J) : Prop where
  owed : ∀ settings now, e = .sweep settings now → ∀ j q d, s.Owed j q d → s'.Holds j q d
  rises : ∀ j job job', s.jobs.get? j = some job → s'.jobs.get? j = some job' → job.Rises job'

/-- The totals of every job add up, and what was removed from it lies below its boundary. -/
def AllAccounted (s : Store B J) : Prop :=
  ∀ j job, s.jobs.get? j = some job → job.Accounted

variable {s s' : Store B J}

/-! ## Records only grow -/

theorem size_set_le {K V : Type*} [DecidableEq K] (m : OrderedMap K V) (k : K) (v : V) :
    m.size ≤ (m.set k v).size := by
  unfold OrderedMap.size
  by_cases old : k ∈ m.keys
  · rw [OrderedMap.set_of_mem old]
    simp [OrderedMap.replaced]
  · rw [OrderedMap.set_of_not_mem old]
    simp

theorem size_setAll_le {K V : Type*} [DecidableEq K] (m : OrderedMap K V) (es : List (K × V)) :
    m.size ≤ (m.setAll es).size := by
  induction es generalizing m with
  | nil => exact le_refl _
  | cons e es ih => exact (size_set_le m e.1 e.2).trans (ih (m.set e.1 e.2))

theorem size_step_le (row : BridgeJob) (e : RecordEvent) :
    row.deliveries.size ≤ (row.step e).deliveries.size := by
  cases e with
  | recordDelivery d o now => exact size_set_le _ _ _
  | recordNotice sequence message rowIndex now => exact size_set_le _ _ _
  | skipDeliveries sequences now =>
    change _ ≤ (row.skipDeliveries sequences now).deliveries.size
    unfold BridgeJob.skipDeliveries
    split
    case isTrue => exact le_refl _
    case isFalse => exact size_setAll_le _ _

omit [DecidableEq B] in
theorem trims_recorded (e : RecordEvent) (job : StoredJob B) : job.Trims (recorded e job) := by
  refine ⟨fun h => ⟨?_, h.below⟩, StoredJob.Rises.refl⟩
  have total := h.total
  have grows := size_step_le job.row e
  unfold recorded
  simp only
  omega

/-! ## A step -/

/-- A job that is there after a step was started in it, or is as it was but for its records. -/
theorem job_step (e : StoreEvent B J) (spares : s.sweepSpares e) (h : s.step e = some s') (j : J)
    {job' : StoredJob B} (found : s'.jobs.get? j = some job') :
    (s.jobs.get? j = none ∧ job'.Accounted) ∨
      ∃ job, s.jobs.get? j = some job ∧ job.Trims job' := by
  have same : s'.jobs = s.jobs → ∃ job, s.jobs.get? j = some job ∧ job.Trims job' := by
    intro jobs
    rw [jobs] at found
    exact ⟨job', found, StoredJob.Trims.refl⟩
  have modified : ∀ (i : J) (f : StoredJob B → StoredJob B), (∀ job : StoredJob B, job.Trims (f job)) →
      s'.jobs = s.jobs.modify i f → ∃ job, s.jobs.get? j = some job ∧ job.Trims job' := by
    intro i f trims jobs
    rw [jobs, OrderedMap.get?_modify] at found
    split at found
    case isTrue here =>
      obtain ⟨job, there, rfl⟩ := Option.map_eq_some_iff.mp found
      exact ⟨job, here ▸ there, trims job⟩
    case isFalse => exact ⟨job', found, StoredJob.Trims.refl⟩
  cases e with
  | addBridge b live =>
    obtain rfl := Option.some.inj h
    exact Or.inr (same rfl)
  | setTrigger b live =>
    obtain rfl := Option.some.inj h
    exact Or.inr (same rfl)
  | removeBridge b =>
    obtain rfl := Option.some.inj h
    simp only [OrderedMap.get?_filter] at found
    split at found
    case isTrue => exact Or.inr ⟨job', found, StoredJob.Trims.refl⟩
    case isFalse => cases found
  | addJob i b now total snapshot =>
    change (if i ∈ s.jobs.keys then none else some _) = some s' at h
    split at h
    case isTrue => cases h
    case isFalse fresh =>
      obtain rfl := Option.some.inj h
      simp only [OrderedMap.get?_set] at found
      split at found
      case isTrue here =>
        obtain rfl := Option.some.inj found
        refine Or.inl ⟨here ▸ OrderedMap.get?_eq_none.mpr fresh, rfl, fun s hs => ?_⟩
        cases hs
      case isFalse => exact Or.inr ⟨job', found, StoredJob.Trims.refl⟩
  | setStatus i active finishedAt =>
    obtain rfl := Option.some.inj h
    exact Or.inr (modified i (fun job => { job with active, finishedAt })
      (fun job => ⟨fun accounted => ⟨accounted.total, accounted.below⟩, StoredJob.Rises.refl⟩) rfl)
  | record i e =>
    obtain rfl := Option.some.inj h
    exact Or.inr (modified i _ (trims_recorded e) rfl)
  | park i sequence =>
    obtain ⟨job, -, rfl⟩ := Option.map_eq_some_iff.mp h
    exact Or.inr (same rfl)
  | settle i sequence status now =>
    obtain rfl := Option.some.inj h
    exact Or.inr (same rfl)
  | unpark i first =>
    obtain rfl := Option.some.inj h
    exact Or.inr (same rfl)
  | sweep settings now =>
    obtain rfl := Option.some.inj h
    have rel := (Sweep.sweeps_run spares).jobs j
    rw [found] at rel
    cases there : s.jobs.get? j with
    | none =>
      rw [there] at rel
      cases rel
    | some job =>
      rw [there] at rel
      cases rel with
      | some trims => exact Or.inr ⟨job, rfl, trims⟩

theorem kept_step {e : StoreEvent B J} (spares : s.sweepSpares e) (h : s.step e = some s') :
    Kept s e s' := by
  refine ⟨fun settings now sweep j q d owed => ?_, fun j job job' before after => ?_⟩
  · subst sweep
    obtain rfl := Option.some.inj h
    exact (Sweep.sweeps_run spares).owed j q d owed
  · rcases job_step e spares h j after with ⟨absent, -⟩ | ⟨job'', found, trims⟩
    · rw [before] at absent
      cases absent
    · obtain rfl : job = job'' := Option.some.inj (before.symm.trans found)
      exact trims.rises

theorem allAccounted_step {e : StoreEvent B J} (spares : s.sweepSpares e) (all : s.AllAccounted)
    (h : s.step e = some s') : s'.AllAccounted := by
  intro j job' found
  rcases job_step e spares h j found with ⟨-, accounted⟩ | ⟨job, before, trims⟩
  · exact accounted
  · exact trims.accounted (all j job before)

/-- **Retention keeps what is owed**: in every run whose sweeps get to no owed delivery of a job
they empty, the totals add up and what was removed lies below its boundary, at every moment; and no
step from there removes what is owed or lowers a boundary. -/
theorem retention_keeps {events : List (StoreEvent B J)}
    (run : Run step sweepSpares (Store.empty : Store B J) events s) :
    s.AllAccounted ∧
      ∀ e s', s.sweepSpares e → s.step e = some s' → Kept s e s' := by
  refine ⟨run.invariant ?_ fun s e s' spares all h => allAccounted_step spares all h,
    fun e s' spares h => kept_step spares h⟩
  intro j job found
  cases found

/-! ## A job that is emptied -/

/-- A live bridge's delivery fails and is parked; the bridge is stopped, and made a replay. -/
def stoppedRun : List (StoreEvent Nat Nat) :=
  [.addBridge 0 true, .addJob 0 0 0 none none,
    .record 0 (.recordDelivery { sequence := 0, rowIndex := 0, rowCount := 1, rowKeysJson := none }
      { delivered := false, httpStatus := none, attempts := 1, error := none, requestBody := none,
        responseBody := none, durationMs := 0 } 0),
    .park 0 0, .setStatus 0 false (some 0), .setTrigger 0 false]

def stopped : Store Nat Nat := (runEvents step empty stoppedRun).getD empty

/-- The delivery that failed. -/
def failedDelivery : BridgeDelivery where
  rowIndex := 0
  rowCount := 1
  status := .failed
  attempts := 1
  durationMs := some 0

/-- Two days later its deliveries are kept for one: the job is emptied, and with it goes the failed
delivery, while its row still waits. -/
theorem not_retention_keeps :
    ¬ ∀ (events : List (StoreEvent Nat Nat)) (s s' : Store Nat Nat) (e : StoreEvent Nat Nat),
      Run step anyStep Store.empty events s → s.step e = some s' → Kept s e s' := by
  intro always
  have run : Run step anyStep Store.empty stoppedRun stopped := run_of_eval rfl
  have kept := always stoppedRun stopped _ (.sweep { days := 1, cap := 0 } 172800000) run rfl
  have owed : stopped.Owed 0 0 failedDelivery := ⟨⟨_, rfl, rfl⟩, rfl, rfl⟩
  obtain ⟨job, found, there⟩ := kept.owed _ _ rfl 0 0 failedDelivery owed
  have gone : ((Sweep.run { days := 1, cap := 0 } 172800000 stopped).store.jobs.get? 0).map
      (fun job => job.row.deliveries.get? 0) = some none := by decide +kernel
  rw [found, Option.map_some, there] at gone
  cases gone

/-- While its bridge is live the job is not emptied, and a sweep keeps what is owed. -/
theorem retention_keeps_live :
    ∃ s : Store Nat Nat, s.AllAccounted ∧
      ∀ e s', s.sweepSpares e → s.step e = some s' → Kept s e s' := by
  let live : Store Nat Nat := (runEvents step empty (stoppedRun.take 4)).getD empty
  have parked : Run step sweepSpares Store.empty (stoppedRun.take 4) live := by
    refine (run_of_eval rfl).of_events fun e mem s => ?_
    simp only [stoppedRun, List.take_succ_cons, List.take_zero, List.mem_cons, List.not_mem_nil,
      or_false] at mem
    rcases mem with rfl | rfl | rfl | rfl <;> trivial
  have spares : live.sweepSpares (.sweep { days := 1, cap := 0 } 172800000) := by
    intro _ j q d _
    have none : live.emptied (Sweep.cutoff { days := 1, cap := 0 } 172800000) = [] := by
      decide +kernel
    rw [none]
    exact List.not_mem_nil
  exact ⟨_, retention_keeps (parked.snoc spares rfl)⟩

end Store

end Syncle.Records
