import Mathlib.Logic.Function.Basic
import Syncle.Lib.Run

/-!
# A replay bridge's jobs: the database, the queue and the worker

`bridge-job.service.ts`, `bridge-schedule.service.ts` and `bridge-job.processor.ts`, as far as they
move a job of one replay bridge from one status to another. A job lives in two stores: its row in the
database carries its status, its entry in the queue is what a worker takes up. No operation changes
both at once.

A request is a program counter (`Pc`): it makes one call on one of the two stores at a time, and what
the call answers says where it goes on. An event is one such call, or one step of a worker, so a run
is any interleaving of them. What the environment decides is in the events: which of several rows a
`findFirst` answers with, how a job ends, which call fails, when the process dies.

The queue is used with the job's own id as the entry's id. `add` does nothing while there is an entry
under that id; `remove` leaves an entry that is being processed.
-/

namespace Syncle.Jobs

open Lib

/-! ## What is stored -/

inductive BridgeJobStatus where
  | draft | queued | running | canceling | paused | completed | failed | canceled | interrupted
  deriving DecidableEq

namespace BridgeJobStatus

/-- `ACTIVE` -/
def active : BridgeJobStatus → Bool
  | queued | running | canceling => true
  | _ => false

/-- `TERMINAL` -/
def terminal : BridgeJobStatus → Bool
  | completed | failed | canceled | interrupted => true
  | _ => false

/-- what `resume` takes, and what `start` looks for to pick up again -/
def resumable : BridgeJobStatus → Bool
  | failed | canceled | paused | interrupted => true
  | _ => false

end BridgeJobStatus

/-- What the queue holds under a job's id. An entry that completes is removed (`removeOnComplete`),
one that fails is kept (`removeOnFail: 500`). -/
inductive Entry where
  | absent | waiting | active | failed
  deriving DecidableEq

/-- Where `process` stands with the job of an entry it was handed. `aborted` is the signal that the
registry holds for it. -/
inductive Phase where
  /-- about to read the job's row -/
  | fetched
  /-- registered, about to mark the job running -/
  | starting (aborted : Bool)
  | executing (aborted : Bool)
  /-- the row said `canceling`: about to finalize it as canceled -/
  | canceling
  /-- about to return -/
  | settled
  deriving DecidableEq

/-- `onModuleInit`: the active jobs it read, and has still to put back into the queue. -/
inductive Boot (J : Type*) where
  | down
  | recovering (rest : List J)
  | running
  deriving DecidableEq

/-! ## Requests -/

/-- The ways an earlier job is taken up again. -/
inductive Again where
  | resume
  | retryFailed
  | resendFailed
  /-- `retryDelivery`, of a job's last failure. `streamed`: its source had been read to the end, so
  there is nothing left to go on with -/
  | retryDelivery (streamed : Bool)
  deriving DecidableEq

/-- The statuses of the job itself it is admitted in. -/
def Again.admits : Again → BridgeJobStatus → Bool
  | resume, s => s.resumable
  | retryFailed, s => s.terminal
  | resendFailed, s => !s.active
  -- of any other status than `failed` it leaves the job as it is
  | retryDelivery _, s => s = .failed

/-- None of them is admitted while the job is in progress. -/
theorem Again.not_active_of_admits (op : Again) {s : BridgeJobStatus} (admits : op.admits s = true) :
    s.active = false := by
  cases op with
  | resume | retryFailed => cases s <;> first | rfl | cases admits
  | resendFailed => simpa [Again.admits] using admits
  | retryDelivery _ =>
    obtain rfl : s = .failed := by simpa [Again.admits] using admits
    rfl

/-- Does it take the settled entry of the job's last run out of the queue before it goes on? -/
def Again.clears : Again → Bool
  | resendFailed | retryDelivery false => true
  | _ => false

/-- A request, by the call it makes next. -/
inductive Pc (J : Type*) where
  /-- `tick`: is the run before this one still going? -/
  | tick
  /-- `start`: the draft it was given, or the bridge's draft -/
  | start (jobId : Option J) (fresh : Bool)
  | startDraft (draft : J)
  /-- `start`: is a job already in progress? -/
  | findActive (fresh : Bool)
  /-- `start`: the run to pick up again -/
  | findLatest (fresh : Bool)
  | create
  /-- `start`: `resume` of the run that was found -/
  | resumeLatest (j : J)
  | again (op : Again) (j : J)
  /-- `clearSettledJob`: the state of the entry -/
  | clear (op : Again) (j : J)
  /-- `clearSettledJob`: its removal -/
  | dropSettled (op : Again) (j : J)
  | requeue (op : Again) (j : J)
  | enqueue (j : J)
  | cancel (j : J)
  | writeCanceling (j : J)
  | removeEntry (j : J)
  | prepare (onlyExisting : Bool)
  | findDrafts (onlyExisting : Bool)
  | dropDrafts (extra : List J)
  | createDraft
  deriving DecidableEq

/-- Where a request of the API, or of the schedule's worker, begins. -/
def Pc.begins {J : Type*} : Pc J → Bool
  | tick | start .. | again .. | cancel _ | prepare _ => true
  | _ => false

/-- One call on the database or on the queue. -/
inductive Call (J : Type*) where
  | read
  | write (j : J) (status : BridgeJobStatus)
  /-- `cancel`'s write, and the registry's signal that follows it -/
  | writeCanceling (j : J)
  | create (j : J) (status : BridgeJobStatus)
  | deleteMany (js : List J)
  | add (j : J)
  | remove (j : J)
  deriving DecidableEq

/-! ## State -/

structure World (J : Type*) where
  /-- the bridge's rows -/
  jobs : List J
  /-- every id that was ever handed out -/
  made : List J
  status : J → BridgeJobStatus
  entry : J → Entry
  worker : J → Option Phase
  requests : Nat → Option (Pc J)
  boot : Boot J

namespace World

variable {J : Type*}

def setStatus [DecidableEq J] (w : World J) (j : J) (s : BridgeJobStatus) : World J :=
  { w with status := Function.update w.status j s }

def setEntry [DecidableEq J] (w : World J) (j : J) (e : Entry) : World J :=
  { w with entry := Function.update w.entry j e }

def setWorker [DecidableEq J] (w : World J) (j : J) (p : Option Phase) : World J :=
  { w with worker := Function.update w.worker j p }

def setRequest (w : World J) (r : Nat) (p : Option (Pc J)) : World J :=
  { w with requests := Function.update w.requests r p }

/-- `registry.abort` -/
def abort [DecidableEq J] (w : World J) (j : J) : World J :=
  match w.worker j with
  | some (.starting _) => w.setWorker j (some (.starting true))
  | some (.executing _) => w.setWorker j (some (.executing true))
  | _ => w

/-- A job of the bridge that is queued, running or canceling. -/
def Active (w : World J) (j : J) : Prop :=
  j ∈ w.jobs ∧ (w.status j).active = true

instance [DecidableEq J] (w : World J) (j : J) : Decidable (w.Active j) :=
  inferInstanceAs (Decidable (_ ∧ _))

/-- May `findFirst` over the rows of these statuses answer with `found`? -/
def finds [DecidableEq J] (w : World J) (of : BridgeJobStatus → Bool) (found : Option J) : Bool :=
  match found with
  | none => w.jobs.all fun j => !of (w.status j)
  | some j => decide (j ∈ w.jobs) && of (w.status j)

end World

/-! ## Steps -/

section Steps

variable {J : Type*} [DecidableEq J]

/-- The call a request makes, and where it goes on with what it is answered; none when that cannot be
the answer. A request that throws on what it read ends there. -/
def Pc.next (w : World J) : Pc J → Option J → Option (Call J × Option (Pc J))
  | .tick, found =>
    if w.finds (·.active) found then
      -- "the run before it is still going"
      some (.read, if found.isSome then none else some (.start none true))
    else none
  | .start (some j) fresh, _ =>
    if j ∈ w.jobs then
      some (.read, some (if w.status j = .draft then .startDraft j else .findActive fresh))
    else some (.read, none)
  | .start none fresh, found =>
    if w.finds (decide <| · = .draft) found then
      some (.read, some (match found with
        | some draft => .startDraft draft
        | none => .findActive fresh))
    else none
  | .startDraft draft, _ => some (.write draft .queued, some (.enqueue draft))
  | .findActive fresh, found =>
    if w.finds (·.active) found then
      -- "A job is already in progress for this bridge."
      some (.read, if found.isSome then none else some (.findLatest fresh))
    else none
  | .findLatest fresh, found =>
    if w.finds (·.resumable) found then
      some (.read, some (match found, fresh with
        | some j, false => .resumeLatest j
        | _, _ => .create))
    else none
  | .create, found => found.map fun id => (.create id .queued, some (.enqueue id))
  | .resumeLatest j, _ =>
    some (.read, if j ∈ w.jobs ∧ Again.resume.admits (w.status j) then some (.requeue .resume j)
      else none)
  | .again op j, _ =>
    some (.read, if j ∈ w.jobs ∧ op.admits (w.status j) then
      some (if op.clears then .clear op j else .requeue op j) else none)
  | .clear op j, _ =>
    some (.read, some (if w.entry j = .failed then .dropSettled op j else .requeue op j))
  | .dropSettled op j, _ => some (.remove j, some (.requeue op j))
  | .requeue (.retryDelivery true) j, _ => some (.write j .completed, none)
  | .requeue _ j, _ => some (.write j .queued, some (.enqueue j))
  | .enqueue j, _ => some (.add j, none)
  | .cancel j, _ =>
    some (.read, if j ∈ w.jobs ∧ !(w.status j).terminal then some (.writeCanceling j) else none)
  | .writeCanceling j, _ => some (.writeCanceling j, some (.removeEntry j))
  | .removeEntry j, _ => some (.remove j, none)
  | .prepare onlyExisting, found =>
    if w.finds (·.active) found then
      some (.read, if found.isSome then none else some (.findDrafts onlyExisting))
    else none
  | .findDrafts onlyExisting, found =>
    if w.finds (decide <| · = .draft) found then
      some (.read, match found with
        -- the one that is kept is refreshed in place, and stays what it is
        | some keep =>
          some (.dropDrafts ((w.jobs.filter fun j => decide (w.status j = .draft)).erase keep))
        | none => if onlyExisting then none else some .createDraft)
    else none
  | .dropDrafts extra, _ => some (.deleteMany extra, none)
  | .createDraft, found => found.map fun id => (.create id .draft, none)

/-- What a call does; none where it throws (an update of a row that is not there). -/
def Call.apply (w : World J) : Call J → Option (World J)
  | .read => some w
  | .write j s => if j ∈ w.jobs then some (w.setStatus j s) else none
  | .writeCanceling j =>
    if j ∈ w.jobs then some ((w.setStatus j .canceling).abort j) else none
  | .create j s =>
    -- `randomUUID`: no id comes twice
    if j ∈ w.made then none
    else some { w.setStatus j s with jobs := j :: w.jobs, made := j :: w.made }
  | .deleteMany js => some { w with jobs := w.jobs.filter fun j => decide (j ∉ js) }
  | .add j => some (if w.entry j = .absent then w.setEntry j .waiting else w)
  | .remove j =>
    some (if w.entry j = .waiting ∨ w.entry j = .failed then w.setEntry j .absent else w)

/-- What a worker does next with the job it was handed. -/
inductive Move where
  /-- `getJobRow` -/
  | read
  | markRunning
  | finalize (status : BridgeJobStatus)
  /-- a resend stands down: something else has re-statused its job -/
  | detach
  /-- `process` has returned -/
  | complete
  | throw
  deriving DecidableEq

/-- Did somebody ask for this job to be stopped (`cancelRequested`)? -/
def BridgeJobStatus.cancelRequested : BridgeJobStatus → Bool
  | canceling | canceled => true
  | _ => false

def Move.run (w : World J) (j : J) : Move → Phase → Option (World J)
  | .read, .fetched =>
    if j ∈ w.jobs then
      some (w.setWorker j (some (
        if (w.status j).terminal then .settled
        else if w.status j = .canceling then .canceling
        else .starting false)))
    else none
  | .markRunning, .starting aborted =>
    if j ∈ w.jobs then
      some ((w.setStatus j .running).setWorker j (some (.executing aborted)))
    else none
  -- a resend that goes on with the rest of the table (`continue`)
  | .markRunning, .executing _ => if j ∈ w.jobs then some (w.setStatus j .running) else none
  | .finalize s, .executing aborted =>
    if j ∈ w.jobs ∧ (s = .completed ∨ s = .failed ∨
        s = .canceled ∧ (aborted ∨ (w.status j).cancelRequested)) then
      some ((w.setStatus j s).setWorker j (some .settled))
    else none
  | .finalize s, .canceling =>
    if j ∈ w.jobs ∧ s = .canceled then
      some ((w.setStatus j s).setWorker j (some .settled))
    else none
  | .detach, .executing _ =>
    if j ∈ w.jobs ∧ !(w.status j).cancelRequested ∧ w.status j ≠ .running then
      some (w.setWorker j (some .settled))
    else none
  | .complete, .settled => some ((w.setEntry j .absent).setWorker j none)
  | .throw, .settled => none
  -- `attempts: 1`
  | .throw, _ => some ((w.setEntry j .failed).setWorker j none)
  | _, _ => none

inductive Event (J : Type*) where
  | request (r : Nat) (p : Pc J)
  | advance (r : Nat) (found : Option J)
  /-- a call fails, and the request with it -/
  | giveUp (r : Nat)
  /-- the queue hands a waiting entry to a worker -/
  | fetch (j : J)
  | work (j : J) (m : Move)
  /-- the queue finds an entry whose worker is gone: it is handed out again, or given up on -/
  | stalled (j : J) (again : Bool)
  | crash
  /-- `onModuleInit` reads the active jobs, or fails to ("Skipped job recovery") -/
  | boot (read : Bool)
  /-- `onModuleInit` clears a job's settled entry and adds it again, or fails to -/
  | recover (added : Bool)
  deriving DecidableEq

def step (w : World J) : Event J → Option (World J)
  | .request r p =>
    if w.boot = .running ∧ w.requests r = none ∧ p.begins then some (w.setRequest r (some p))
    else none
  | .advance r found =>
    (w.requests r).bind fun p =>
      (p.next w found).bind fun (call, next) => (call.apply w).map (·.setRequest r next)
  | .giveUp r => if w.requests r = none then none else some (w.setRequest r none)
  | .fetch j =>
    if w.boot ≠ .down ∧ w.entry j = .waiting then
      some ((w.setEntry j .active).setWorker j (some .fetched))
    else none
  | .work j m => (w.worker j).bind (m.run w j)
  | .stalled j again =>
    if w.boot ≠ .down ∧ w.entry j = .active ∧ w.worker j = none then
      some (w.setEntry j (if again then .waiting else .failed))
    else none
  | .crash =>
    some { w with worker := fun _ => none, requests := fun _ => none, boot := .down }
  | .boot read =>
    if w.boot = .down then
      some { w with boot :=
        if read then .recovering (w.jobs.filter fun j => (w.status j).active) else .running }
    else none
  | .recover added =>
    match w.boot with
    | .recovering [] => some { w with boot := .running }
    | .recovering (j :: rest) =>
      let w' := { w with boot := .recovering rest }
      some (if added then
        if w.entry j = .absent ∨ w.entry j = .failed then w'.setEntry j .waiting else w'
        else if w.entry j = .failed then w'.setEntry j .absent else w')
    | _ => none

end Steps

/-- A bridge none of whose jobs is in progress: nothing of it is in the queue. -/
structure World.AtRest {J : Type*} (w : World J) : Prop where
  idle : ∀ j, ¬ w.Active j
  made : ∀ j ∈ w.jobs, j ∈ w.made
  queue : ∀ j, w.entry j = .absent
  workers : ∀ j, w.worker j = none
  requests : ∀ r, w.requests r = none
  boot : w.boot = .running

/-! ## What the updates change -/

section Frames

variable {J : Type*} [DecidableEq J] {w : World J} {j k : J}

/-- `registry.abort` turns the signal on, and leaves everything else. -/
theorem World.abort_eq (w : World J) (j : J) :
    ∃ worker', w.abort j = { w with worker := worker' } ∧
      ∀ k, worker' k = w.worker k ∨
        (∃ a, w.worker k = some (.starting a) ∧ worker' k = some (.starting true)) ∨
        (∃ a, w.worker k = some (.executing a) ∧ worker' k = some (.executing true)) := by
  unfold World.abort
  split
  · next a at_ =>
    refine ⟨_, rfl, fun k => ?_⟩
    by_cases same : k = j
    · subst same
      exact .inr (.inl ⟨a, at_, by simp⟩)
    · exact .inl (by simp [same])
  · next a at_ =>
    refine ⟨_, rfl, fun k => ?_⟩
    by_cases same : k = j
    · subst same
      exact .inr (.inr ⟨a, at_, by simp⟩)
    · exact .inl (by simp [same])
  · exact ⟨_, rfl, fun k => .inl rfl⟩

/-- Can the call make a job active? -/
def Call.activates : Call J → Bool
  | .write _ s | .create _ s => s.active
  | .writeCanceling _ => true
  | _ => false

theorem active_setStatus {w : World J} {j k : J} {s : BridgeJobStatus}
    (active : (w.setStatus j s).Active k) : w.Active k ∨ k = j ∧ s.active = true := by
  obtain ⟨row, active⟩ := active
  by_cases same : k = j
  · subst same
    exact .inr ⟨rfl, by simpa [World.setStatus] using active⟩
  · exact .inl ⟨row, by simpa [World.setStatus, same] using active⟩

/-- **What a call can make active:** the job it writes, and nothing else. -/
theorem Call.active {w w' : World J} {c : Call J} (move : c.apply w = some w') {k : J} (active : w'.Active k) :
    w.Active k ∨ c.activates = true ∧
      ((∃ s, c = .write k s) ∨ c = .writeCanceling k ∨ ∃ s, c = .create k s) := by
  cases c with
  | read =>
    obtain rfl : w = w' := by simpa [Call.apply] using move
    exact .inl active
  | write j s =>
    obtain ⟨-, rfl⟩ : j ∈ w.jobs ∧ w.setStatus j s = w' := by simpa [Call.apply] using move
    rcases active_setStatus active with was | ⟨rfl, on⟩
    · exact .inl was
    · exact .inr ⟨on, .inl ⟨s, rfl⟩⟩
  | writeCanceling j =>
    obtain ⟨-, rfl⟩ : j ∈ w.jobs ∧ (w.setStatus j .canceling).abort j = w' := by
      simpa [Call.apply] using move
    obtain ⟨worker', eq, -⟩ := World.abort_eq (w.setStatus j .canceling) j
    rw [eq] at active
    have active : (w.setStatus j .canceling).Active k := active
    rcases active_setStatus active with was | ⟨rfl, -⟩
    · exact .inl was
    · exact .inr ⟨rfl, .inr (.inl rfl)⟩
  | create j s =>
    obtain ⟨fresh, rfl⟩ : j ∉ w.made ∧
        { w.setStatus j s with jobs := j :: w.jobs, made := j :: w.made } = w' := by
      simpa [Call.apply] using move
    obtain ⟨row, active⟩ := active
    by_cases same : k = j
    · subst same
      exact .inr ⟨by simpa [World.setStatus, Call.activates] using active, .inr (.inr ⟨s, rfl⟩)⟩
    · exact .inl ⟨by simpa [same] using row, by simpa [World.setStatus, same] using active⟩
  | deleteMany js =>
    simp only [Call.apply, Option.some.injEq] at move
    subst move
    exact .inl ⟨(List.mem_filter.mp active.1).1, active.2⟩
  | add j =>
    simp only [Call.apply, Option.some.injEq] at move
    subst move
    split at active
    · exact .inl active
    · exact .inl active
  | remove j =>
    simp only [Call.apply, Option.some.injEq] at move
    subst move
    split at active
    · exact .inl active
    · exact .inl active

/-- A call leaves the requests, and where the process stands. -/
theorem Call.requests {w' : World J} {c : Call J} (move : c.apply w = some w') :
    w'.requests = w.requests ∧ w'.boot = w.boot := by
  cases c with
  | writeCanceling j =>
    obtain ⟨-, rfl⟩ : j ∈ w.jobs ∧ (w.setStatus j .canceling).abort j = w' := by
      simpa [Call.apply] using move
    obtain ⟨_, eq, -⟩ := (w.setStatus j .canceling).abort_eq j
    rw [eq]
    exact ⟨rfl, rfl⟩
  | write j s =>
    obtain ⟨-, rfl⟩ : j ∈ w.jobs ∧ w.setStatus j s = w' := by simpa [Call.apply] using move
    exact ⟨rfl, rfl⟩
  | create j s =>
    simp only [Call.apply] at move
    split at move
    · cases move
    · obtain rfl := Option.some.inj move
      exact ⟨rfl, rfl⟩
  | add j | remove j =>
    obtain rfl := Option.some.inj move
    split
    · exact ⟨rfl, rfl⟩
    · exact ⟨rfl, rfl⟩
  | read | deleteMany js =>
    obtain rfl := Option.some.inj move
    exact ⟨rfl, rfl⟩

/-- The calls that only read. -/
def Pc.reads : Pc J → Bool
  | tick | start .. | findActive _ | findLatest _ | resumeLatest _ | again .. | clear .. | cancel _
  | prepare _ | findDrafts _ => true
  | _ => false

theorem Pc.next_of_reads {p : Pc J} {found : Option J} {c : Call J} {n : Option (Pc J)}
    (reads : p.reads = true) (next : p.next w found = some (c, n)) : c = .read := by
  cases p with
  | tick | findActive _ | prepare _ | findDrafts _ | findLatest _ =>
    simp only [Pc.next] at next
    split at next
    · simp only [Option.some.injEq, Prod.mk.injEq] at next
      exact next.1.symm
    · cases next
  | start id _ =>
    cases id with
    | none =>
      simp only [Pc.next] at next
      split at next
      · simp only [Option.some.injEq, Prod.mk.injEq] at next
        exact next.1.symm
      · cases next
    | some j =>
      simp only [Pc.next] at next
      split at next
      · simp only [Option.some.injEq, Prod.mk.injEq] at next
        exact next.1.symm
      · simp only [Option.some.injEq, Prod.mk.injEq] at next
        exact next.1.symm
  | resumeLatest _ | again _ _ | clear _ _ | cancel _ =>
    simp only [Pc.next, Option.some.injEq, Prod.mk.injEq] at next
    exact next.1.symm
  | _ => simp [Pc.reads] at reads

theorem Pc.next_requeue (op : Again) (found : Option J) :
    (Pc.requeue op j).next w found = some (if op = .retryDelivery true then (.write j .completed, none)
      else (.write j .queued, some (.enqueue j))) := by
  cases op with
  | retryDelivery streamed => cases streamed <;> rfl
  | _ => rfl

theorem World.not_active_of_finds_none (none_ : w.finds (·.active) none = true) :
    ∀ j, ¬ w.Active j := by
  intro j ⟨row, active⟩
  have := (List.all_eq_true.mp none_) j row
  simp [active] at this

end Frames

end Syncle.Jobs
