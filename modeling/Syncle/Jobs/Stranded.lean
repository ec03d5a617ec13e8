import Syncle.Jobs.Lifecycle

/-!
# A job in progress is in the queue, or with a worker

A job's status and its entry in the queue are changed by separate calls. `Stranded` is the state in
which the two no longer belong together: the job is queued, running or canceling, and nothing will
ever take it out of that. `leavesNone` says which steps do that to a job:

* `cancel` takes the waiting entry of the job it has just marked as canceling. The mark is for a
  worker to act on, and no worker will come.
* a job is written queued, and `add` does nothing, because there still is an entry under its id: one
  that failed (`resume` and `retryFailed` do not clear it), or one whose worker is done with the job
  and is about to return.
* a worker throws, stands down or is given up on, or a request fails between its write and its `add`.
* the recovery at boot does not read, or does not add.

A run without such steps strands no job: `noneStranded_of_leavesNone`. It is one invariant over both
stores (`World.Served`), which says who will see to an active job next.
-/

namespace Syncle.Jobs

open Lib

variable {J : Type*}

/-- The job has a queue entry that will be processed, or a worker that is executing it. (An active
entry without a worker is one whose process died: the queue hands it out again.) -/
def World.Attended (w : World J) (j : J) : Prop :=
  w.entry j = .waiting ∨ w.entry j = .active ∧ w.worker j ≠ some .settled

/-- No request is under way, and the process has come up. -/
def World.BetweenRequests (w : World J) : Prop :=
  w.boot = .running ∧ ∀ r, w.requests r = none

/-- **No job is stranded.** -/
def World.NoneStranded (w : World J) : Prop :=
  w.BetweenRequests → ∀ j, w.Active j → w.Attended j

/-- A request is about to add the job to the queue. -/
def World.Pending (w : World J) (j : J) : Prop :=
  ∃ r, w.requests r = some (.enqueue j)

/-- A call of a request that leaves no job behind. -/
def Pc.LeavesNone (w : World J) : Pc J → Prop
  -- what is marked as canceling is still in progress, or in the queue
  | writeCanceling j => ¬ w.Active j → w.Attended j
  | removeEntry j | dropSettled _ j => w.Active j → w.entry j ≠ .waiting
  -- `add` adds, or there is an entry to come
  | enqueue j => w.Active j → w.entry j ≠ .failed ∧ w.worker j ≠ some .settled
  | _ => True

/-- A step that leaves no job behind. -/
def leavesNone (w : World J) : Event J → Prop
  | .advance r _ => ∀ p, w.requests r = some p → p.LeavesNone w
  | .giveUp r => ∀ j, w.requests r = some (.enqueue j) → w.Active j → w.Attended j
  | .work j .throw | .work j .detach | .stalled j false => w.Active j → w.Pending j
  | .boot false => ∀ j, w.Active j → w.Attended j
  | .recover false => ∀ j rest, w.boot = .recovering (j :: rest) → w.Active j → w.Attended j
  | _ => True

/-- Who will see to an active job next. -/
structure World.Served (w : World J) : Prop where
  active : ∀ j, w.Active j → w.Attended j ∨ w.Pending j ∨ w.boot = .down ∨
    ∃ rest, w.boot = .recovering rest ∧ j ∈ rest
  /-- a worker that is done with a job has left it settled, or it is being queued again -/
  settled : ∀ j, w.worker j = some .settled → w.Active j → w.Pending j
  entries : ∀ j, w.worker j ≠ none → w.entry j = .active

theorem World.AtRest.served {w : World J} (rest : w.AtRest) : w.Served where
  active j active := absurd active (rest.idle j)
  settled j at_ := by simp [rest.workers] at at_
  entries j at_ := absurd (rest.workers j) at_

theorem World.Served.not_settled {w : World J} (served : w.Served) {j : J}
    (attended : w.Attended j) : w.worker j ≠ some .settled := by
  intro at_
  have entry := served.entries j (by simp [at_])
  rcases attended with waiting | ⟨-, not⟩
  · simp [entry] at waiting
  · exact not at_

/-! ## A call of a request -/

/-- What a call must leave in order. -/
theorem World.Served.request {w w₁ : World J} {r : Nat} {p : Pc J} {n : Option (Pc J)}
    (served : w.Served) (at_ : w.requests r = some p) (requests : w₁.requests = w.requests)
    (boot : w₁.boot = w.boot)
    (workers : ∀ j, w₁.worker j = some .settled → w.worker j = some .settled)
    (entries : ∀ j, w₁.worker j ≠ none → w₁.entry j = .active)
    (active : ∀ j, w₁.Active j → w.Active j ∨ w₁.Attended j ∨ n = some (.enqueue j))
    (attended : ∀ j, w₁.Active j → w.Attended j → w₁.Attended j ∨ n = some (.enqueue j))
    (added : ∀ j, p = .enqueue j → w₁.Active j → w₁.Attended j) :
    (w₁.setRequest r n).Served := by
  have pending {j : J} (next : n = some (.enqueue j)) : (w₁.setRequest r n).Pending j :=
    ⟨r, by simp [World.setRequest, next]⟩
  -- a request that was about to add the job still is, or is the one that moved
  have still {j : J} (before : w.Pending j) (on : w₁.Active j) :
      w₁.Attended j ∨ (w₁.setRequest r n).Pending j := by
    obtain ⟨q, at'⟩ := before
    by_cases same : q = r
    · subst same
      exact .inl (added j (by simpa using at_.symm.trans at') on)
    · exact .inr ⟨q, by simpa [World.setRequest, same, requests] using at'⟩
  have not_settled {j : J} (there : w₁.Attended j) : w₁.worker j ≠ some .settled := by
    intro done
    have entry := entries j (by simp [done])
    rcases there with waiting | ⟨-, not⟩
    · simp [entry] at waiting
    · exact not done
  refine ⟨fun j on => ?_, fun j done on => ?_, entries⟩
  · rcases active j on with was | there | next
    · rcases served.active j was with there | before | down | ⟨rest, at', mem⟩
      · exact (attended j on there).imp_right fun next => .inl (pending next)
      · exact (still before on).imp_right .inl
      · exact .inr (.inr (.inl (boot.trans down)))
      · exact .inr (.inr (.inr ⟨rest, boot.trans at', mem⟩))
    · exact .inl there
    · exact .inr (.inl (pending next))
  · rcases active j on with was | there | next
    · exact (still (served.settled j (workers j done) was) on).resolve_left
        fun there => not_settled there done
    · exact absurd done (not_settled there)
    · exact pending next

variable [DecidableEq J]

/-- A call on the database alone, of a job that is queued next or was active before. -/
theorem World.Served.wrote {w w₁ : World J} {r : Nat} {p : Pc J} {n : Option (Pc J)} {c : Call J}
    (served : w.Served) (at_ : w.requests r = some p) (call : c.apply w = some w₁)
    (entry : w₁.entry = w.entry) (worker : w₁.worker = w.worker) (other : ∀ j, p ≠ .enqueue j)
    (active : ∀ k, w₁.Active k → w.Active k ∨ n = some (.enqueue k)) :
    (w₁.setRequest r n).Served := by
  obtain ⟨requests, boot⟩ := Call.requests call
  refine served.request at_ requests boot (fun k h => worker ▸ h)
    (fun k h => by rw [entry]; exact served.entries k (worker ▸ h))
    (fun k on => (active k on).imp_right .inr) (fun k _ there => .inl ?_)
    (fun j same => absurd same (other j))
  simpa [World.Attended, entry, worker] using there

/-- The entry of a job that nobody waits for is taken out. -/
theorem World.Served.removes {w w₁ : World J} {r : Nat} {p : Pc J} {n : Option (Pc J)} {j : J}
    (served : w.Served) (at_ : w.requests r = some p) (call : (Call.remove j).apply w = some w₁)
    (other : ∀ j, p ≠ .enqueue j) (leaves : w.Active j → w.entry j ≠ .waiting) :
    (w₁.setRequest r n).Served := by
  obtain rfl := Option.some.inj call
  split
  · next gone =>
    refine served.request at_ rfl rfl (fun _ h => h) (fun k h => ?_) (fun _ on => .inl on)
      (fun k on there => .inl ?_) (fun j same => absurd same (other j))
    · have entry := served.entries k h
      have ne : k ≠ j := fun same => by simp [← same, entry] at gone
      simpa [World.setEntry, ne] using entry
    · by_cases same : k = j
      · subst same
        have active : w.entry k = .active := (there.resolve_left (leaves on)).1
        simp [active] at gone
      · simpa [World.Attended, World.setEntry, same] using there
  · exact served.request at_ rfl rfl (fun _ h => h) served.entries (fun _ on => .inl on)
      (fun _ _ there => .inl there) (fun j same => absurd same (other j))

/-- A job is added, if it has no entry. -/
theorem World.Served.adds {w w₁ : World J} {r : Nat} {n : Option (Pc J)} {j : J} (served : w.Served)
    (at_ : w.requests r = some (.enqueue j)) (call : (Call.add j).apply w = some w₁)
    (leaves : w.Active j → w.entry j ≠ .failed ∧ w.worker j ≠ some .settled) :
    (w₁.setRequest r n).Served := by
  obtain rfl := Option.some.inj call
  split
  · next absent =>
    refine served.request at_ rfl rfl (fun _ h => h) (fun k h => ?_) (fun _ on => .inl on)
      (fun k _ there => .inl ?_) (fun k same _ => .inl ?_)
    · have entry := served.entries k h
      have ne : k ≠ j := fun same => by simp [← same, entry] at absent
      simpa [World.setEntry, ne] using entry
    · by_cases same : k = j
      · exact .inl (by simp [World.setEntry, same])
      · simpa [World.Attended, World.setEntry, same] using there
    · obtain rfl : j = k := by simpa using same
      simp [World.setEntry]
  · next present =>
    refine served.request at_ rfl rfl (fun _ h => h) served.entries (fun _ on => .inl on)
      (fun _ _ there => .inl there) (fun k same on => ?_)
    obtain rfl : j = k := by simpa using same
    obtain ⟨not_failed, not_settled⟩ := leaves on
    cases entry : w.entry j with
    | absent => exact absurd entry present
    | waiting => exact .inl entry
    | active => exact .inr ⟨entry, not_settled⟩
    | failed => exact absurd entry not_failed

/-- A job is marked to be canceled, and the worker that is at it is signalled. -/
theorem World.Served.cancels {w w₁ : World J} {r : Nat} {p : Pc J} {n : Option (Pc J)} {j : J}
    (served : w.Served) (at_ : w.requests r = some p)
    (call : (Call.writeCanceling j).apply w = some w₁) (other : ∀ j, p ≠ .enqueue j)
    (leaves : ¬ w.Active j → w.Attended j) : (w₁.setRequest r n).Served := by
  obtain ⟨requests, boot⟩ := Call.requests call
  obtain ⟨-, rfl⟩ : j ∈ w.jobs ∧ (w.setStatus j .canceling).abort j = w₁ := by
    simpa [Call.apply] using call
  obtain ⟨worker', eq, signal⟩ := (w.setStatus j .canceling).abort_eq j
  rw [eq] at requests boot ⊢
  -- the signal is to a worker that is at the job, and leaves it there
  have settled (k : J) : worker' k = some .settled → w.worker k = some .settled := by
    intro done
    rcases signal k with same | ⟨a, -, at'⟩ | ⟨a, -, at'⟩
    · exact same ▸ done
    · simp [at'] at done
    · simp [at'] at done
  have attended (k : J) (there : w.Attended k) :
      World.Attended { w.setStatus j .canceling with worker := worker' } k :=
    there.imp_right fun active => ⟨active.1, fun done => active.2 (settled k done)⟩
  refine served.request at_ requests boot settled (fun k h => ?_) (fun k on => ?_)
    (fun k _ there => .inl (attended k there)) (fun j same => absurd same (other j))
  · refine served.entries k fun none_ => ?_
    rcases signal k with same | ⟨a, at', -⟩ | ⟨a, at', -⟩
    · exact h (same.trans none_)
    · cases none_.symm.trans at'
    · cases none_.symm.trans at'
  · have on : (w.setStatus j .canceling).Active k := on
    rcases active_setStatus on with was | ⟨rfl, -⟩
    · exact .inl was
    · by_cases was : w.Active k
      · exact .inl was
      · exact .inr (.inl (attended k (leaves was)))

/-- **A request's call** leaves every active job served, where it leaves none behind. -/
theorem World.Served.advance {w w' : World J} {r : Nat} {found : Option J} (served : w.Served)
    (leaves : leavesNone w (.advance r found)) (move : step w (.advance r found) = some w') :
    w'.Served := by
  simp only [step, Option.bind_eq_some_iff, Option.map_eq_some_iff] at move
  obtain ⟨p, at_, ⟨c, n⟩, next, w₁, call, rfl⟩ := move
  have leaves := leaves p at_
  -- what a call on the database alone comes to
  have rows := served.wrote (n := n) at_ call
  cases p with
  | startDraft j =>
    simp only [Pc.next, Option.some.injEq, Prod.mk.injEq] at next
    obtain ⟨rfl, rfl⟩ := next
    obtain ⟨-, rfl⟩ : j ∈ w.jobs ∧ w.setStatus j .queued = w₁ := by simpa [Call.apply] using call
    refine rows rfl rfl (by simp) fun k on => ?_
    exact (active_setStatus on).imp_right fun h => by rw [h.1]
  | requeue op j =>
    simp only [Pc.next_requeue, Option.some.injEq] at next
    split at next
    · obtain ⟨rfl, rfl⟩ := next
      obtain ⟨-, rfl⟩ : j ∈ w.jobs ∧ w.setStatus j .completed = w₁ := by
        simpa [Call.apply] using call
      exact rows rfl rfl (by simp) fun k on => .inl ((active_setStatus on).resolve_right fun h => by cases h.2)
    · obtain ⟨rfl, rfl⟩ := next
      obtain ⟨-, rfl⟩ : j ∈ w.jobs ∧ w.setStatus j .queued = w₁ := by
        simpa [Call.apply] using call
      refine rows rfl rfl (by simp) fun k on => ?_
      exact (active_setStatus on).imp_right fun h => by rw [h.1]
  | create =>
    simp only [Pc.next, Option.map_eq_some_iff, Prod.mk.injEq] at next
    obtain ⟨id, -, rfl, rfl⟩ := next
    have active {k} := Call.active (k := k) call
    obtain ⟨-, rfl⟩ : id ∉ w.made ∧
        { w.setStatus id .queued with jobs := id :: w.jobs, made := id :: w.made } = w₁ := by
      simpa [Call.apply] using call
    refine rows rfl rfl (by simp) fun k on => ?_
    rcases active on with was | ⟨-, ⟨_, eq⟩ | eq | ⟨_, eq⟩⟩
    · exact .inl was
    · cases eq
    · cases eq
    · cases eq
      exact .inr rfl
  | createDraft =>
    simp only [Pc.next, Option.map_eq_some_iff, Prod.mk.injEq] at next
    obtain ⟨id, -, rfl, rfl⟩ := next
    have calm {k} (on : w₁.Active k) : w.Active k :=
      (Call.active call on).resolve_right fun h => by cases h.1
    obtain ⟨-, rfl⟩ : id ∉ w.made ∧
        { w.setStatus id .draft with jobs := id :: w.jobs, made := id :: w.made } = w₁ := by
      simpa [Call.apply] using call
    exact rows rfl rfl (by simp) fun k on => .inl (calm on)
  | dropDrafts extra =>
    simp only [Pc.next, Option.some.injEq, Prod.mk.injEq] at next
    obtain ⟨rfl, rfl⟩ := next
    have calm {k} (on : w₁.Active k) : w.Active k :=
      (Call.active call on).resolve_right fun h => by cases h.1
    obtain rfl := Option.some.inj call
    exact rows rfl rfl (by simp) fun k on => .inl (calm on)
  | enqueue j =>
    simp only [Pc.next, Option.some.injEq, Prod.mk.injEq] at next
    obtain ⟨rfl, rfl⟩ := next
    exact served.adds at_ call leaves
  | writeCanceling j =>
    simp only [Pc.next, Option.some.injEq, Prod.mk.injEq] at next
    obtain ⟨rfl, rfl⟩ := next
    exact served.cancels at_ call (by simp) leaves
  | removeEntry j | dropSettled _ j =>
    simp only [Pc.next, Option.some.injEq, Prod.mk.injEq] at next
    obtain ⟨rfl, -⟩ := next
    exact served.removes at_ call (by simp) leaves
  | _ =>
    obtain rfl := Pc.next_of_reads rfl next
    obtain rfl := Option.some.inj call
    exact rows rfl rfl (by simp) fun k on => .inl on

/-! ## The steps -/

omit [DecidableEq J] in
/-- A step on one job, and no request's: that job is attended, or about to be added, if it is
active. -/
theorem World.Served.of_job {w w' : World J} (served : w.Served) (j : J)
    (requests : w'.requests = w.requests) (boot : w'.boot = w.boot) (jobs : w'.jobs = w.jobs)
    (elsewhere : ∀ k, k ≠ j → w'.status k = w.status k ∧ w'.entry k = w.entry k ∧
      w'.worker k = w.worker k)
    (here : w'.Active j → w'.Attended j ∨ w.Pending j)
    (entry : w'.worker j ≠ none → w'.entry j = .active) : w'.Served := by
  have pending {k : J} : w.Pending k → w'.Pending k := fun ⟨r, at_⟩ => ⟨r, requests ▸ at_⟩
  refine ⟨fun k on => ?_, fun k done on => ?_, fun k at_ => ?_⟩
  · by_cases same : k = j
    · subst same
      exact (here on).imp_right fun before => .inl (pending before)
    · obtain ⟨status, entry_eq, worker⟩ := elsewhere k same
      rcases served.active k ⟨jobs ▸ on.1, status ▸ on.2⟩ with there | before | down | rest
      · exact .inl (by simpa [World.Attended, entry_eq, worker] using there)
      · exact .inr (.inl (pending before))
      · exact .inr (.inr (.inl (boot.trans down)))
      · exact .inr (.inr (.inr (by simpa [boot] using rest)))
  · by_cases same : k = j
    · subst same
      rcases here on with there | before
      · have active := entry (by simp [done])
        rcases there with waiting | ⟨-, not⟩
        · simp [active] at waiting
        · exact absurd done not
      · exact pending before
    · obtain ⟨status, -, worker⟩ := elsewhere k same
      exact pending (served.settled k (worker ▸ done) ⟨jobs ▸ on.1, status ▸ on.2⟩)
  · by_cases same : k = j
    · subst same
      exact entry at_
    · obtain ⟨-, entry_eq, worker⟩ := elsewhere k same
      exact entry_eq.trans (served.entries k (worker ▸ at_))

/-- **A worker's step.** -/
theorem World.Served.work {w w' : World J} {j : J} {phase : Phase} {m : Move} (served : w.Served)
    (leaves : leavesNone w (.work j m)) (at_ : w.worker j = some phase)
    (move : m.run w j phase = some w') : w'.Served := by
  have entry : w.entry j = .active := served.entries j (by simp [at_])
  cases m with
  | read =>
    cases phase with
    | fetched =>
      simp only [Move.run] at move
      split at move
      · obtain rfl := Option.some.inj move
        refine served.of_job j rfl rfl rfl (fun k ne => ⟨rfl, rfl, by simp [World.setWorker, ne]⟩)
          (fun on => .inl (.inr ⟨entry, ?_⟩)) (fun _ => entry)
        -- a job that is over is not active
        have on : (w.status j).active = true := on.2
        have going : (w.status j).terminal = false := by
          revert on
          cases w.status j <;> simp [BridgeJobStatus.active, BridgeJobStatus.terminal]
        simp only [World.setWorker, Function.update_self, going, Bool.false_eq_true, if_false]
        split
        · simp
        · simp
      · cases move
    | _ => cases move
  | markRunning =>
    cases phase with
    | starting a =>
      simp only [Move.run] at move
      split at move
      · obtain rfl := Option.some.inj move
        exact served.of_job j rfl rfl rfl
          (fun k ne => ⟨by simp [World.setStatus, World.setWorker, ne], rfl,
            by simp [World.setStatus, World.setWorker, ne]⟩)
          (fun _ => .inl (.inr ⟨entry, by simp [World.setWorker]⟩)) (fun _ => entry)
      · cases move
    | executing a =>
      simp only [Move.run] at move
      split at move
      · obtain rfl := Option.some.inj move
        exact served.of_job j rfl rfl rfl (fun k ne => ⟨by simp [World.setStatus, ne], rfl, rfl⟩)
          (fun _ => .inl (.inr ⟨entry, by simp [World.setStatus, at_]⟩)) (fun _ => entry)
      · cases move
    | _ => cases move
  | finalize s =>
    have ended (final : s.active = false) :
        ((w.setStatus j s).setWorker j (some .settled)).Served :=
      served.of_job j rfl rfl rfl
        (fun k ne => ⟨by simp [World.setStatus, World.setWorker, ne], rfl,
          by simp [World.setStatus, World.setWorker, ne]⟩)
        (fun on => absurd on.2 (by simp [World.setStatus, World.setWorker, final])) (fun _ => entry)
    cases phase with
    | executing a =>
      simp only [Move.run] at move
      split at move
      · next may =>
        obtain rfl := Option.some.inj move
        exact ended (by rcases may.2 with rfl | rfl | ⟨rfl, -⟩ <;> rfl)
      · cases move
    | canceling =>
      simp only [Move.run] at move
      split at move
      · next may =>
        obtain rfl := Option.some.inj move
        exact ended (by rw [may.2]; rfl)
      · cases move
    | _ => cases move
  | detach =>
    cases phase with
    | executing a =>
      simp only [Move.run] at move
      split at move
      · obtain rfl := Option.some.inj move
        exact served.of_job j rfl rfl rfl (fun k ne => ⟨rfl, rfl, by simp [World.setWorker, ne]⟩)
          (fun on => .inr (leaves on)) (fun _ => entry)
      · cases move
    | _ => cases move
  | complete =>
    cases phase with
    | settled =>
      obtain rfl := Option.some.inj move
      exact served.of_job j rfl rfl rfl
        (fun k ne => ⟨rfl, by simp [World.setEntry, World.setWorker, ne],
          by simp [World.setEntry, World.setWorker, ne]⟩)
        (fun on => .inr (served.settled j at_ on)) (by simp [World.setWorker])
    | _ => cases move
  | throw =>
    cases phase with
    | settled => cases move
    | _ =>
      obtain rfl := Option.some.inj move
      exact served.of_job j rfl rfl rfl
        (fun k ne => ⟨rfl, by simp [World.setEntry, World.setWorker, ne],
          by simp [World.setEntry, World.setWorker, ne]⟩)
        (fun on => .inr (leaves on)) (by simp [World.setWorker])

omit [DecidableEq J] in
/-- A job of the recovery's list is back in the queue, and off the list. -/
theorem World.Served.of_recovered {w : World J} (served : w.Served) {j : J} {rest : List J}
    (at_ : w.boot = .recovering (j :: rest)) {e : J → Entry}
    (elsewhere : ∀ k, k ≠ j → e k = w.entry k)
    (here : w.Active j → World.Attended { w with entry := e, boot := .recovering rest } j ∨
      w.Pending j)
    (entry : w.worker j ≠ none → e j = .active) :
    World.Served { w with entry := e, boot := .recovering rest } := by
  refine ⟨fun k on => ?_, served.settled, fun k busy => ?_⟩
  · by_cases same : k = j
    · subst same
      exact (here on).imp_right .inl
    · rcases served.active k on with there | before | down | ⟨l, at', mem⟩
      · exact .inl (by simpa [World.Attended, elsewhere k same] using there)
      · exact .inr (.inl before)
      · cases at_.symm.trans down
      · obtain rfl : j :: rest = l := by simpa using at_.symm.trans at'
        exact .inr (.inr (.inr ⟨rest, rfl, by simpa [same] using mem⟩))
  · by_cases same : k = j
    · subst same
      exact entry busy
    · exact (elsewhere k same).trans (served.entries k busy)

/-- **One step leaves every active job served**, where it leaves none behind. -/
theorem World.Served.step {w w' : World J} {e : Event J} (served : w.Served)
    (leaves : leavesNone w e) (move : Jobs.step w e = some w') : w'.Served := by
  cases e with
  | advance r found => exact served.advance leaves move
  | work j m =>
    simp only [Jobs.step, Option.bind_eq_some_iff] at move
    obtain ⟨phase, at_, move⟩ := move
    exact served.work leaves at_ move
  | request r p =>
    simp only [Jobs.step] at move
    split at move
    · next begins =>
      obtain rfl := Option.some.inj move
      have pending {j : J} : w.Pending j → (w.setRequest r (some p)).Pending j := by
        rintro ⟨q, at_⟩
        have ne : q ≠ r := fun same => by simp [same, begins.2.1] at at_
        exact ⟨q, by simpa [World.setRequest, ne] using at_⟩
      exact ⟨fun j on => (served.active j on).imp_right (.imp_left pending),
        fun j done on => pending (served.settled j done on), served.entries⟩
    · cases move
  | giveUp r =>
    simp only [Jobs.step] at move
    split at move
    · cases move
    · obtain rfl := Option.some.inj move
      -- what it was about to add is attended already
      have pending {j : J} (on : w.Active j) :
          w.Pending j → w.Attended j ∨ (w.setRequest r none).Pending j := by
        rintro ⟨q, at_⟩
        by_cases same : q = r
        · exact .inl (leaves j (same ▸ at_) on)
        · exact .inr ⟨q, by simpa [World.setRequest, same] using at_⟩
      refine ⟨fun j on => ?_, fun j done on => ?_, served.entries⟩
      · rcases served.active j on with there | before | rest
        · exact .inl there
        · exact (pending on before).imp_right .inl
        · exact .inr (.inr rest)
      · exact (pending on (served.settled j done on)).resolve_left
          fun there => served.not_settled there done
  | fetch j =>
    simp only [Jobs.step] at move
    split at move
    · obtain rfl := Option.some.inj move
      exact served.of_job j rfl rfl rfl
        (fun k ne => ⟨rfl, by simp [World.setEntry, World.setWorker, ne],
          by simp [World.setEntry, World.setWorker, ne]⟩)
        (fun _ => .inl (.inr ⟨by simp [World.setEntry, World.setWorker], by simp [World.setWorker]⟩))
        (fun _ => by simp [World.setEntry, World.setWorker])
    · cases move
  | stalled j again =>
    simp only [Jobs.step] at move
    split at move
    · next gone =>
      obtain rfl := Option.some.inj move
      refine served.of_job j rfl rfl rfl (fun k ne => ⟨rfl, by simp [World.setEntry, ne], rfl⟩)
        (fun on => ?_) (fun at_ => absurd gone.2.2 at_)
      cases again with
      | true => exact .inl (.inl (by simp [World.setEntry]))
      | false => exact .inr (leaves on)
    · cases move
  | crash =>
    obtain rfl := Option.some.inj move
    exact ⟨fun _ _ => .inr (.inr (.inl rfl)), nofun, fun j at_ => absurd rfl at_⟩
  | boot read =>
    simp only [Jobs.step] at move
    split at move
    · obtain rfl := Option.some.inj move
      refine ⟨fun j on => ?_, served.settled, served.entries⟩
      cases read with
      | true => exact .inr (.inr (.inr ⟨_, rfl, List.mem_filter.mpr ⟨on.1, on.2⟩⟩))
      | false => exact .inl (leaves j on)
    · cases move
  | recover added =>
    simp only [Jobs.step] at move
    split at move
    · next at_ =>
      obtain rfl := Option.some.inj move
      refine ⟨fun j on => ?_, served.settled, served.entries⟩
      rcases served.active j on with there | before | down | ⟨l, at', mem⟩
      · exact .inl there
      · exact .inr (.inl before)
      · cases at_.symm.trans down
      · obtain rfl : [] = l := by simpa using at_.symm.trans at'
        cases mem
    · next j rest at_ =>
      obtain rfl := Option.some.inj move
      -- an entry that is left alone is waiting or active
      have left_alone (here : w.Active j → w.Attended j ∨ w.Pending j) :
          World.Served { w with boot := .recovering rest } :=
        served.of_recovered at_ (e := w.entry) (fun _ _ => rfl) here (served.entries j)
      have cleared (gone : w.entry j = .absent ∨ w.entry j = .failed) (e : Entry)
          (here : w.Active j → e = .waiting) :
          (World.setEntry { w with boot := .recovering rest } j e).Served := by
        refine served.of_recovered at_ (e := Function.update w.entry j e)
          (fun k ne => by simp [ne]) (fun on => .inl (.inl (by simp [here on])))
          (fun busy => ?_)
        simp [served.entries j busy] at gone
      split
      · split
        · next gone => exact cleared gone .waiting fun _ => rfl
        · next present =>
          refine left_alone fun on => ?_
          cases entry : w.entry j with
          | absent | failed => simp [entry] at present
          | waiting => exact .inl (.inl entry)
          | active =>
            by_cases done : w.worker j = some .settled
            · exact .inr (served.settled j done on)
            · exact .inl (.inr ⟨entry, done⟩)
      · have leaves (on : w.Active j) : w.Attended j := by
          cases added with
          | true => contradiction
          | false => exact leaves j rest at_ on
        split
        · next failed =>
          refine cleared (.inr failed) .absent fun on => ?_
          rcases leaves on with waiting | ⟨active, -⟩
          · simp [failed] at waiting
          · simp [failed] at active
        · exact left_alone fun on => .inl (leaves on)
    · cases move

/-- **In a run whose steps leave none behind no job is stranded**, at any state between requests. -/
theorem noneStranded_of_leavesNone {w t : World J} {es : List (Event J)} (rest : w.AtRest)
    (run : Run Jobs.step leavesNone w es t) : t.NoneStranded := by
  have served : t.Served :=
    run.invariant rest.served fun _ _ _ leaves served move => served.step leaves move
  rintro ⟨running, none_⟩ j on
  rcases served.active j on with there | ⟨r, at_⟩ | down | ⟨l, at_, -⟩
  · exact there
  · simp [none_] at at_
  · simp [running] at down
  · simp [running] at at_

/-! ## A job canceled before, and after, a worker took it -/

namespace Canceled

/-- A bridge that has been prepared: job 1 is its draft. -/
def bridge : World Nat where
  jobs := [1]
  made := [1]
  status _ := .draft
  entry _ := .absent
  worker _ := none
  requests _ := none
  boot := .running

theorem atRest : bridge.AtRest where
  idle j active := by simp [World.Active, bridge, BridgeJobStatus.active] at active
  made j row := row
  queue j := rfl
  workers j := rfl
  requests r := rfl
  boot := rfl

/-- `start` of the draft. -/
def start : List (Event Nat) :=
  [.request 0 (.start none false), .advance 0 (some 1), .advance 0 none, .advance 0 none]

def execute : List (Event Nat) := [.fetch 1, .work 1 .read, .work 1 .markRunning]

def cancel : List (Event Nat) :=
  [.request 0 (.cancel 1), .advance 0 none, .advance 0 none, .advance 0 none]

end Canceled

/-- A job that is canceled while it executes. -/
theorem noneStranded_executing : ∃ t, runEvents Jobs.step Canceled.bridge
    (Canceled.start ++ Canceled.execute ++ Canceled.cancel) = some t ∧ t.Active 1 ∧
      t.NoneStranded := by
  refine ⟨_, rfl, by decide, noneStranded_of_leavesNone Canceled.atRest
    (show Run Jobs.step leavesNone _ (Canceled.start ++ Canceled.execute ++ Canceled.cancel) _
      from ?_)⟩
  have call {w : World Nat} {p : Pc Nat} {found : Option Nat} (at_ : w.requests 0 = some p)
      (leaves : p.LeavesNone w) : leavesNone w (.advance 0 found) := by
    intro p' at'
    obtain rfl := Option.some.inj (at_.symm.trans at')
    exact leaves
  refine .cons trivial rfl (.cons (call rfl trivial) rfl (.cons (call rfl trivial) rfl
    (.cons (call rfl ?_) rfl (.cons trivial rfl (.cons trivial rfl (.cons trivial rfl
    (.cons trivial rfl (.cons (call rfl trivial) rfl (.cons (call rfl ?_) rfl
    (.cons (call rfl ?_) rfl (.nil _)))))))))))
  · exact fun _ => by decide
  · exact fun idle => absurd (by decide) idle
  · exact fun _ => by decide

/-- **A job can be stranded:** canceled while it waits, it loses the entry with which a worker would
have come to see that it is. -/
theorem not_noneStranded : ¬ ∀ (w t : World Nat) (es : List (Event Nat)), w.AtRest →
    Run Jobs.step anyStep w es t → t.NoneStranded := by
  intro always
  obtain ⟨t, run, between, on, entry⟩ : ∃ t, runEvents Jobs.step Canceled.bridge
      (Canceled.start ++ Canceled.cancel) = some t ∧ t.BetweenRequests ∧ t.Active 1 ∧
        t.entry 1 = .absent := by
    refine ⟨_, rfl, ⟨rfl, fun r => ?_⟩, by decide, by decide⟩
    simp [Canceled.bridge, World.setRequest, World.setEntry, World.setStatus, World.abort]
  rcases always _ t _ Canceled.atRest (run_of_eval run) between 1 on with waiting | ⟨active, -⟩
  · simp [entry] at waiting
  · simp [entry] at active

end Syncle.Jobs
