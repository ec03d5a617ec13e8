import Syncle.Jobs.Lifecycle

/-!
# At most one run of a bridge in progress

`start` and `tick` ask whether a job of the bridge is in progress before they make another one. The
other ways a job becomes active ask about that job alone: a draft is started, a run is resumed, its
failures are retried or sent again, whatever else of the bridge is running. And what was asked can
have changed by the time it is acted on: the answer and the write are two calls.

`World.GoesAhead` is where a request is told it may go ahead. A run whose requests go ahead one at a
time (until they have written what they were told they may), and only `start` and `cancel` of the
run in progress while a job is active, never has two jobs in progress: `oneRun_of_goesAlone`.
-/

namespace Syncle.Jobs

open Lib

variable {J : Type*}

/-- **At most one job of the bridge is queued, running or canceling.** -/
def World.OneRun (w : World J) : Prop :=
  ∀ j k, w.Active j → w.Active k → j = k

/-- No job of the bridge is in progress. -/
def World.Idle (w : World J) : Prop :=
  ∀ j, ¬ w.Active j

/-- Has the request been told that it may go ahead, and not yet written what it was going to? -/
def Pc.decided : Pc J → Bool
  | startDraft _ | findLatest _ | create | resumeLatest _ | clear .. | dropSettled ..
  | requeue .. | writeCanceling _ => true
  | _ => false

/-- No request but `r` stands between what it was told and what it writes. -/
def World.Alone (w : World J) (r : Nat) : Prop :=
  ∀ q p, w.requests q = some p → p.decided = true → q = r

variable [DecidableEq J]

/-- Request `r`, answered `found`, is told that it may go ahead. -/
def World.GoesAhead (w : World J) (r : Nat) (found : Option J) (p : Pc J) : Prop :=
  w.requests r = some p ∧ p.decided = false ∧
    ∃ call next, p.next w found = some (call, some next) ∧ next.decided = true

/-- What a request may be told to go ahead on: nothing of the bridge is in progress. A plain start has
looked for itself; a run in progress may be canceled; and a delivery that was its job's last failure
leaves the job completed. -/
def Pc.Cleared (w : World J) : Pc J → Prop
  | findActive _ | again (.retryDelivery true) _ => True
  | cancel j => ∀ k, w.Active k → k = j
  | _ => w.Idle

/-- A step in which no request is told to go ahead while another has been told so and has not written
yet, nor, where it does not itself look at the bridge's other jobs, while one of them is in
progress. -/
def goesAlone (w : World J) : Event J → Prop
  | .advance r found => ∀ p, w.GoesAhead r found p → w.Alone r ∧ p.Cleared w
  | _ => True

/-- A call after which nothing has been told to go ahead that had not been before. -/
theorem goesAlone_of_untold {w : World J} {r : Nat} {found : Option J} {p : Pc J}
    (at_ : w.requests r = some p)
    (untold : p.decided = true ∨ ∀ c n, p.next w found = some (c, some n) → n.decided = false) :
    goesAlone w (.advance r found) := by
  rintro p' ⟨at_', waits, c, n, next, told⟩
  obtain rfl := Option.some.inj (at_.symm.trans at_')
  rcases untold with decided | untold
  · simp [decided] at waits
  · simp [untold c n next] at told

/-!
## What a call leaves alone

A call writes one job's row or one entry of the queue: what others have read of other jobs holds yet.
-/

/-- Statuses of a job that has not been put into the queue. -/
def BridgeJobStatus.unstarted : BridgeJobStatus → Bool
  | draft | paused => true
  | _ => false

/-- A job that was put into the queue, now or earlier. -/
def World.Started (w : World J) (j : J) : Prop :=
  j ∈ w.made ∧ (w.status j).unstarted = false

/-- No id is forgotten, and no job goes back to where it had not been started. -/
structure Kept (w w' : World J) : Prop where
  made : ∀ j ∈ w.made, j ∈ w'.made
  status : ∀ j ∈ w.made, (w.status j).unstarted = false → (w'.status j).unstarted = false

omit [DecidableEq J] in
theorem Kept.started {w w' : World J} (kept : Kept w w') {j : J} (started : w.Started j) :
    w'.Started j :=
  ⟨kept.made j started.1, kept.status j started.1 started.2⟩

omit [DecidableEq J] in
theorem Kept.of_eq {w w' : World J} (made : w'.made = w.made) (status : w'.status = w.status) :
    Kept w w' :=
  ⟨fun j h => by rwa [made], fun j _ h => by rwa [status]⟩

/-- Nothing becomes active. -/
def Calm (w w' : World J) : Prop :=
  ∀ j, w'.Active j → w.Active j

omit [DecidableEq J] in
theorem Calm.of_eq {w w' : World J} (jobs : w'.jobs = w.jobs) (status : w'.status = w.status) :
    Calm w w' := by
  intro j ⟨row, active⟩
  exact ⟨jobs ▸ row, status ▸ active⟩

theorem Call.calm {w w' : World J} {c : Call J} (quiet : c.activates = false)
    (move : c.apply w = some w') : Calm w w' := by
  intro k active
  rcases Call.active move active with was | ⟨on, -⟩
  · exact was
  · simp [quiet] at on

/-!
## The invariant

Beside the stores and the workers (`Stored`) it is about what each request has been told and still
relies on (`Relies`), and that no two requests have been told it at once.
-/

/-- What a request has been told, and still relies on. -/
def Pc.Relies (w : World J) : Pc J → Prop
  | startDraft _ | findLatest _ | create | resumeLatest _ => w.Idle
  | clear op j | dropSettled op j | requeue op j =>
    if op = .retryDelivery true then ¬ w.Active j else w.Idle
  | writeCanceling j => ∀ k, w.Active k → k = j
  | enqueue j => w.Started j
  | _ => True

omit [DecidableEq J] in
theorem Pc.Relies.mono {w w' : World J} {p : Pc J} (relies : p.Relies w) (kept : Kept w w')
    (calm : Calm w w') : p.Relies w' := by
  cases p with
  | startDraft _ | findLatest _ | create | resumeLatest _ => exact fun j h => relies j (calm j h)
  | clear op j | dropSettled op j | requeue op j =>
    simp only [Relies] at relies ⊢
    split
    · next gone => exact fun h => by simp only [gone, if_true] at relies; exact relies (calm j h)
    · next gone => exact fun k h => by simp only [gone, if_false] at relies; exact relies k (calm k h)
  | writeCanceling j => exact fun k h => relies k (calm k h)
  | enqueue j => exact kept.started relies
  | _ => trivial

omit [DecidableEq J] in
/-- A request that is not about to write relies on nothing another request can change. -/
theorem Pc.Relies.kept {w w' : World J} {p : Pc J} (relies : p.Relies w) (kept : Kept w w')
    (waits : p.decided = false) : p.Relies w' := by
  cases p with
  | enqueue j => exact kept.started relies
  | startDraft _ | findLatest _ | create | resumeLatest _ | clear _ _ | dropSettled _ _
  | requeue _ _ | writeCanceling _ => simp [decided] at waits
  | _ => trivial

/-- Is the worker at the job itself, past what it read of its row? -/
def Phase.begun : Phase → Bool
  | starting _ | executing _ | canceling => true
  | _ => false

/-- The part of the invariant that is about the stores and the workers. -/
structure Stored (w : World J) : Prop where
  one : w.OneRun
  made : ∀ j ∈ w.jobs, j ∈ w.made
  /-- a worker is at a job that is active, if it is still there -/
  begun : ∀ j phase, w.worker j = some phase → phase.begun = true → j ∈ w.jobs → w.Active j
  entries : ∀ j, w.entry j ≠ .absent → w.Started j
  workers : ∀ j, w.worker j ≠ none → w.Started j
  recovering : ∀ rest, w.boot = .recovering rest → ∀ j ∈ rest, w.Started j

structure Inv (w : World J) : Prop extends Stored w where
  relies : ∀ r p, w.requests r = some p → p.Relies w
  single : ∀ q r p p', w.requests q = some p → w.requests r = some p' →
    p.decided = true → p'.decided = true → q = r

omit [DecidableEq J] in
theorem World.AtRest.inv [DecidableEq J] {w : World J} (rest : w.AtRest) : Inv w where
  one j k active := absurd active (rest.idle j)
  made := rest.made
  begun j phase at_ := by simp [rest.workers] at at_
  entries j entry := absurd (rest.queue j) entry
  workers j worker := absurd (rest.workers j) worker
  recovering l at_ := by simp [rest.boot] at at_
  relies r p at_ := by simp [rest.requests] at at_
  single q r p p' at_ := by simp [rest.requests] at at_

theorem Stored.setEntry {w : World J} (inv : Stored w) {j : J} {e : Entry}
    (started : e ≠ .absent → w.Started j) : Stored (w.setEntry j e) := by
  refine ⟨inv.one, inv.made, inv.begun, fun k h => ?_, inv.workers, inv.recovering⟩
  by_cases same : k = j
  · subst same
    exact started (by simpa [World.setEntry] using h)
  · exact inv.entries k (by simpa [World.setEntry, same] using h)

theorem Stored.setWorker {w : World J} (inv : Stored w) {j : J} {phase : Option Phase}
    (started : phase ≠ none → w.Started j)
    (at_job : ∀ p, phase = some p → p.begun = true → j ∈ w.jobs → w.Active j) :
    Stored (w.setWorker j phase) := by
  refine ⟨inv.one, inv.made, fun k p at_ => ?_, inv.entries, fun k h => ?_, inv.recovering⟩
  · by_cases same : k = j
    · subst same
      exact at_job p (by simpa [World.setWorker] using at_)
    · exact inv.begun k p (by simpa [World.setWorker, same] using at_)
  · by_cases same : k = j
    · subst same
      exact started (by simpa [World.setWorker] using h)
    · exact inv.workers k (by simpa [World.setWorker, same] using h)

/-! ## A call -/

/-- What the stores need of a call for the invariant to survive it. -/
def Call.Fits (w : World J) : Call J → Prop
  | .write j s => s.unstarted = false ∧
    if s.active then ∀ k, w.Active k → k = j
    else ∀ phase, w.worker j = some phase → phase.begun = true → j ∉ w.jobs
  | .writeCanceling j => ∀ k, w.Active k → k = j
  | .create _ s => s.active = true → w.Idle
  | .add j => w.Started j
  | _ => True

theorem Call.kept {w w' : World J} {c : Call J} (fits : c.Fits w) (move : c.apply w = some w') :
    Kept w w' := by
  cases c with
  | read =>
    obtain rfl : w = w' := by simpa [Call.apply] using move
    exact .of_eq rfl rfl
  | write j s =>
    obtain ⟨-, rfl⟩ : j ∈ w.jobs ∧ w.setStatus j s = w' := by simpa [Call.apply] using move
    refine ⟨fun k h => h, fun k _ h => ?_⟩
    by_cases same : k = j
    · subst same
      simpa [World.setStatus] using fits.1
    · simpa [World.setStatus, same] using h
  | writeCanceling j =>
    obtain ⟨-, rfl⟩ : j ∈ w.jobs ∧ (w.setStatus j .canceling).abort j = w' := by
      simpa [Call.apply] using move
    obtain ⟨worker', eq, -⟩ := World.abort_eq (w.setStatus j .canceling) j
    rw [eq]
    refine ⟨fun k h => h, fun k _ h => ?_⟩
    by_cases same : k = j
    · subst same
      simp [World.setStatus, BridgeJobStatus.unstarted]
    · simpa [World.setStatus, same] using h
  | create j s =>
    obtain ⟨fresh, rfl⟩ : j ∉ w.made ∧
        { w.setStatus j s with jobs := j :: w.jobs, made := j :: w.made } = w' := by
      simpa [Call.apply] using move
    refine ⟨fun k h => List.mem_cons_of_mem _ h, fun k h was => ?_⟩
    have other : k ≠ j := fun same => fresh (same ▸ h)
    simpa [World.setStatus, other] using was
  | deleteMany js =>
    simp only [Call.apply, Option.some.injEq] at move
    exact .of_eq (by rw [← move]) (by rw [← move])
  | add j | remove j =>
    simp only [Call.apply, Option.some.injEq] at move
    subst move
    split
    · exact .of_eq rfl rfl
    · exact .of_eq rfl rfl

/-- **A call keeps the stores in order**, where it fits. -/
theorem Stored.call {w w' : World J} {c : Call J} (inv : Stored w) (fits : c.Fits w)
    (move : c.apply w = some w') : Stored w' := by
  have kept := Call.kept fits move
  have active {k} := Call.active (k := k) move
  cases c with
  | read =>
    obtain rfl : w = w' := by simpa [Call.apply] using move
    exact inv
  | write j s =>
    obtain ⟨row, rfl⟩ : j ∈ w.jobs ∧ w.setStatus j s = w' := by simpa [Call.apply] using move
    obtain ⟨-, only⟩ := fits
    refine ⟨?_, inv.made, ?_, ?_, ?_, ?_⟩
    · have only' : ∀ k, (w.setStatus j s).Active k → w.Active k ∨ k = j := fun k h =>
        (active_setStatus h).imp_right And.left
      by_cases on : s.active = true
      · simp only [on, if_true] at only
        intro k l hk hl
        rw [(only' k hk).elim (only k) id, (only' l hl).elim (only l) id]
      · intro k l hk hl
        have calm := Call.calm (c := .write j s) (by simpa [Call.activates] using on) move
        exact inv.one k l (calm k hk) (calm l hl)
    · intro k phase at_ begun there
      refine ⟨there, ?_⟩
      have was := inv.begun k phase at_ begun there
      by_cases same : k = j
      · subst same
        by_cases on : s.active = true
        · simpa [World.setStatus] using on
        · simp only [on, Bool.false_eq_true, if_false] at only
          exact absurd there (only phase at_ begun)
      · simpa [World.setStatus, same] using was.2
    · exact fun k h => kept.started (inv.entries k h)
    · exact fun k h => kept.started (inv.workers k h)
    · exact fun rest at_ k h => kept.started (inv.recovering rest at_ k h)
  | writeCanceling j =>
    obtain ⟨row, rfl⟩ : j ∈ w.jobs ∧ (w.setStatus j .canceling).abort j = w' := by
      simpa [Call.apply] using move
    obtain ⟨worker', eq, same_worker⟩ := World.abort_eq (w.setStatus j .canceling) j
    rw [eq] at kept active ⊢
    have had : ∀ k, worker' k ≠ none → w.worker k ≠ none := by
      intro k h
      rcases same_worker k with eq | ⟨a, eq, -⟩ | ⟨a, eq, -⟩
      · exact fun none_ => h (eq.trans none_)
      · simp [show w.worker k = some _ from eq]
      · simp [show w.worker k = some _ from eq]
    refine ⟨?_, inv.made, ?_, ?_, ?_, ?_⟩
    · intro k l hk hl
      have only : ∀ k, (w.setStatus j .canceling).Active k → k = j := fun k h =>
        (active_setStatus h).elim (fits k) And.left
      rw [only k hk, only l hl]
    · intro k phase at_ begun there
      refine ⟨there, ?_⟩
      by_cases same : k = j
      · subst same
        simp [World.setStatus, BridgeJobStatus.active]
      · have was : w.Active k := by
          rcases same_worker k with eq | ⟨a, eq, -⟩ | ⟨a, eq, -⟩
          · exact inv.begun k phase (eq ▸ at_) begun there
          · exact inv.begun k _ eq rfl there
          · exact inv.begun k _ eq rfl there
        simpa [World.setStatus, same] using was.2
    · exact fun k h => kept.started (inv.entries k h)
    · exact fun k h => kept.started (inv.workers k (had k h))
    · exact fun rest at_ k h => kept.started (inv.recovering rest at_ k h)
  | create j s =>
    obtain ⟨fresh, rfl⟩ : j ∉ w.made ∧
        { w.setStatus j s with jobs := j :: w.jobs, made := j :: w.made } = w' := by
      simpa [Call.apply] using move
    refine ⟨?_, ?_, ?_, ?_, ?_, ?_⟩
    · intro k l hk hl
      have hk := active hk
      have hl := active hl
      by_cases on : s.active = true
      · have idle := fits on
        have same {k} (h : w.Active k ∨ (Call.create j s).activates = true ∧
            ((∃ s', Call.create j s = .write k s') ∨ Call.create j s = .writeCanceling k ∨
              ∃ s', Call.create j s = .create k s')) : j = k := by
          simpa [idle k, Call.activates, on] using h
        exact (same hk).symm.trans (same hl)
      · simp only [Call.activates, on, Bool.false_eq_true, false_and, or_false] at hk hl
        exact inv.one k l hk hl
    · intro k h
      rcases List.mem_cons.mp h with rfl | h
      · exact List.mem_cons_self
      · exact List.mem_cons_of_mem _ (inv.made k h)
    · intro k phase at_ begun there
      have known : k ∈ w.made := (inv.workers k (by simp [show w.worker k = some phase from at_])).1
      have other : k ≠ j := fun same => fresh (same ▸ known)
      have was := inv.begun k phase at_ begun (by simpa [other] using there)
      exact ⟨there, by simpa [World.setStatus, other] using was.2⟩
    · exact fun k h => kept.started (inv.entries k h)
    · exact fun k h => kept.started (inv.workers k h)
    · exact fun rest at_ k h => kept.started (inv.recovering rest at_ k h)
  | deleteMany js =>
    simp only [Call.apply, Option.some.injEq] at move
    subst move
    refine ⟨?_, fun k h => inv.made k (List.mem_filter.mp h).1, ?_, inv.entries, inv.workers,
      inv.recovering⟩
    · exact fun k l hk hl => inv.one k l ⟨(List.mem_filter.mp hk.1).1, hk.2⟩
        ⟨(List.mem_filter.mp hl.1).1, hl.2⟩
    · intro k phase at_ begun there
      exact ⟨there, (inv.begun k phase at_ begun (List.mem_filter.mp there).1).2⟩
  | add j =>
    simp only [Call.apply, Option.some.injEq] at move
    subst move
    split
    · exact inv.setEntry fun _ => fits
    · exact inv
  | remove j =>
    simp only [Call.apply, Option.some.injEq] at move
    subst move
    split
    · exact inv.setEntry fun kept => absurd rfl kept
    · exact inv

/-!
## A request

What a request goes by from one call to the next, and how far it relies on nobody having come between.
-/

/-- A request only makes a job active where it has been told that it may. -/
theorem Pc.next_activates {w : World J} {p : Pc J} {found : Option J} {c : Call J}
    {n : Option (Pc J)} (next : p.next w found = some (c, n)) (on : c.activates = true) :
    p.decided = true := by
  cases p with
  | startDraft _ | create | dropSettled _ _ | requeue _ _ | writeCanceling _ => rfl
  | enqueue _ | removeEntry _ | dropDrafts _ =>
    simp only [Pc.next, Option.some.injEq, Prod.mk.injEq] at next
    simp [← next.1, Call.activates] at on
  | createDraft =>
    simp only [Pc.next, Option.map_eq_some_iff, Prod.mk.injEq] at next
    obtain ⟨id, -, rfl, -⟩ := next
    simp [Call.activates, BridgeJobStatus.active] at on
  | _ =>
    obtain rfl := Pc.next_of_reads rfl next
    cases on

/-- What a request relies on is what its call needs. -/
theorem Pc.Relies.fits {w : World J} {p : Pc J} {found : Option J} {c : Call J}
    {n : Option (Pc J)} (inv : Stored w) (relies : p.Relies w)
    (next : p.next w found = some (c, n)) : c.Fits w := by
  cases p with
  | startDraft j =>
    simp only [Pc.next, Option.some.injEq, Prod.mk.injEq] at next
    obtain ⟨rfl, -⟩ := next
    exact ⟨rfl, fun k h => absurd h (relies k)⟩
  | create =>
    simp only [Pc.next, Option.map_eq_some_iff, Prod.mk.injEq] at next
    obtain ⟨id, -, rfl, -⟩ := next
    exact fun _ => relies
  | createDraft =>
    simp only [Pc.next, Option.map_eq_some_iff, Prod.mk.injEq] at next
    obtain ⟨id, -, rfl, -⟩ := next
    exact fun on => by simp [BridgeJobStatus.active] at on
  | requeue op j =>
    simp only [Pc.next_requeue, Option.some.injEq] at next
    simp only [Relies] at relies
    split at next
    · next gone =>
      simp only [gone, if_true] at relies
      obtain ⟨rfl, -⟩ := next
      exact ⟨rfl, fun phase at_ begun row => relies (inv.begun j phase at_ begun row)⟩
    · next gone =>
      simp only [gone, if_false] at relies
      obtain ⟨rfl, -⟩ := next
      exact ⟨rfl, fun k h => absurd h (relies k)⟩
  | enqueue j | writeCanceling j =>
    simp only [Pc.next, Option.some.injEq, Prod.mk.injEq] at next
    obtain ⟨rfl, -⟩ := next
    exact relies
  | removeEntry _ | dropDrafts _ | dropSettled _ _ =>
    simp only [Pc.next, Option.some.injEq, Prod.mk.injEq] at next
    obtain ⟨rfl, -⟩ := next
    trivial
  | _ =>
    obtain rfl := Pc.next_of_reads rfl next
    trivial

/-- Where a request goes on, having been told before that it may: what it relied on it still does, or
it has written and is about to add the job to the queue. -/
theorem Pc.Relies.next_of_decided {w w' : World J} {p n : Pc J} {found : Option J} {c : Call J}
    (made : ∀ j ∈ w.jobs, j ∈ w.made) (relies : p.Relies w) (decided : p.decided = true)
    (next : p.next w found = some (c, some n)) (move : c.apply w = some w') : n.Relies w' := by
  cases p with
  | startDraft j =>
    simp only [Pc.next, Option.some.injEq, Prod.mk.injEq] at next
    obtain ⟨rfl, rfl⟩ := next
    obtain ⟨row, rfl⟩ : j ∈ w.jobs ∧ w.setStatus j .queued = w' := by simpa [Call.apply] using move
    exact ⟨made j row, by simp [World.setStatus, BridgeJobStatus.unstarted]⟩
  | create =>
    simp only [Pc.next, Option.map_eq_some_iff, Prod.mk.injEq, Option.some.injEq] at next
    obtain ⟨id, -, rfl, rfl⟩ := next
    obtain ⟨fresh, rfl⟩ : id ∉ w.made ∧
        { w.setStatus id .queued with jobs := id :: w.jobs, made := id :: w.made } = w' := by
      simpa [Call.apply] using move
    exact ⟨List.mem_cons_self, by simp [World.setStatus, BridgeJobStatus.unstarted]⟩
  | requeue op j =>
    simp only [Pc.next_requeue, Option.some.injEq] at next
    split at next
    · cases next
    · obtain ⟨rfl, rfl⟩ := next
      obtain ⟨row, rfl⟩ : j ∈ w.jobs ∧ w.setStatus j .queued = w' := by
        simpa [Call.apply] using move
      exact ⟨made j row, by simp [World.setStatus, BridgeJobStatus.unstarted]⟩
  | findLatest fresh =>
    obtain rfl := Pc.next_of_reads rfl next
    obtain rfl : w = w' := by simpa [Call.apply] using move
    simp only [Pc.next] at next
    split at next
    · simp only [Option.some.injEq, Prod.mk.injEq, true_and] at next
      split at next
      · exact next ▸ relies
      · exact next ▸ relies
    · cases next
  | resumeLatest j =>
    obtain rfl := Pc.next_of_reads rfl next
    obtain rfl : w = w' := by simpa [Call.apply] using move
    simp only [Pc.next, Option.some.injEq, Prod.mk.injEq, true_and] at next
    split at next
    · simp only [Option.some.injEq] at next
      subst next
      simpa [Relies] using relies
    · cases next
  | clear op j =>
    obtain rfl := Pc.next_of_reads rfl next
    obtain rfl : w = w' := by simpa [Call.apply] using move
    simp only [Pc.next, Option.some.injEq, Prod.mk.injEq, true_and] at next
    split at next
    · exact next ▸ relies
    · exact next ▸ relies
  | dropSettled op j =>
    simp only [Pc.next, Option.some.injEq, Prod.mk.injEq] at next
    obtain ⟨rfl, rfl⟩ := next
    have relies' : (requeue op j).Relies w := relies
    have calm := Call.calm (c := .remove j) rfl move
    exact relies'.mono (Call.kept (c := .remove j) trivial move) calm
  | writeCanceling j =>
    simp only [Pc.next, Option.some.injEq, Prod.mk.injEq] at next
    obtain ⟨rfl, rfl⟩ := next
    trivial
  | _ => cases decided

/-- A request that was waiting to be told goes on to rely on what it is told. -/
theorem Pc.Cleared.relies {w : World J} {p n : Pc J} {found : Option J} {c : Call J}
    (waits : p.decided = false) (next : p.next w found = some (c, some n))
    (cleared : n.decided = true → p.Cleared w) : n.Relies w := by
  cases p with
  | start id fresh =>
    cases id with
    | none =>
      simp only [Pc.next] at next
      split at next
      · simp only [Option.some.injEq, Prod.mk.injEq] at next
        obtain ⟨-, next⟩ := next
        split at next
        · subst next
          exact cleared rfl
        · subst next
          trivial
      · cases next
    | some j =>
      simp only [Pc.next] at next
      split at next
      · simp only [Option.some.injEq, Prod.mk.injEq] at next
        obtain ⟨-, next⟩ := next
        split at next
        · subst next
          exact cleared rfl
        · subst next
          trivial
      · simp only [Option.some.injEq, Prod.mk.injEq] at next
        cases next.2
  | findActive fresh =>
    simp only [Pc.next] at next
    split at next
    · next finds =>
      simp only [Option.some.injEq, Prod.mk.injEq] at next
      split at next
      · cases next.2
      · next none_ =>
        obtain rfl : found = none := by simpa using none_
        obtain ⟨-, rfl⟩ : _ ∧ findLatest fresh = n := by simpa using next
        exact World.not_active_of_finds_none finds
    · cases next
  | again op j =>
    simp only [Pc.next, Option.some.injEq, Prod.mk.injEq] at next
    obtain ⟨-, next⟩ := next
    split at next
    · next admitted =>
      have cleared : (again op j).Cleared w := cleared (by
        simp only [Option.some.injEq] at next
        subst next
        split
        · rfl
        · rfl)
      -- the job itself is not active in any status the operation is admitted in
      have still : ¬ w.Active j := fun active => by
        exact absurd active.2 (by simp [op.not_active_of_admits admitted.2])
      have rely : if op = .retryDelivery true then ¬ w.Active j else w.Idle := by
        cases op with
        | retryDelivery streamed =>
          cases streamed with
          | true => exact still
          | false => exact cleared
        | _ => exact cleared
      simp only [Option.some.injEq] at next
      subst next
      split
      · exact rely
      · exact rely
    · cases next
  | cancel j =>
    simp only [Pc.next, Option.some.injEq, Prod.mk.injEq] at next
    obtain ⟨-, next⟩ := next
    split at next
    · simp only [Option.some.injEq] at next
      subst next
      exact cleared rfl
    · cases next
  | tick | prepare _ =>
    simp only [Pc.next] at next
    split at next
    · simp only [Option.some.injEq, Prod.mk.injEq] at next
      obtain ⟨-, next⟩ := next
      split at next
      · cases next
      · obtain rfl := Option.some.inj next
        trivial
    · cases next
  | findDrafts _ =>
    simp only [Pc.next] at next
    split at next
    · simp only [Option.some.injEq, Prod.mk.injEq] at next
      obtain ⟨-, next⟩ := next
      split at next
      · obtain rfl := Option.some.inj next
        trivial
      · split at next
        · cases next
        · obtain rfl := Option.some.inj next
          trivial
    · cases next
  | enqueue _ | removeEntry _ | dropDrafts _ =>
    simp only [Pc.next, Option.some.injEq, Prod.mk.injEq] at next
    cases next.2
  | createDraft =>
    simp only [Pc.next, Option.map_eq_some_iff, Prod.mk.injEq] at next
    obtain ⟨id, -, -, next⟩ := next
    cases next
  | _ => cases waits

/-!
## The steps

Requests, workers, the schedule and the queue's own sweep, each keeping the invariant.
-/

omit [DecidableEq J] in
/-- A step that is no request's leaves the requests what they rely on, where nothing becomes active. -/
theorem Inv.of_stored {w w' : World J} (inv : Inv w) (stored : Stored w') (kept : Kept w w')
    (calm : Calm w w') (requests : w'.requests = w.requests) : Inv w' where
  toStored := stored
  relies r p at_ := (inv.relies r p (requests ▸ at_)).mono kept calm
  single q r p p' at_ at_' := inv.single q r p p' (requests ▸ at_) (requests ▸ at_')

/-- A worker's finalizing write. -/
theorem Stored.finalize {w : World J} {j : J} {s : BridgeJobStatus} (inv : Stored w)
    (started : w.Started j) (row : j ∈ w.jobs) (ended : s.active = false)
    (settles : s.unstarted = false) :
    let w' := (w.setStatus j s).setWorker j (some .settled)
    Stored w' ∧ Kept w w' ∧ Calm w w' := by
  have settled : Stored (w.setWorker j (some .settled)) :=
    inv.setWorker (fun _ => started) fun p at_ begun => by
      obtain rfl := Option.some.inj at_
      cases begun
  have fits : (Call.write j s).Fits (w.setWorker j (some .settled)) := by
    refine ⟨settles, ?_⟩
    simp only [ended, Bool.false_eq_true, if_false]
    intro phase at_ begun
    obtain rfl : Phase.settled = phase := by simpa [World.setWorker] using at_
    cases begun
  have move : (Call.write j s).apply (w.setWorker j (some .settled)) =
      some ((w.setStatus j s).setWorker j (some .settled)) := by
    have row : j ∈ (w.setWorker j (some .settled)).jobs := row
    simp only [Call.apply, row, if_true]
    rfl
  have calm := Call.calm (c := .write j s) ended move
  have kept := Call.kept fits move
  exact ⟨settled.call fits move, ⟨kept.made, kept.status⟩, calm⟩

/-- **A worker's step** keeps the stores in order, and makes nothing active. -/
theorem Stored.work {w w' : World J} {j : J} {phase : Phase} {m : Move} (inv : Stored w)
    (at_ : w.worker j = some phase) (move : m.run w j phase = some w') :
    Stored w' ∧ Kept w w' ∧ Calm w w' ∧ w'.requests = w.requests := by
  have started : w.Started j := inv.workers j (by simp [at_])
  have there (begun : phase.begun = true) (row : j ∈ w.jobs) : w.Active j :=
    inv.begun j phase at_ begun row
  cases m with
  | read =>
    cases phase with
    | fetched =>
      simp only [Move.run] at move
      split at move
      · next row =>
        obtain rfl := Option.some.inj move
        refine ⟨inv.setWorker (fun _ => started) fun p at_' begun _ => ⟨row, ?_⟩, .of_eq rfl rfl,
          .of_eq rfl rfl, rfl⟩
        -- neither settled nor unstarted: queued, running or canceling
        obtain rfl := Option.some.inj at_'
        have never := started.2
        revert begun never
        cases w.status j <;> simp [BridgeJobStatus.terminal, BridgeJobStatus.unstarted,
          BridgeJobStatus.active, Phase.begun]
      · cases move
    | _ => cases move
  | markRunning =>
    have run (row : j ∈ w.jobs) (begun : phase.begun = true) :
        Stored (w.setStatus j .running) ∧ Kept w (w.setStatus j .running) ∧
          Calm w (w.setStatus j .running) := by
      have active := there begun row
      have fits : (Call.write j .running).Fits w := ⟨rfl, fun k h => inv.one k j h active⟩
      have move : (Call.write j .running).apply w = some (w.setStatus j .running) := by
        simp [Call.apply, row]
      refine ⟨inv.call fits move, Call.kept fits move, fun k h => ?_⟩
      rcases active_setStatus h with was | ⟨rfl, -⟩
      · exact was
      · exact active
    cases phase with
    | starting a =>
      simp only [Move.run] at move
      split at move
      · next row =>
        obtain rfl := Option.some.inj move
        obtain ⟨stored, kept, calm⟩ := run row rfl
        refine ⟨stored.setWorker (fun _ => kept.started started) fun _ _ _ _ => ⟨row, ?_⟩,
          ⟨kept.made, kept.status⟩, calm, rfl⟩
        simp [World.setStatus, BridgeJobStatus.active]
      · cases move
    | executing a =>
      simp only [Move.run] at move
      split at move
      · next row =>
        obtain rfl := Option.some.inj move
        obtain ⟨stored, kept, calm⟩ := run row rfl
        exact ⟨stored, kept, calm, rfl⟩
      · cases move
    | _ => cases move
  | finalize s =>
    cases phase with
    | executing a =>
      simp only [Move.run] at move
      split at move
      · next may =>
        obtain ⟨row, which⟩ := may
        obtain rfl := Option.some.inj move
        have ended : s.active = false ∧ s.unstarted = false := by
          rcases which with rfl | rfl | ⟨rfl, -⟩ <;> exact ⟨rfl, rfl⟩
        obtain ⟨stored, kept, calm⟩ := inv.finalize started row ended.1 ended.2
        exact ⟨stored, kept, calm, rfl⟩
      · cases move
    | canceling =>
      simp only [Move.run] at move
      split at move
      · next may =>
        obtain ⟨row, rfl⟩ := may
        obtain rfl := Option.some.inj move
        obtain ⟨stored, kept, calm⟩ := inv.finalize started row (s := .canceled) rfl rfl
        exact ⟨stored, kept, calm, rfl⟩
      · cases move
    | _ => cases move
  | detach =>
    cases phase with
    | executing a =>
      simp only [Move.run] at move
      split at move
      · obtain rfl := Option.some.inj move
        refine ⟨inv.setWorker (fun _ => started) fun p at_' begun => ?_, .of_eq rfl rfl,
          .of_eq rfl rfl, rfl⟩
        obtain rfl := Option.some.inj at_'
        cases begun
      · cases move
    | _ => cases move
  | complete =>
    cases phase with
    | settled =>
      obtain rfl := Option.some.inj move
      exact ⟨(inv.setEntry fun kept => absurd rfl kept).setWorker (fun gone => absurd rfl gone)
        (fun p at_' => by cases at_'), .of_eq rfl rfl, .of_eq rfl rfl, rfl⟩
    | _ => cases move
  | throw =>
    cases phase with
    | settled => cases move
    | _ =>
      obtain rfl := Option.some.inj move
      exact ⟨(inv.setEntry fun _ => started).setWorker (fun gone => absurd rfl gone)
        (fun p at_' => by cases at_'), .of_eq rfl rfl, .of_eq rfl rfl, rfl⟩

/-- **A request's call** keeps the invariant, where it is not told to go ahead out of turn. -/
theorem Inv.advance {w w' : World J} {r : Nat} {found : Option J} (inv : Inv w)
    (alone : goesAlone w (.advance r found)) (move : step w (.advance r found) = some w') :
    Inv w' := by
  simp only [step, Option.bind_eq_some_iff, Option.map_eq_some_iff] at move
  obtain ⟨p, at_, ⟨c, n⟩, next, w₁, call, rfl⟩ := move
  have relies := inv.relies r p at_
  have fits := relies.fits inv.toStored next
  have kept := Call.kept fits call
  have requests : w₁.requests = w.requests := (Call.requests call).1
  -- a request about to write is the only one, and no other call makes a job active
  have other (q : Nat) (p' : Pc J) (ne : q ≠ r) (at' : w.requests q = some p') : p'.Relies w₁ := by
    by_cases quiet : c.activates = true
    · have decided := Pc.next_activates next quiet
      refine (inv.relies q p' at').kept kept ?_
      by_contra decided'
      exact ne (inv.single q r p' p at' at_ (by simpa using decided') decided)
    · exact (inv.relies q p' at').mono kept (Call.calm (by simpa using quiet) call)
  have goes {p' : Pc J} (here : n = some p') (waits : p.decided = false)
      (told : p'.decided = true) : w.Alone r ∧ p.Cleared w :=
    alone p ⟨at_, waits, c, p', here ▸ next, told⟩
  have own (p' : Pc J) (here : n = some p') : p'.Relies w₁ := by
    subst here
    by_cases waits : p.decided = false
    · have quiet : c.activates = false := by
        by_contra on
        simp [Pc.next_activates next (by simpa using on)] at waits
      exact (Pc.Cleared.relies waits next fun told => (goes rfl waits told).2).mono kept
        (Call.calm quiet call)
    · exact relies.next_of_decided inv.made (by simpa using waits) next call
  -- whoever has been told to go ahead besides the request that moved
  have only (q : Nat) (p' p'' : Pc J) (ne : q ≠ r) (at' : w.requests q = some p')
      (here : n = some p'') (told' : p'.decided = true) : ¬ p''.decided = true := by
    intro told''
    by_cases waits : p.decided = false
    · exact ne ((goes here waits told'').1 q p' at' told')
    · exact ne (inv.single q r p' p at' at_ told' (by simpa using waits))
  have stored := inv.toStored.call fits call
  refine ⟨⟨stored.one, stored.made, stored.begun, stored.entries, stored.workers,
    stored.recovering⟩, ?_, ?_⟩
  · intro q p' at'
    by_cases same : q = r
    · subst same
      exact own p' (by simpa [World.setRequest] using at')
    · exact other q p' same (by simpa [World.setRequest, same, requests] using at')
  · intro q q' p' p'' at' at'' told' told''
    by_cases same : q = r
    · subst same
      have here : n = some p' := by simpa [World.setRequest] using at'
      by_contra ne
      have at'' : w.requests q' = some p'' := by
        simpa [World.setRequest, Ne.symm ne, requests] using at''
      exact only q' p'' p' (Ne.symm ne) at'' here told'' told'
    · have was : w.requests q = some p' := by
        simpa [World.setRequest, same, requests] using at'
      by_cases same' : q' = r
      · subst same'
        have here : n = some p'' := by simpa [World.setRequest] using at''
        exact absurd told'' (only q p' p'' same was here told')
      · exact inv.single q q' p' p'' was
          (by simpa [World.setRequest, same', requests] using at'') told' told''

/-- **One step keeps the invariant.** -/
theorem Inv.step {w w' : World J} {e : Event J} (inv : Inv w) (alone : goesAlone w e)
    (move : Jobs.step w e = some w') : Inv w' := by
  cases e with
  | advance r found => exact inv.advance alone move
  | request r p =>
    simp only [Jobs.step] at move
    split at move
    · next begins =>
      obtain rfl := Option.some.inj move
      have waits : p.decided = false ∧ p.Relies w := by
        cases p <;> first | exact ⟨rfl, trivial⟩ | simp [Pc.begins] at begins
      refine ⟨⟨inv.one, inv.made, inv.begun, inv.entries, inv.workers, inv.recovering⟩, ?_, ?_⟩
      · intro q p' at'
        by_cases same : q = r
        · subst same
          obtain rfl : p = p' := by simpa [World.setRequest] using at'
          exact (waits.2).mono (.of_eq rfl rfl) (.of_eq rfl rfl)
        · exact (inv.relies q p' (by simpa [World.setRequest, same] using at')).mono
            (.of_eq rfl rfl) (.of_eq rfl rfl)
      · have is_old {q p'} (at' : (w.setRequest r (some p)).requests q = some p')
            (told : p'.decided = true) : w.requests q = some p' := by
          by_cases same : q = r
          · subst same
            obtain rfl : p = p' := by simpa [World.setRequest] using at'
            simp [waits.1] at told
          · simpa [World.setRequest, same] using at'
        exact fun q q' p' p'' at' at'' told' told'' =>
          inv.single q q' p' p'' (is_old at' told') (is_old at'' told'') told' told''
    · cases move
  | giveUp r =>
    simp only [Jobs.step] at move
    split at move
    · cases move
    · obtain rfl := Option.some.inj move
      have is_old {q p'} (at' : (w.setRequest r none).requests q = some p') :
          w.requests q = some p' := by
        by_cases same : q = r
        · simp [World.setRequest, same] at at'
        · simpa [World.setRequest, same] using at'
      exact ⟨⟨inv.one, inv.made, inv.begun, inv.entries, inv.workers, inv.recovering⟩,
        fun q p' at' => (inv.relies q p' (is_old at')).mono (.of_eq rfl rfl) (.of_eq rfl rfl),
        fun q q' p' p'' at' at'' => inv.single q q' p' p'' (is_old at') (is_old at'')⟩
  | fetch j =>
    simp only [Jobs.step] at move
    split at move
    · next waiting =>
      obtain rfl := Option.some.inj move
      have started : w.Started j := inv.entries j (by simp [waiting.2])
      have stored : Stored ((w.setEntry j .active).setWorker j (some .fetched)) :=
        (inv.toStored.setEntry fun _ => started).setWorker (fun _ => started) fun p at_ begun => by
          obtain rfl := Option.some.inj at_
          cases begun
      exact inv.of_stored stored (.of_eq rfl rfl) (.of_eq rfl rfl) rfl
    · cases move
  | work j m =>
    simp only [Jobs.step, Option.bind_eq_some_iff] at move
    obtain ⟨phase, at_, move⟩ := move
    obtain ⟨stored, kept, calm, requests⟩ := inv.toStored.work at_ move
    exact inv.of_stored stored kept calm requests
  | stalled j again =>
    simp only [Jobs.step] at move
    split at move
    · next active =>
      obtain rfl := Option.some.inj move
      exact inv.of_stored (inv.toStored.setEntry fun _ => inv.entries j (by simp [active.2.1]))
        (.of_eq rfl rfl) (.of_eq rfl rfl) rfl
    · cases move
  | crash =>
    obtain rfl := Option.some.inj move
    refine ⟨⟨inv.one, inv.made, ?_, inv.entries, fun j gone => absurd rfl gone, ?_⟩, ?_, ?_⟩
    · intro j phase at_
      cases at_
    · intro rest at_
      cases at_
    · intro r p at_
      cases at_
    · intro q r p p' at_
      cases at_
  | boot read =>
    simp only [Jobs.step] at move
    split at move
    · obtain rfl := Option.some.inj move
      refine inv.of_stored ⟨inv.one, inv.made, inv.begun, inv.entries, inv.workers, ?_⟩
        (.of_eq rfl rfl) (.of_eq rfl rfl) rfl
      intro rest at_ j mem
      cases read with
      | false => cases at_
      | true =>
        obtain rfl : w.jobs.filter _ = rest := by simpa using at_
        obtain ⟨row, active⟩ := List.mem_filter.mp mem
        refine ⟨inv.made j row, ?_⟩
        revert active
        cases w.status j <;> simp [BridgeJobStatus.active, BridgeJobStatus.unstarted]
    · cases move
  | recover added =>
    simp only [Jobs.step] at move
    split at move
    · obtain rfl := Option.some.inj move
      exact inv.of_stored ⟨inv.one, inv.made, inv.begun, inv.entries, inv.workers, nofun⟩
        (.of_eq rfl rfl) (.of_eq rfl rfl) rfl
    · next j rest at_ =>
      obtain rfl := Option.some.inj move
      have known := inv.recovering (j :: rest) at_
      have stored : Stored { w with boot := .recovering rest } :=
        ⟨inv.one, inv.made, inv.begun, inv.entries, inv.workers, fun rest' at_' k mem => by
          obtain rfl : rest = rest' := by simpa using at_'
          exact known k (List.mem_cons_of_mem j mem)⟩
      have started : w.Started j := known j List.mem_cons_self
      have recovered := inv.of_stored stored (.of_eq rfl rfl) (.of_eq rfl rfl) rfl
      split
      · split
        · exact inv.of_stored (stored.setEntry fun _ => started) (.of_eq rfl rfl) (.of_eq rfl rfl) rfl
        · exact recovered
      · split
        · exact inv.of_stored (stored.setEntry fun kept => absurd rfl kept) (.of_eq rfl rfl)
            (.of_eq rfl rfl) rfl
        · exact recovered
    · cases move

/-- **In a run whose requests go ahead one at a time there is at most one job in progress**, at
every state. -/
theorem oneRun_of_goesAlone {w t : World J} {es : List (Event J)} (rest : w.AtRest)
    (run : Run Jobs.step goesAlone w es t) : t.OneRun :=
  (run.invariant rest.inv fun _ _ _ alone inv move => inv.step alone move).one

/-! ## A finished run, retried during the next -/

namespace Retried

/-- Job 1 has completed, with failures. -/
def bridge : World Nat where
  jobs := [1]
  made := [1]
  status _ := .completed
  entry _ := .absent
  worker _ := none
  requests _ := none
  boot := .running

theorem atRest : bridge.AtRest where
  idle j active := by simp [World.Active, bridge, BridgeJobStatus.active] at active
  made j row := row
  queue j := rfl
  workers j := rfl
  requests r := rfl
  boot := rfl

/-- The bridge is started again, as job 2. -/
def started : List (Event Nat) :=
  [.request 0 (.start none false), .advance 0 none, .advance 0 none, .advance 0 none,
    .advance 0 (some 2), .advance 0 none]

/-- While it waits for a worker, the failures of job 1 are retried. -/
def retried : List (Event Nat) :=
  [.request 0 (.again .retryFailed 1), .advance 0 none, .advance 0 none]

end Retried

/-- A run of `start`, all of it alone. -/
theorem oneRun_of_started : ∃ t, runEvents Jobs.step Retried.bridge Retried.started = some t ∧
    t.Active 2 ∧ t.OneRun := by
  refine ⟨_, rfl, by decide, oneRun_of_goesAlone Retried.atRest
    (show Run Jobs.step goesAlone _ Retried.started _ from ?_)⟩
  refine .cons trivial rfl (.cons ?_ rfl (.cons ?_ rfl (.cons ?_ rfl (.cons ?_ rfl
    (.cons ?_ rfl (.nil _))))))
  · exact goesAlone_of_untold rfl (.inr fun c n next => by cases next; rfl)
  · -- it asks for an active job, there is none, and no other request is under way
    rintro p ⟨at_, -⟩
    obtain rfl := Option.some.inj at_
    refine ⟨fun q p' at' _ => ?_, trivial⟩
    by_contra ne
    simp [World.setRequest, ne, Retried.bridge] at at'
  · exact goesAlone_of_untold rfl (.inl rfl)
  · exact goesAlone_of_untold rfl (.inl rfl)
  · exact goesAlone_of_untold rfl (.inr fun c n next => by cases next)

/-- **Two jobs of one bridge can be in progress:** nothing asks about the others when a finished one
is retried. -/
theorem not_oneRun : ¬ ∀ (w t : World Nat) (es : List (Event Nat)), w.AtRest →
    Run Jobs.step anyStep w es t → t.OneRun := by
  intro always
  obtain ⟨t, run, one, two⟩ : ∃ t, runEvents Jobs.step Retried.bridge
      (Retried.started ++ Retried.retried) = some t ∧ t.Active 1 ∧ t.Active 2 :=
    ⟨_, rfl, by decide, by decide⟩
  have := always _ t _ Retried.atRest (run_of_eval run) 1 2 one two
  cases this

end Syncle.Jobs
