import Mathlib.Data.Option.Basic
import Syncle.Records.Trims

/-!
# What a sweep does to the store

A failed delivery whose rows wait in the dead-letter queue is where their retry reports back to. The
sweeps over the live jobs look at the queue and keep it; emptying a finished job does not look. So
it is kept if no job that is emptied has one among the deliveries the sweep gets to
(`sweeps_run`).
-/

namespace Syncle.Records

open Lib

variable {B J : Type*} [DecidableEq J]

namespace Store

variable (s : Store B J)

/-- The rows of a delivery wait in the dead-letter queue. -/
def pending (j : J) (sequence : Int) : Bool :=
  s.letters.any fun l => decide (l.jobId = j) && decide (l.sequence = sequence) &&
    decide (l.status = .pending)

def Holds (j : J) (sequence : Int) (d : BridgeDelivery) : Prop :=
  ∃ job, s.jobs.get? j = some job ∧ job.row.deliveries.get? sequence = some d

/-- What is still owed: a failed delivery whose rows wait. -/
def Owed (j : J) (sequence : Int) (d : BridgeDelivery) : Prop :=
  s.Holds j sequence d ∧ d.status = .failed ∧ s.pending j sequence = true

/-- All the sequences of a job, in order. -/
def sequencesOf (j : J) : List (J × Int) :=
  (s.jobs.get? j).elim [] fun job => (job.matching fun _ _ => true).map fun q => (j, q)

variable [DecidableEq B] in
/-- The deliveries of the finished jobs a sweep gets to: job after job, the first to end first, each
in the order of its sequences. -/
def emptied (cutoff : Int) : List (J × Int) :=
  (((s.finishedJobs cutoff).filter fun j => j ∉ s.liveJobIds).flatMap s.sequencesOf).take sweepLimit

variable [DecidableEq B] in
/-- Nothing owed is among them. -/
def Spares (cutoff : Int) : Prop :=
  ∀ j q d, s.Owed j q d → (j, q) ∉ s.emptied cutoff

/-- From one store to another, deliveries and settled letters are taken out. -/
structure Sweeps (s s' : Store B J) : Prop where
  jobs : ∀ j, Option.Rel StoredJob.Trims (s.jobs.get? j) (s'.jobs.get? j)
  pending : ∀ j q, s.pending j q = true → s'.pending j q = true
  owed : ∀ j q d, s.Owed j q d → s'.Holds j q d

variable {s s' s'' : Store B J}

theorem rel_refl (o : Option (StoredJob B)) : Option.Rel StoredJob.Trims o o := by
  cases o with
  | none => exact .none
  | some job => exact .some StoredJob.Trims.refl

theorem rel_trans {o o' o'' : Option (StoredJob B)} (h : Option.Rel StoredJob.Trims o o')
    (h' : Option.Rel StoredJob.Trims o' o'') : Option.Rel StoredJob.Trims o o'' := by
  cases h with
  | none =>
    cases h'
    exact .none
  | some h =>
    cases h' with
    | some h' => exact .some (h.trans h')

theorem Sweeps.refl : Sweeps s s := ⟨fun _ => rel_refl _, fun _ _ h => h, fun _ _ _ h => h.1⟩

theorem Sweeps.trans (h : Sweeps s s') (h' : Sweeps s' s'') : Sweeps s s'' :=
  ⟨fun j => rel_trans (h.jobs j) (h'.jobs j), fun j q hp => h'.pending j q (h.pending j q hp),
    fun j q d owed => h'.owed j q d ⟨h.owed j q d owed, owed.2.1, h.pending j q owed.2.2⟩⟩

end Store

namespace Sweep

variable {w : Sweep B J} {j : J} {p : Int → BridgeDelivery → Bool}

/-- What a delete on one job does to the store. -/
theorem deleteWhere_cases (w : Sweep B J) (j : J) (p : Int → BridgeDelivery → Bool) :
    (w.store.jobs.get? j = none ∧ w.deleteWhere j p = w) ∨
      ∃ job spent, w.store.jobs.get? j = some job ∧
        (w.deleteWhere j p).store = { w.store with jobs := w.store.jobs.set j spent } ∧
        (w.deleteWhere j p).budget.toNat = w.budget.toNat - (job.matching p).length ∧
        (∀ q, spent.row.deliveries.get? q =
          if q ∈ (job.matching p).take w.budget.toNat then none else job.row.deliveries.get? q) ∧
        job.Trims spent := by
  cases found : w.store.jobs.get? j with
  | none =>
    left
    refine ⟨rfl, ?_⟩
    unfold deleteWhere
    rw [found]
  | some job =>
    right
    obtain ⟨spent, gone, trims⟩ :=
      StoredJob.deleteWhere_spec (p := p)
        (Nat.lt_succ_of_le StoredJob.length_matching_le)
    refine ⟨job, _, rfl, ?_, ?_, gone, trims⟩
    · unfold deleteWhere
      rw [found]
    · unfold deleteWhere
      rw [found]
      exact spent

/-- A delivery that does not match stays. -/
theorem holds_deleteWhere {i : J} {q : Int} {d : BridgeDelivery} (h : w.store.Holds i q d)
    (stays : i = j → p q d = false) : (w.deleteWhere j p).store.Holds i q d := by
  rcases w.deleteWhere_cases j p with ⟨-, same⟩ | ⟨job, spent, found, store, -, gone, -⟩
  · rw [same]
    exact h
  · obtain ⟨job', found', there⟩ := h
    rw [store]
    by_cases here : i = j
    · subst here
      obtain rfl : job = job' := Option.some.inj (found.symm.trans found')
      refine ⟨spent, by simp [OrderedMap.get?_set], ?_⟩
      rw [gone, if_neg ?_, there]
      intro taken
      obtain ⟨e, he, rfl⟩ := List.mem_map.mp (mem_inOrder.mp (List.mem_of_mem_take taken))
      have same : job.row.deliveries.get? e.1 = some e.2 :=
        OrderedMap.get?_eq_some.mpr (List.mem_of_mem_filter he)
      rw [there] at same
      obtain rfl := Option.some.inj same
      have matches' := List.of_mem_filter he
      rw [stays rfl] at matches'
      cases matches'
    · refine ⟨job', ?_, there⟩
      simp [OrderedMap.get?_set, here, found']

theorem jobs_deleteWhere (i : J) :
    Option.Rel StoredJob.Trims (w.store.jobs.get? i) ((w.deleteWhere j p).store.jobs.get? i) := by
  rcases w.deleteWhere_cases j p with ⟨-, same⟩ | ⟨job, spent, found, store, -, -, trims⟩
  · rw [same]
    exact Store.rel_refl _
  · rw [store]
    simp only [OrderedMap.get?_set]
    by_cases here : i = j
    · rw [if_pos here, here, found]
      exact .some trims
    · rw [if_neg here]
      exact Store.rel_refl _

theorem letters_deleteWhere : (w.deleteWhere j p).store.letters = w.store.letters := by
  rcases w.deleteWhere_cases j p with ⟨-, same⟩ | ⟨job, spent, found, store, -, -, -⟩
  · rw [same]
  · rw [store]

/-- A delete that leaves alone what waits in the queue. -/
theorem sweeps_deleteWhere (spares : ∀ q d, w.store.pending j q = true → p q d = false) :
    w.store.Sweeps (w.deleteWhere j p).store := by
  have letters := letters_deleteWhere (w := w) (j := j) (p := p)
  refine ⟨jobs_deleteWhere, fun i q hp => ?_, fun i q d owed => ?_⟩
  · unfold Store.pending
    rw [letters]
    exact hp
  · refine holds_deleteWhere owed.1 fun here => ?_
    subst here
    exact spares q d owed.2.2

/-! ## The parts of a sweep -/

variable [DecidableEq B] {cutoff : Int}

omit [DecidableEq B] in
theorem mem_parkedSequences {s : Store B J} {q : Int} (h : s.pending j q = true) :
    q ∈ s.parkedSequences j := by
  unfold Store.pending at h
  obtain ⟨l, mem, waits⟩ := List.any_eq_true.mp h
  simp only [Bool.and_eq_true, decide_eq_true_eq] at waits
  unfold Store.parkedSequences
  rw [List.mem_eraseDups]
  refine List.mem_map.mpr ⟨l, List.mem_filter.mpr ⟨mem, ?_⟩, waits.1.2⟩
  simp [waits.1.1, waits.2]

omit [DecidableEq B] in
/-- What each step keeps, the whole fold keeps. -/
theorem sweeps_foldl {f : Sweep B J → J → Sweep B J}
    (step : ∀ (w : Sweep B J) (j : J), w.store.Sweeps (f w j).store) (js : List J) (w : Sweep B J) :
    w.store.Sweeps (js.foldl f w).store := by
  induction js generalizing w with
  | nil => exact Store.Sweeps.refl
  | cons j js ih => exact (step w j).trans (ih (f w j))

/-! Neither sweep of the live jobs deletes a sequence that is parked. -/

theorem sweeps_expireLiveDeliveries : w.store.Sweeps (w.expireLiveDeliveries cutoff).store := by
  refine sweeps_foldl (fun w j => ?_) _ w
  split
  case isTrue => exact Store.Sweeps.refl
  case isFalse =>
    refine sweeps_deleteWhere fun q d hp => ?_
    simp [mem_parkedSequences hp]

theorem sweeps_trimLiveJobs {cap : Nat} : w.store.Sweeps (w.trimLiveJobs cap).store := by
  refine sweeps_foldl (fun w j => ?_) _ w
  split
  case isTrue => exact Store.Sweeps.refl
  case isFalse =>
    split
    case h_1 => exact Store.Sweeps.refl
    case h_2 =>
      split
      case isTrue => exact Store.Sweeps.refl
      case isFalse =>
        split
        case h_1 => exact Store.Sweeps.refl
        case h_2 =>
          refine sweeps_deleteWhere fun q d hp => ?_
          simp [mem_parkedSequences hp]

omit [DecidableEq J] [DecidableEq B] in
/-- A letter that is pending is not settled, so it is not removed. -/
theorem mem_keptLetters (ls : List (DeadLetter B J)) (acc : List (DeadLetter B J) × Nat)
    {l : DeadLetter B J} (waits : l.status = .pending) (mem : l ∈ acc.1 ∨ l ∈ ls) :
    l ∈ (ls.foldl (fun acc l =>
      if settledBefore cutoff l && decide (0 < acc.2) then (acc.1, acc.2 - 1)
      else (acc.1 ++ [l], acc.2)) acc).1 := by
  induction ls generalizing acc with
  | nil =>
    rcases mem with mem | mem
    · exact mem
    · cases mem
  | cons x ls ih =>
    rw [List.foldl_cons]
    refine ih _ ?_
    rcases mem with mem | mem
    · left
      split
      case isTrue => exact mem
      case isFalse => exact List.mem_append_left _ mem
    · rcases List.mem_cons.mp mem with rfl | later
      · left
        have kept : settledBefore cutoff l = false := by simp [settledBefore, waits]
        rw [kept, Bool.false_and, if_neg Bool.false_ne_true]
        exact List.mem_append_right _ List.mem_cons_self
      · exact Or.inr later

omit [DecidableEq B] in
theorem sweeps_expireDeadLetters : w.store.Sweeps (w.expireDeadLetters cutoff).store := by
  refine ⟨fun _ => Store.rel_refl _, fun i q hp => ?_, fun i q d owed => owed.1⟩
  unfold Store.pending at *
  obtain ⟨l, mem, waits⟩ := List.any_eq_true.mp hp
  refine List.any_eq_true.mpr ⟨l, ?_, waits⟩
  simp only [Bool.and_eq_true, decide_eq_true_eq] at waits
  exact mem_keptLetters w.store.letters _ waits.2 (Or.inr mem)

/-! ## Emptying the finished jobs -/

/-- The sequences of the jobs that are emptied, one job after another. -/
def doomed (s : Store B J) (live js : List J) : List (J × Int) :=
  (js.filter fun j => j ∉ live).flatMap s.sequencesOf

/-- The jobs of `seen` have been dealt with. -/
structure Emptying (s : Store B J) (live seen : List J) (w : Sweep B J) : Prop where
  budget : w.budget.toNat = sweepLimit - (doomed s live seen).length
  untouched : ∀ j ∉ seen, w.store.jobs.get? j = s.jobs.get? j
  holds : ∀ j q d, s.Holds j q d → (j, q) ∉ (doomed s live seen).take sweepLimit →
    w.store.Holds j q d
  jobs : ∀ j, Option.Rel StoredJob.Trims (s.jobs.get? j) (w.store.jobs.get? j)
  letters : w.store.letters = s.letters

omit [DecidableEq B] in
theorem Emptying.next {s : Store B J} {live seen : List J} (h : Emptying s live seen w)
    (fresh : j ∉ seen) (dead : j ∉ live) :
    Emptying s live (seen ++ [j]) (w.deleteWhere j fun _ _ => true) := by
  have more : doomed s live (seen ++ [j]) = doomed s live seen ++ s.sequencesOf j := by
    simp [doomed, dead]
  have split : (doomed s live (seen ++ [j])).take sweepLimit =
      (doomed s live seen).take sweepLimit ++
        (s.sequencesOf j).take (sweepLimit - (doomed s live seen).length) := by
    rw [more, List.take_append]
  have letters := (letters_deleteWhere (w := w) (j := j) (p := fun _ _ => true)).trans h.letters
  have jobs : ∀ i, Option.Rel StoredJob.Trims (s.jobs.get? i)
      ((w.deleteWhere j fun _ _ => true).store.jobs.get? i) :=
    fun i => Store.rel_trans (h.jobs i) (jobs_deleteWhere i)
  have here := h.untouched j fresh
  rcases w.deleteWhere_cases j (fun _ _ => true) with
    ⟨absent, same⟩ | ⟨job, spent, found, store, budget, gone, -⟩
  · rw [here] at absent
    have none : s.sequencesOf j = [] := by
      unfold Store.sequencesOf
      rw [absent]
      rfl
    rw [none, List.append_nil] at more
    rw [same]
    exact ⟨more ▸ h.budget, fun i hi => h.untouched i fun mem => hi (List.mem_append_left _ mem),
      more ▸ h.holds, h.jobs, h.letters⟩
  · have known : s.sequencesOf j = (job.matching fun _ _ => true).map fun q => (j, q) := by
      unfold Store.sequencesOf
      rw [← here, found]
      rfl
    refine ⟨?_, fun i hi => ?_, fun i q d held free => ?_, jobs, letters⟩
    · rw [budget, h.budget, more, List.length_append, known, List.length_map]
      omega
    · have other : i ≠ j := by
        rintro rfl
        exact hi (List.mem_append_right _ List.mem_cons_self)
      rw [store]
      simp only [OrderedMap.get?_set]
      rw [if_neg other]
      exact h.untouched i fun mem => hi (List.mem_append_left _ mem)
    · rw [split, List.mem_append, not_or] at free
      obtain ⟨job', found', there⟩ := h.holds i q d held free.1
      rw [store]
      by_cases same : i = j
      · subst same
        obtain rfl : job = job' := Option.some.inj (found.symm.trans found')
        refine ⟨spent, by simp [OrderedMap.get?_set], ?_⟩
        rw [gone, if_neg ?_, there]
        intro taken
        refine free.2 ?_
        rw [known, ← List.map_take, ← h.budget]
        exact List.mem_map_of_mem taken
      · refine ⟨job', ?_, there⟩
        simp [OrderedMap.get?_set, same, found']

omit [DecidableEq B] in
theorem Emptying.pass {s : Store B J} {live seen : List J} (h : Emptying s live seen w)
    (idle : j ∈ live ∨ w.budget ≤ 0) : Emptying s live (seen ++ [j]) w := by
  have more : doomed s live (seen ++ [j]) = doomed s live seen ++
      (if j ∈ live then [] else s.sequencesOf j) := by
    unfold doomed
    by_cases alive : j ∈ live <;> simp [alive]
  have spent : j ∉ live → sweepLimit ≤ (doomed s live seen).length := by
    intro dead
    have zero := idle.resolve_left dead
    have := h.budget
    omega
  have front : (doomed s live (seen ++ [j])).take sweepLimit =
      (doomed s live seen).take sweepLimit := by
    rw [more, List.take_append]
    by_cases alive : j ∈ live
    · simp [alive]
    · rw [Nat.sub_eq_zero_of_le (spent alive), List.take_zero, List.append_nil]
  refine ⟨?_, fun i hi => h.untouched i fun mem => hi (List.mem_append_left _ mem),
    front ▸ h.holds, h.jobs, h.letters⟩
  rw [more, List.length_append, h.budget]
  by_cases alive : j ∈ live
  · simp [alive]
  · have := spent alive
    omega

omit [DecidableEq J] [DecidableEq B] in
theorem nodup_finishedJobs (s : Store B J) : (s.finishedJobs cutoff).Nodup := by
  unfold Store.finishedJobs
  refine ((List.perm_insertionSort _ _).map _).nodup_iff.mpr ?_
  exact s.jobs.nodup_keys.sublist (List.filter_sublist.map _)

theorem emptying_emptyFinishedJobs (s : Store B J) :
    Emptying s s.liveJobIds (s.finishedJobs cutoff)
      (({ store := s } : Sweep B J).emptyFinishedJobs cutoff) := by
  have run : ∀ (js seen : List J) (w : Sweep B J), Emptying s s.liveJobIds seen w →
      (seen ++ js).Nodup → Emptying s s.liveJobIds (seen ++ js)
        (js.foldl (fun w j =>
          if j ∈ s.liveJobIds then w
          else if w.budget ≤ 0 then w
          else
            let w' := w.deleteWhere j fun _ _ => true
            { w' with
              result.expiredDeliveries := w'.result.expiredDeliveries + w'.spentSince w
              result.jobsEmptied := w'.result.jobsEmptied +
                if (w'.store.jobs.get? j).all (fun job => job.row.deliveries.entries = [])
                then 1 else 0 }) w) := by
    intro js
    induction js with
    | nil =>
      intro seen w h _
      rw [List.append_nil]
      exact h
    | cons j js ih =>
      intro seen w h nodup
      rw [List.foldl_cons]
      rw [List.append_cons] at nodup ⊢
      refine ih (seen ++ [j]) _ ?_ nodup
      have fresh : j ∉ seen := by
        have := (List.nodup_append.mp nodup).1
        intro mem
        exact (List.nodup_append.mp this).2.2 j mem j List.mem_cons_self rfl
      split
      case isTrue alive => exact h.pass (Or.inl alive)
      case isFalse dead =>
        split
        case isTrue spent => exact h.pass (Or.inr spent)
        case isFalse =>
          have next := h.next fresh dead
          exact ⟨next.budget, next.untouched, next.holds, next.jobs, next.letters⟩
  have start : Emptying s s.liveJobIds [] ({ store := s } : Sweep B J) := by
    refine ⟨?_, fun _ _ => rfl, fun _ _ _ held _ => held, fun _ => Store.rel_refl _, rfl⟩
    simp [doomed]
  exact run (s.finishedJobs cutoff) [] _ start (nodup_finishedJobs s)

theorem sweeps_emptyFinishedJobs {s : Store B J} (spares : s.Spares cutoff) :
    s.Sweeps (({ store := s } : Sweep B J).emptyFinishedJobs cutoff).store := by
  have emptied : Emptying s s.liveJobIds (s.finishedJobs cutoff)
      (({ store := s } : Sweep B J).emptyFinishedJobs cutoff) := emptying_emptyFinishedJobs s
  refine ⟨emptied.jobs, fun j q hp => ?_, fun j q d owed => ?_⟩
  · unfold Store.pending
    rw [emptied.letters]
    exact hp
  · exact emptied.holds j q d owed.1 (spares j q d owed)

theorem sweeps_expire {s : Store B J} (spares : s.Spares cutoff) :
    s.Sweeps (({ store := s } : Sweep B J).expire cutoff).store := by
  refine (sweeps_emptyFinishedJobs spares).trans ?_
  unfold expire
  generalize ({ store := s } : Sweep B J).emptyFinishedJobs cutoff = w
  have live : w.store.Sweeps (if 0 < w.budget then w.expireLiveDeliveries cutoff else w).store := by
    split
    case isTrue => exact sweeps_expireLiveDeliveries
    case isFalse => exact Store.Sweeps.refl
  refine live.trans ?_
  simp only
  generalize (if 0 < w.budget then w.expireLiveDeliveries cutoff else w) = w'
  split
  case isTrue => exact sweeps_expireDeadLetters
  case isFalse => exact Store.Sweeps.refl

/-- **A sweep that gets to nothing owed keeps all that is owed.** -/
theorem sweeps_run {s : Store B J} {settings : RetentionSettings} {now : Nat}
    (spares : 0 < settings.days → s.Spares (Sweep.cutoff settings now)) :
    s.Sweeps (run settings now s).store := by
  have trimmed : ∀ w : Sweep B J, w.store.Sweeps
      (if 0 < settings.cap ∧ 0 < w.budget then w.trimLiveJobs settings.cap.toNat else w).store := by
    intro w
    split
    case isTrue => exact sweeps_trimLiveJobs
    case isFalse => exact Store.Sweeps.refl
  have expired : s.Sweeps (if 0 < settings.days then
      ({ store := s } : Sweep B J).expire (Sweep.cutoff settings now)
      else ({ store := s } : Sweep B J)).store := by
    split
    case isTrue old => exact sweeps_expire (spares old)
    case isFalse => exact Store.Sweeps.refl
  exact expired.trans (trimmed _)

end Sweep

end Syncle.Records
