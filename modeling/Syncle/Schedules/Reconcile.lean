import Syncle.Lib.OrderedMap
import Syncle.Lib.Run

/-!
# Replays that run by themselves (`bridge-schedule.service.ts`)

A replay bridge with a cron line has a job scheduler in Redis. A save writes the bridge and then its
scheduler, a delete takes the scheduler and then the bridge, a tick takes one it finds nothing for,
and `reconcile` goes through the whole queue, page by page, and then through the bridges it read
first. Anything may happen between any two of their awaits.

The queue lists its schedulers by when they fire next, so where one stands is up to the clock: an
event says where.
-/

namespace Syncle.Schedules

open Lib

structure ReplaySchedule where
  cron : String
  timezone : String
  enabled : Bool
  deriving DecidableEq

inductive Trigger where
  | replay (schedule : Option ReplaySchedule)
  /-- `cdc` and `watch` -/
  | other
  deriving DecidableEq

structure Bridge where
  trigger : Trigger
  enabled : Bool
  deriving DecidableEq

/-- The schedule of a bridge, if it has one at all (on or off). -/
def scheduleOf (bridge : Bridge) : Option ReplaySchedule :=
  match bridge.trigger with
  | .replay schedule => schedule
  | .other => none

/-- …and only if it should be firing. -/
def wantsScheduler (bridge : Bridge) : Option ReplaySchedule :=
  (scheduleOf bridge).filter fun schedule => schedule.enabled && bridge.enabled

/-- What a scheduler repeats by. -/
structure Line where
  pattern : String
  tz : String
  deriving DecidableEq

/-- The line a bridge calls for. -/
def lineOf (bridge : Bridge) : Option Line :=
  (wantsScheduler bridge).map fun schedule => ⟨schedule.cron, schedule.timezone⟩

/-- A scheduler's key: `PREFIX + id`, or one without the prefix. -/
inductive Key (ι : Type*) where
  | schedule (id : ι)
  | other (name : String)
  deriving DecidableEq

def Key.isOurs {ι : Type*} : Key ι → Bool
  | schedule _ => true
  | other _ => false

/-- `getJobSchedulers(start, start + 199)` -/
def pageSize : ℕ := 200

/-! ## The queue -/

section Queue

variable {κ : Type*} [DecidableEq κ]

/-- The schedulers by position. -/
abbrev Queue (κ : Type*) := OrderedMap κ Line

theorem nodup_place (q : Queue κ) (key : κ) (line : Line) (n : ℕ) :
    (((q.entries.filter fun e => e.1 ≠ key).take n ++
      (key, line) :: (q.entries.filter fun e => e.1 ≠ key).drop n).map Prod.fst).Nodup := by
  have others : ((q.entries.filter fun e => e.1 ≠ key).map Prod.fst).Nodup :=
    q.nodup_keys.sublist (List.filter_sublist.map _)
  have apart : key ∉ (q.entries.filter fun e => e.1 ≠ key).map Prod.fst := by
    intro mem
    obtain ⟨e, mem, same⟩ := List.mem_map.mp mem
    exact of_decide_eq_true (List.mem_filter.mp mem).2 same
  have perm : ((q.entries.filter fun e => e.1 ≠ key).take n ++
      (key, line) :: (q.entries.filter fun e => e.1 ≠ key).drop n).Perm
        ((key, line) :: q.entries.filter fun e => e.1 ≠ key) := by
    refine List.perm_middle.trans ?_
    rw [List.take_append_drop]
  rw [(perm.map Prod.fst).nodup_iff]
  exact List.nodup_cons.mpr ⟨apart, others⟩

/-- `upsertJobScheduler`: where it stands then is up to its line. -/
def upsertJobScheduler (q : Queue κ) (key : κ) (line : Line) (n : ℕ) : Queue κ :=
  ⟨_, nodup_place q key line n⟩

def removeJobScheduler (q : Queue κ) (key : κ) : Queue κ := q.filter fun k => k ≠ key

/-- A scheduler fires, and stands where its next time puts it. -/
def move (q : Queue κ) (key : κ) (n : ℕ) : Queue κ :=
  match q.get? key with
  | some line => upsertJobScheduler q key line n
  | none => q

/-- A scheduler if it should fire, none if not. -/
def put (q : Queue κ) (key : κ) (line : Option Line) (n : ℕ) : Queue κ :=
  match line with
  | some line => upsertJobScheduler q key line n
  | none => removeJobScheduler q key

theorem get?_upsertJobScheduler (q : Queue κ) (key : κ) (line : Line) (n : ℕ) (k : κ) :
    (upsertJobScheduler q key line n).get? k = if k = key then some line else q.get? k := by
  have mem (e : κ × Line) : e ∈ (upsertJobScheduler q key line n).entries ↔
      e = (key, line) ∨ e ∈ q.entries ∧ e.1 ≠ key := by
    have perm : (upsertJobScheduler q key line n).entries.Perm
        ((key, line) :: q.entries.filter fun e => e.1 ≠ key) := by
      refine List.perm_middle.trans ?_
      rw [List.take_append_drop]
    rw [perm.mem_iff, List.mem_cons, List.mem_filter, decide_eq_true_eq]
  apply Option.ext
  intro l
  rw [OrderedMap.get?_eq_some, mem]
  by_cases same : k = key
  · subst same
    simp [eq_comm]
  · simp [same, OrderedMap.get?_eq_some]

theorem get?_removeJobScheduler (q : Queue κ) (key k : κ) :
    (removeJobScheduler q key).get? k = if k = key then none else q.get? k := by
  rw [removeJobScheduler, OrderedMap.get?_filter]
  by_cases same : k = key <;> simp [same]

theorem get?_put (q : Queue κ) (key : κ) (line : Option Line) (n : ℕ) (k : κ) :
    (put q key line n).get? k = if k = key then line else q.get? k := by
  cases line with
  | some line => exact get?_upsertJobScheduler q key line n k
  | none => exact get?_removeJobScheduler q key k

theorem get?_move (q : Queue κ) (key : κ) (n : ℕ) (k : κ) : (move q key n).get? k = q.get? k := by
  unfold move
  cases is : q.get? key with
  | none => rfl
  | some line =>
    show (upsertJobScheduler q key line n).get? k = q.get? k
    rw [get?_upsertJobScheduler]
    split
    · next same => rw [same, is]
    · rfl

end Queue

/-! ## The service -/

/-- Where `reconcile` is. -/
inductive Phase (ι : Type*) where
  | idle
  /-- about to read the page at that position -/
  | paging (start : ℕ)
  /-- what is left of a page of so many -/
  | looking (start size : ℕ) (rest : List (Key ι))
  /-- about to remove one it takes for stale -/
  | dropping (id : ι) (start size : ℕ) (rest : List (Key ι))
  /-- the bridges it has yet to register -/
  | registering (rest : List (ι × Bridge))
  | done
  deriving DecidableEq

/-- The bridges in the database, the schedulers in Redis, and what is under way. Of the last three the
code keeps no record. -/
structure World (ι : Type*) where
  bridges : OrderedMap ι Bridge
  queue : Queue (Key ι)
  /-- saves that wrote their bridge and have yet to `sync` it -/
  syncs : List (ι × Bridge) := []
  /-- deletes that took the scheduler and have yet to take the bridge -/
  removals : List ι := []
  /-- ticks that found nothing to run and have yet to take the scheduler -/
  retiring : List ι := []
  phase : Phase ι := .idle
  /-- the bridges that wanted a scheduler as `reconcile` began -/
  wanted : List (ι × Bridge) := []
  /-- the keys `reconcile` has looked at -/
  seen : List (Key ι) := []
  /-- the bridges written since it began -/
  since : List ι := []
  /-- what other services have in the queue -/
  theirs : String → Option Line := fun _ => none

namespace World

variable {ι : Type*} [DecidableEq ι] (w : World ι)

/-- What the bridge calls for as it is stored now. -/
def line (id : ι) : Option Line := (w.bridges.get? id).bind lineOf

/-- What its scheduler repeats by, if there is one. -/
def there (id : ι) : Option Line := w.queue.get? (.schedule id)

/-- A save has yet to sync the bridge as it is stored. -/
def Coming (id : ι) : Prop := ∃ s ∈ w.syncs, s.1 = id ∧ lineOf s.2 = w.line id

instance (id : ι) : Decidable (w.Coming id) :=
  inferInstanceAs (Decidable (∃ s ∈ w.syncs, s.1 = id ∧ lineOf s.2 = w.line id))

end World

inductive ScheduleStep (ι : Type*) where
  /-- `store.create` or `store.update` -/
  | save (id : ι) (bridge : Bridge)
  /-- …and the `sync` after it -/
  | sync (n position : ℕ)
  /-- `lifecycle.teardown` -/
  | teardown (id : ι)
  /-- …and `store.remove` after it -/
  | erase (n : ℕ)
  /-- `tick` reads its bridge; does `store.get` answer? -/
  | tick (id : ι) (answers : Bool)
  | retire (n : ℕ)
  | fires (key : Key ι) (position : ℕ)
  | others (name : String) (line : Option Line) (position : ℕ)
  /-- `reconcile` reads the bridges -/
  | begin
  | page
  /-- it looks at the next key of its page; does `store.get` answer? -/
  | look (answers : Bool)
  | drop
  | register (position : ℕ)
  deriving DecidableEq

variable {ι : Type*} [DecidableEq ι]

/-- `store.get(id).catch(() => null)` -/
def World.fetch (w : World ι) (id : ι) (answers : Bool) : Option Bridge :=
  if answers then w.bridges.get? id else none

/-- A key of the page that is left where it is. -/
def World.pass (w : World ι) (key : Key ι) (start size : ℕ) (rest : List (Key ι)) : World ι :=
  { w with phase := .looking start size rest, seen := key :: w.seen }

def step (w : World ι) : ScheduleStep ι → Option (World ι)
  | .save id bridge =>
    some { w with
      bridges := w.bridges.set id bridge
      syncs := w.syncs ++ [(id, bridge)]
      since := id :: w.since }
  | .sync n position =>
    w.syncs[n]?.map fun s =>
      { w with
        queue := put w.queue (.schedule s.1) (lineOf s.2) position
        syncs := w.syncs.eraseIdx n }
  | .teardown id =>
    some { w with
      queue := removeJobScheduler w.queue (.schedule id)
      removals := w.removals ++ [id] }
  | .erase n =>
    w.removals[n]?.map fun id =>
      { w with
        bridges := w.bridges.filter fun k => k ≠ id
        removals := w.removals.eraseIdx n
        since := id :: w.since }
  | .tick id answers =>
    if ((w.fetch id answers).bind wantsScheduler).isSome then some w
    else some { w with retiring := w.retiring ++ [id] }
  | .retire n =>
    w.retiring[n]?.map fun id =>
      { w with
        queue := removeJobScheduler w.queue (.schedule id)
        retiring := w.retiring.eraseIdx n }
  | .fires key position => some { w with queue := move w.queue key position }
  | .others name line position =>
    some { w with
      queue := put w.queue (.other name) line position
      theirs := fun other => if other = name then line else w.theirs other }
  | .begin =>
    match w.phase with
    | .idle | .done =>
      some { w with
        phase := .paging 0
        wanted := w.bridges.entries.filter fun e => (wantsScheduler e.2).isSome
        seen := []
        since := [] }
    | _ => none
  | .page =>
    match w.phase with
    | .paging start =>
      let page := (w.queue.keys.drop start).take pageSize
      some { w with phase := .looking start page.length page }
    | _ => none
  | .look answers =>
    match w.phase with
    | .looking start size [] =>
      some { w with
        phase := if size < pageSize then .registering w.wanted else .paging (start + pageSize) }
    | .looking start size (.other name :: rest) => some (w.pass (.other name) start size rest)
    | .looking start size (.schedule id :: rest) =>
      if id ∈ w.wanted.map Prod.fst then some (w.pass (.schedule id) start size rest)
      else
        -- the list of bridges is a moment old: asked again, of the database
        if ((w.fetch id answers).bind wantsScheduler).isSome then some (w.pass (.schedule id) start size rest)
        else some { w with phase := .dropping id start size rest, seen := .schedule id :: w.seen }
    | _ => none
  | .drop =>
    match w.phase with
    | .dropping id start size rest =>
      some { w with
        queue := removeJobScheduler w.queue (.schedule id)
        phase := .looking start size rest }
    | _ => none
  | .register position =>
    match w.phase with
    | .registering ((id, bridge) :: rest) =>
      some { w with
        queue := put w.queue (.schedule id) (lineOf bridge) position
        phase := .registering rest }
    | .registering [] => some { w with phase := .done }
    | _ => none

/-! ## What it is for -/

namespace World

variable (w : World ι)

/-- `reconcile` is over, and no save or delete is half done. -/
def Settled : Prop := w.phase = .done ∧ w.syncs = [] ∧ w.removals = []

/-- **The queue is equal to the bridges.** -/
def InStep : Prop := ∀ id, w.there id = w.line id

/-- Nothing of another service was touched. -/
def LeavesOthers : Prop := ∀ name, w.queue.get? (.other name) = w.theirs name

end World

/-- A step that goes well: no scheduler that `reconcile` has not looked at stands before the page it
reads, and a scheduler is written as its bridge is stored at that moment, or a sync of it as stored is
still to come. -/
def goesWell (w : World ι) : ScheduleStep ι → Prop
  | .page =>
    match w.phase with
    | .paging start => ∀ key ∈ w.queue.keys.take start, key.isOurs = true → key ∈ w.seen
    | _ => True
  | .drop =>
    match w.phase with
    | .dropping id _ _ _ => w.line id = none ∨ w.Coming id
    | _ => True
  | .retire n => ∀ id ∈ w.retiring[n]?, w.line id = none ∨ w.Coming id
  | .register _ =>
    match w.phase with
    | .registering ((id, bridge) :: _) => w.line id = lineOf bridge ∨ w.Coming id
    | _ => True
  | .sync n _ =>
    ∀ s ∈ w.syncs[n]?, w.line s.1 = lineOf s.2 ∨ ({ w with syncs := w.syncs.eraseIdx n }).Coming s.1
  | .erase n => ∀ id ∈ w.removals[n]?, w.there id = none
  | _ => True

end Syncle.Schedules
