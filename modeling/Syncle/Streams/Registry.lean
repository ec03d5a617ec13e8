import Mathlib.Logic.Function.Basic
import Syncle.Jobs.Lifecycle
import Syncle.Lib.Run

/-!
# The stream of a bridge, and who opens and closes it

On the instance that leads, the streams are in a map by their bridge (`streams`). Whoever opens one
(`start`, the reconcile pass `resumeAll`, another instance's start, a stream whose tunnel dropped)
goes through `beginStream`; whoever ends one goes through `teardown` (`bridge-cdc.service.ts`). They
interleave at their awaits. Here is one bridge of that map, with everything that is under way for it.

A step goes from one await to the next: what it reads and writes in between nobody interrupts.
-/

namespace Syncle.Streams

open Jobs (BridgeJobStatus)

/-- What became of the provider stream of an entry of the map. `startStream` hands it over, and
`handle.stop()` ends it. -/
inductive Provider where
  | pending | opened | stopped
  deriving DecidableEq

inductive Role where
  | start
  /-- the reconcile pass, by the row it has read -/
  | pass
  /-- `beginForAnother` -/
  | another
  /-- `rerouteStream` -/
  | reroute
  | stop
  | standDown
  deriving DecidableEq

/-- The await it is at. -/
inductive Await where
  /-- a start looks for an active job; the others read the job's row -/
  | reading
  /-- the pass has the row, and has not come to it yet -/
  | holding
  /-- the source is talked to, up to the last refusal -/
  | preparing
  /-- the job has been marked `running` -/
  | marked
  /-- `resolvePrimaryKey` -/
  | keying
  | opening (i : Nat)
  /-- `startStream` failed: the job is about to be finalized -/
  | failing
  /-- `rerouteStream`: a job that an attempt failed is about to be put back -/
  | reviving
  /-- `teardown`: of the entry it took, what is pending, and then what is in flight -/
  | settling (i : Nat)
  | draining (i : Nat)
  | closing
  /-- the job is about to be paused -/
  | pausing
  /-- `rerouteStream`: until its next attempt -/
  | waiting
  deriving DecidableEq

/-- `fresh`, which no code reads: of a stop, that no start has been requested since. -/
structure Task where
  role : Role
  at_ : Await
  fresh : Bool := true
  deriving DecidableEq

structure Registry where
  leads : Bool := true
  /-- the bridge's job -/
  status : Option BridgeJobStatus := none
  /-- `streams.get` -/
  registered : Option Nat := none
  /-- `opening.has` -/
  opening : Bool := false
  providers : Nat → Provider := fun _ => .pending
  /-- the entries that have been made -/
  next : Nat := 0
  tasks : Nat → Option Task := fun _ => none
  /-- history, which no code reads: a stop has been requested, or has returned, and no start has
  been requested since -/
  asked : Bool := false
  returned : Bool := false

/-- What the database and the source answer. `refused`: the bridge must not run, which its job says.
`off`: it is not live any more, or disabled. -/
inductive Answer where
  | done | refused | off | error
  deriving DecidableEq

inductive RegistryEvent where
  /-- a request is made, or a pass begins -/
  | request (t : Nat) (role : Role)
  /-- the lead is lost, or won -/
  | lead (leads : Bool)
  /-- a task goes on from its await -/
  | go (t : Nat) (answer : Answer)
  deriving DecidableEq

namespace Registry

variable (s : Registry)

def put (t : Nat) (task : Option Task) : Registry :=
  { s with tasks := Function.update s.tasks t task }

def active : Bool := s.status.any (·.active)

/-- `teardown`: the entry that is registered is taken, if there is one. -/
def teardown (t : Nat) (task : Task) (none : Await) : Registry :=
  match s.registered with
  | some i => s.put t (some { task with at_ := .settling i })
  | _ => s.put t (some { task with at_ := none })

/-- `resumeJob`, when it ends: it is out of `opening`, and a re-route tries again. -/
def leaveOpening (t : Nat) (task : Task) (thrown : Bool) : Registry :=
  match task.role with
  | .start => s.put t none
  | .reroute =>
    { s with opening := false }.put t
      (if thrown then some { task with at_ := .reviving }
      else if s.registered.isSome then none
      else some { task with at_ := .waiting })
  | _ => { s with opening := false }.put t none

/-- `resumeJob`, up to its first await. -/
def resumeJob (t : Nat) (task : Task) : Registry :=
  if s.opening then
    match task.role with
    | .reroute => s.put t (if s.registered.isSome then none else some { task with at_ := .waiting })
    | _ => s.put t none
  else if !s.leads then s.leaveOpening t task false
  else { s with opening := true }.put t (some { task with at_ := .preparing })

/-- `beginStream`, up to its first await. -/
def beginStream (t : Nat) (task : Task) : Registry :=
  if !s.leads || s.registered.isSome then s.leaveOpening t task true
  else s.put t (some { task with at_ := .keying })

def request (t : Nat) : Role → Option Registry
  | .start =>
    -- every stop so far is before this start
    some { s with
      tasks := Function.update (fun t => (s.tasks t).map fun task => { task with fresh := false }) t
        (some { role := .start, at_ := .reading }),
      asked := false, returned := false }
  | .pass => if s.leads then some (s.put t (some { role := .pass, at_ := .reading })) else none
  | .another =>
    if s.registered.isSome then none else some (s.put t (some { role := .another, at_ := .reading }))
  | .reroute =>
    if s.registered.isSome then some (s.teardown t { role := .reroute, at_ := .reading } .reading)
    else none
  | .stop => some ({ s with asked := true }.teardown t { role := .stop, at_ := .reading } .reading)
  | .standDown =>
    if s.registered.isSome then some (s.teardown t { role := .standDown, at_ := .reading } .reading)
    else none

/-- From the end of a teardown on. -/
def afterTeardown (t : Nat) (task : Task) : Registry :=
  match task.role with
  | .stop => s.put t (some { task with at_ := .reading })
  | .reroute => s.put t (if s.leads then some { task with at_ := .reading } else none)
  | _ => s.put t none

/-- A stop has returned. -/
def returns (t : Nat) (task : Task) : Registry :=
  { s with returned := s.returned || (task.role = Role.stop && task.fresh) }.put t none

/-- The job's row, as it is read. -/
def read (t : Nat) (task : Task) (answer : Answer) : Registry :=
  let goOn (at_ : Await) : Registry := s.put t (some { task with at_ := at_ })
  let end_ : Registry := s.put t none
  match task.role with
  | .start => if answer = .done ∧ !s.active then goOn .preparing else end_
  | .pass => if answer = .done ∧ s.status = some .running then goOn .holding else end_
  | .another => if answer = .done ∧ s.status = some .running then s.resumeJob t task else end_
  | .reroute =>
    if answer ≠ .done then goOn .waiting
    else if s.status = some .running then s.resumeJob t task
    else end_
  | .stop => if answer = .done ∧ s.active then goOn .pausing else s.returns t task
  | .standDown => end_

/-- Up to the last refusal. -/
def prepare (t : Nat) (task : Task) (answer : Answer) : Registry :=
  match task.role, answer with
  | .start, .done => { s with status := some .running }.put t (some { task with at_ := .marked })
  | .start, _ => s.put t none
  | _, .done => s.beginStream t task
  | _, .refused => { s with status := some .failed }.leaveOpening t task false
  | _, .off => s.leaveOpening t task false
  | _, .error => s.leaveOpening t task true

/-- `startStream` is called for an entry of its own. -/
def register (t : Nat) (task : Task) : Registry :=
  { s with registered := some s.next, next := s.next + 1 }.put t
    (some { task with at_ := .opening s.next })

/-- `startStream` has handed its stream over. "stop() may have raced us during startStream." -/
def started (t : Nat) (task : Task) (i : Nat) : Registry :=
  let provider := if s.registered = some i then Provider.opened else .stopped
  { s with providers := Function.update s.providers i provider }.leaveOpening t task false

def startFailed (t : Nat) (task : Task) (i : Nat) : Registry :=
  { s with registered := if s.registered = some i then none else s.registered }.put t
    (some { task with at_ := .failing })

/-- `streams.delete`: whatever entry is there by now. -/
def delete (t : Nat) (task : Task) (i : Nat) : Registry :=
  { s with registered := none }.put t (some { task with at_ := .draining i })

/-- `stream.handle.stop()`: of a stream that has not been handed over it is the placeholder's. -/
def stopHandle (t : Nat) (task : Task) (i : Nat) : Registry :=
  let provider := if s.providers i = .opened then Provider.stopped else s.providers i
  { s with providers := Function.update s.providers i provider }.put t
    (some { task with at_ := .closing })

def go (t : Nat) (task : Task) (answer : Answer) : Registry :=
  match task.at_ with
  | .reading => s.read t task answer
  -- a row that was read may be old by now
  | .holding =>
    if s.registered.isSome || s.opening || !s.leads then s.put t none else s.resumeJob t task
  | .preparing => s.prepare t task answer
  | .marked => s.beginStream t task
  | .keying => s.register t task
  | .opening i => if answer = .done then s.started t task i else s.startFailed t task i
  | .failing => { s with status := some .failed }.leaveOpening t task true
  | .reviving =>
    { s with status := if s.status = some BridgeJobStatus.failed then some .running else s.status }.put t
      (some { task with at_ := .waiting })
  | .settling i => s.delete t task i
  | .draining i => s.stopHandle t task i
  | .closing => s.afterTeardown t task
  | .pausing => { s with status := some .paused }.returns t task
  | .waiting => s.put t (if s.leads then some { task with at_ := .reading } else none)

end Registry

def registryStep (s : Registry) : RegistryEvent → Option Registry
  | .request t role => if (s.tasks t).isSome then none else s.request t role
  | .lead leads => some { s with leads := leads }
  | .go t answer => (s.tasks t).map fun task => s.go t task answer

end Syncle.Streams
