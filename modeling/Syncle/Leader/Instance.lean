import Mathlib.Logic.Function.Basic
import Mathlib.Tactic.Common

/-!
# Which process leads

`instance.service.ts`: every process beats, and a beat either renews the lease the process has in
Redis or tries for it. Between the parts of a beat any time may pass: before Redis executes what
was asked of it, before its answer is read, and while the listeners that are told of an election
run. The next beat waits for all of that.
-/

namespace Syncle.Leader

/-- What is asked of Redis about the lease: `RENEW`, `SET … NX`, `RELEASE`. -/
inductive Request where
  | renew | acquire | release
  deriving DecidableEq

/-- A request on its way to Redis. -/
structure Sent where
  request : Request
  /-- a heartbeat waits for the answer -/
  awaited : Bool
  deriving DecidableEq

/-- Where the heartbeat is. -/
inductive Waits where
  | nothing
  /-- for the key that says that the process is alive -/
  | alive
  | asked (request : Request)
  | answered (request : Request) (ok : Bool)
  /-- for the listeners that are left to run -/
  | listeners (left : Nat)
  deriving DecidableEq

structure Instance where
  leader : Bool := false
  /-- when the lease was last known to be ours -/
  leaseSeenAt : Nat := 0
  closed : Bool := false
  /-- the beats that wait for the one under way -/
  campaigning : Nat := 0
  waits : Waits := .nothing
  /-- in the order of the connection -/
  sent : List Sent := []
  /-- the process is gone; Redis may still get what it sent -/
  crashed : Bool := false
  deriving DecidableEq

/-- `LEADER_KEY` -/
structure Lease (I : Type*) where
  holder : I
  expiresAt : Nat
  deriving DecidableEq

/-- All processes have the time of `now`, each with a clock that is `offset` ahead. -/
structure Config (I : Type*) where
  leaderTtlSeconds : I → Nat
  offset : I → Nat
  elected : I → Nat
  demoted : I → Nat

structure Cluster (I : Type*) where
  now : Nat := 0
  lease : Option (Lease I) := none
  instances : I → Instance := fun _ => {}

variable {I : Type*}

namespace Instance

/-- `isLeader`, as long as there is anybody to ask. -/
def isLeader (i : Instance) : Bool := !i.crashed && i.leader

/-- What a heartbeat does next when this many listeners are told. -/
def tell (i : Instance) (listeners : Nat) : Instance :=
  { i with waits := if listeners = 0 then .nothing else .listeners listeners }

def send (i : Instance) (request : Request) : Instance :=
  { i with waits := .asked request, sent := i.sent ++ [⟨request, true⟩] }

/-- Redis has executed a request; whoever waits for it can read the answer. -/
def executed (i : Instance) (x : Sent) (rest : List Sent) (ok : Bool) : Instance :=
  { i with sent := rest, waits := if x.awaited then .answered x.request ok else i.waits }

/-- The requests nobody waits for any more may still reach Redis. -/
@[grind =]
def giveUp (i : Instance) : Instance :=
  { i with waits := .nothing, sent := i.sent.map fun x => { x with awaited := false } }

end Instance

namespace Config

variable (c : Config I) (k : I)

def ttlMs : Nat := max 2 (c.leaderTtlSeconds k) * 1000

/-- `Date.now()` -/
def clock (now : Nat) : Nat := now + c.offset k

def stepUp (now : Nat) (i : Instance) : Instance :=
  { i with leader := true, leaseSeenAt := c.clock k now }.tell (c.elected k)

def stepDown (i : Instance) : Instance :=
  if i.leader then { i with leader := false }.tell (c.demoted k) else { i with waits := .nothing }

/-- What `heartbeat` does with an answer. -/
@[grind =]
def answer (now : Nat) (i : Instance) : Request → Bool → Instance
  | .renew, true => { i with waits := .nothing, leaseSeenAt := c.clock k now }
  | .renew, false => c.stepDown k i
  | .acquire, true => c.stepUp k now i
  | .acquire, false => { i with waits := .nothing }
  | .release, _ => { i with waits := .nothing }

/-- A request that failed. A lease that could not be renewed for as long as it lasts is, as far
as anybody can tell, somebody else's by now. -/
def failed (now : Nat) (i : Instance) : Instance :=
  if i.leader && decide (c.ttlMs k < c.clock k now - i.leaseSeenAt) then c.stepDown k i.giveUp
  else i.giveUp

end Config

inductive Event (I : Type*) where
  | wait (ms : Nat)
  /-- at boot, and whenever the timer fires -/
  | tick (k : I)
  | heartbeat (k : I)
  /-- the key that says that the process is alive is written -/
  | said (k : I)
  /-- Redis gets the next request of this process -/
  | execute (k : I)
  /-- a request nobody waits for never arrives -/
  | lose (k : I)
  | answered (k : I)
  | fail (k : I)
  | listener (k : I)
  /-- `onModuleDestroy` -/
  | destroy (k : I)
  | crash (k : I)

namespace Cluster

variable [DecidableEq I] (c : Config I) (s : Cluster I)

/-- The key, while it has not run out. -/
def alive : Option (Lease I) := s.lease.filter fun l => decide (s.now < l.expiresAt)

def held (k : I) : Bool := s.alive.any fun l => decide (l.holder = k)

/-- The lease after the request, and the answer. -/
def redis (k : I) : Request → Option (Lease I) × Bool
  | .renew => if s.held k then (some ⟨k, s.now + c.ttlMs k⟩, true) else (s.lease, false)
  | .acquire => if s.alive.isNone then (some ⟨k, s.now + c.ttlMs k⟩, true) else (s.lease, false)
  | .release => if s.held k then (none, true) else (s.lease, false)

def put (k : I) (i : Instance) : Cluster I :=
  { s with instances := Function.update s.instances k i }

/-- What process `k` does next, in a state it is in. -/
def move (k : I) (f : Instance → Option Instance) : Option (Cluster I) :=
  if (s.instances k).crashed then none else (f (s.instances k)).map (s.put k)

def execute (k : I) : Option (Cluster I) :=
  match (s.instances k).sent with
  | [] => none
  | x :: rest =>
    let r := s.redis c k x.request
    some { s.put k ((s.instances k).executed x rest r.2) with lease := r.1 }

def lose (k : I) : Option (Cluster I) :=
  match (s.instances k).sent with
  | [] => none
  | x :: rest =>
    if x.awaited && !(s.instances k).crashed then none
    else some (s.put k { s.instances k with sent := rest })

/-- The next beat begins, if the one before is over. -/
def beat (i : Instance) : Option Instance :=
  match i.waits, i.campaigning with
  | .nothing, n + 1 =>
    some { i with campaigning := n, waits := if i.closed then .nothing else .alive }
  | _, _ => none

@[grind =]
def step : Event I → Option (Cluster I)
  | .wait ms => some { s with now := s.now + ms }
  | .tick k => s.move k fun i =>
    if i.closed then none else some { i with campaigning := i.campaigning + 1 }
  | .heartbeat k => s.move k beat
  | .said k => s.move k fun i =>
    if i.waits = .alive then some (i.send (if i.leader then .renew else .acquire)) else none
  | .execute k => s.execute c k
  | .lose k => s.lose k
  | .answered k => s.move k fun i =>
    match i.waits with
    | .answered request ok => some (c.answer k s.now i request ok)
    | _ => none
  | .fail k => s.move k fun i =>
    match i.waits with
    | .alive | .asked _ | .answered _ _ => some (c.failed k s.now i)
    | _ => none
  | .listener k => s.move k fun i =>
    match i.waits with
    | .listeners (left + 1) => some (i.tell left)
    | _ => none
  | .destroy k => s.move k fun i =>
    if i.closed then none
    else if i.leader then
      some { i with closed := true, leader := false, sent := i.sent ++ [⟨.release, false⟩] }
    else some { i with closed := true }
  | .crash k => s.move k fun i => some { i with crashed := true }

end Cluster

end Syncle.Leader
