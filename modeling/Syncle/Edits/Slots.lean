import Mathlib.Logic.Function.Basic
import Syncle.Edits.Update
import Syncle.Lib.Run

/-!
# What a bridge has on its source, and what is still to be removed there

A live bridge on PostgreSQL has a replication slot: one of its own, named after it, or a share in the
one slot of its server and database. `provision` makes it, `releaseSource` removes it. What could not
be removed is written down (`source_cleanups`, one record for a bridge and a connection) and swept
later (`retryCleanups`, `bridge-cdc.service.ts`).

A slot's name is unique on its server, and two connections may lead to one server. Other engines keep
nothing on the source.
-/

namespace Syncle.Edits

/-- A connection and a database: where `withAdapter` goes. -/
abbrev Place (C : Type*) := C × String

/-- A pending clean-up. -/
structure Cleanup (B C : Type*) where
  bridgeId : B
  place : Place C
  deriving DecidableEq

/-- Where the connections lead. -/
structure Servers (C V : Type*) where
  server : C → V
  postgres : C → Bool

structure Slots (B C M V : Type*) where
  bridges : B → Option (Bridge C M)
  /-- the job is `queued`, `running` or `canceling` -/
  running : B → Bool
  /-- `streams.has` -/
  streaming : B → Bool
  /-- a position is stored, and not marked as lost -/
  position : B → Bool
  /-- a bridge's own slot on a server, by the database it was made in -/
  own : B → V → Option String
  shared : Place C → Bool
  /-- `cdc_shared_members`: one row for a bridge -/
  members : List (B × Place C)
  cleanups : List (Cleanup B C)

/-- How a release goes: can the connection be resolved, is the member's row taken out, does the server
drop the one slot and the other, and can a failure be written down? -/
structure Release where
  resolves : Bool := true
  left : Bool := true
  sharedDropped : Bool := true
  ownDropped : Bool := true
  noted : Bool := true
  deriving DecidableEq

inductive Provision where
  /-- before anything is made -/
  | refused
  /-- an error, before there is a slot -/
  | unreached
  /-- the shared slot is there, but the bridge could not join it -/
  | busy
  | done
  deriving DecidableEq

variable {B C M V : Type*} [DecidableEq B] [DecidableEq C] [DecidableEq V] (at_ : Servers C V)

namespace Slots

variable (s : Slots B C M V)

/-! ## Releasing a source -/

def remaining (place : Place C) : Bool := s.members.any fun m => m.2 = place

/-- `leave`. The row is the bridge's, whichever slot it is a member of. -/
def leave (b : B) (place : Place C) (r : Release) : Slots B C M V × Bool :=
  if !r.left then (s, false)
  else
    let s := { s with members := s.members.filter fun m => m.1 ≠ b }
    if s.remaining place then (s, true)
    else if !r.sharedDropped then (s, false)
    else ({ s with shared := Function.update s.shared place false }, true)

def dropOwn (b : B) (place : Place C) (r : Release) : Slots B C M V × Bool :=
  if r.ownDropped then
    ({ s with own := Function.update s.own b (Function.update (s.own b) (at_.server place.1) none) }, true)
  else (s, false)

def deprovision (b : B) (place : Place C) (r : Release) : Slots B C M V × Bool :=
  let gone := s.leave b place r
  if gone.2 then gone.1.dropOwn at_ b place r else (gone.1, false)

/-- The upsert: a record that is there keeps its database. -/
def note (b : B) (place : Place C) : Slots B C M V :=
  if s.cleanups.any fun c => c.bridgeId = b ∧ c.place.1 = place.1 then s
  else { s with cleanups := s.cleanups ++ [⟨b, place⟩] }

def forget (b : B) (connectionId : C) : Slots B C M V :=
  { s with cleanups := s.cleanups.filter fun c => !(c.bridgeId = b ∧ c.place.1 = connectionId) }

/-- `releaseSource` -/
def releaseSource (b : B) (place : Place C) (r : Release) : Slots B C M V × Bool :=
  if !r.resolves then (s, false)
  else if !at_.postgres place.1 then (s, true)
  else
    let gone := s.deprovision at_ b place r
    if gone.2 then (gone.1.forget b place.1, true)
    else if r.noted then (gone.1.note b place, false)
    else (gone.1, false)

/-! ## Starting -/

/-- `join`. A bridge that is a member of this slot keeps its row; one that could not join has none. -/
def join (b : B) (place : Place C) (p : Provision) : Slots B C M V :=
  let s := { s with shared := Function.update s.shared place true }
  if (b, place) ∈ s.members then s
  else { s with members := (s.members.filter fun m => m.1 ≠ b) ++
      if p = .done then [(b, place)] else [] }

/-- `provision`. What is left of the other kind of slot is removed, if it can be. -/
def provision (b : B) (place : Place C) (kind : SlotKind) (r : Release) (p : Provision) :
    Slots B C M V :=
  if p = .refused ∨ !at_.postgres place.1 then s
  else
    match kind with
    | .shared =>
      let s := (s.dropOwn at_ b place r).1
      if p = .unreached then s else s.join b place p
    | .own =>
      let s := if s.members.any fun m => m.1 = b then (s.leave b place r).1 else s
      let v := at_.server place.1
      if p = .done ∧ s.own b v = none then
        { s with own := Function.update s.own b (Function.update (s.own b) v (some place.2)) }
      else s

def beginStream (b : B) : Slots B C M V :=
  { s with running := Function.update s.running b true, streaming := Function.update s.streaming b true }

def stop (b : B) : Slots B C M V :=
  { s with running := Function.update s.running b false, streaming := Function.update s.streaming b false }

/-- What follows of a start once it is clear where it reads from. -/
def startAt (b : B) (src : TableSource C) (kind : SlotKind) (r : Release) (p : Provision) :
    Slots B C M V :=
  let s := s.provision at_ b src.place kind r p
  if p = .done then s.beginStream b else s

/-- `fromNow`: what is left of a lost position goes first; when it does not, the start fails. -/
def start (b : B) (src : TableSource C) (kind : SlotKind) (fromNow : Option Release) (r : Release)
    (p : Provision) : Slots B C M V :=
  match fromNow with
  | none => s.startAt at_ b src kind r p
  | some release =>
    let gone := s.deprovision at_ b src.place release
    if gone.2 then
      { gone.1 with position := Function.update gone.1.position b false }.startAt at_ b src kind r p
    else gone.1

/-! ## Edits -/

/-- `abandon` -/
def abandon (b : B) (was : TableSource C) (r : Release) : Slots B C M V :=
  let gone := (s.releaseSource at_ b was.place r).1
  { gone with position := Function.update gone.position b false }

/-- The bridge stopped, by the old trigger, and saved. -/
def saved (b : B) (before bridge : Bridge C M) : Slots B C M V :=
  let s := if before.isCdc then s.stop b else s
  { s with bridges := Function.update s.bridges b (some bridge) }

def leaveBehind (b : B) (before bridge : Bridge C M) (r : Release) : Slots B C M V :=
  match before.live with
  | some was => if abandons before bridge then s.abandon at_ b was r else s
  | none => s

/-- It was live, and is brought back up as it is now. -/
def startAgain (b : B) (wasListening : Bool) (bridge : Bridge C M)
    (restart : Option (Release × Provision)) : Slots B C M V :=
  match wasListening && bridge.enabled, restart, bridge.live, bridge.slot with
  | true, some (r, p), some src, some kind => s.startAt at_ b src kind r p
  | _, _, _, _ => s

/-- `PUT :id`. `restart`: how the start that follows goes. -/
def update (b : B) (before bridge : Bridge C M) (r : Release) (restart : Option (Release × Provision)) :
    Slots B C M V :=
  let wasListening := before.isCdc && s.running b
  ((s.saved b before bridge).leaveBehind at_ b before bridge r).startAgain at_ b wasListening bridge
    restart

/-- `DELETE :id`. The bridge is removed, however the release went. -/
def remove (b : B) (bridge : Bridge C M) (r : Release) : Slots B C M V :=
  let s := match bridge.tableSource with
    | some src => (s.releaseSource at_ b src.place r).1
    | none => s
  { s.stop b with
    bridges := Function.update s.bridges b none, position := Function.update s.position b false }

/-! ## Sweeps -/

/-- Is the bridge read on the very connection of the record? -/
def inUse (task : Cleanup B C) : Bool :=
  s.streaming task.bridgeId &&
    ((s.bridges task.bridgeId).bind (·.tableSource)).any fun src => src.connectionId = task.place.1

/-- One turn of `retryCleanups`. -/
def sweepOne (task : Cleanup B C) (r : Release) : Slots B C M V :=
  if s.inUse task then { s with cleanups := s.cleanups.filter fun c => c ≠ task }
  else (s.releaseSource at_ task.bridgeId task.place r).1

/-- `surrenderSlot` -/
def surrender (b : B) (src : TableSource C) (r : Release) : Slots B C M V :=
  let gone := s.releaseSource at_ b src.place r
  if gone.2 then { gone.1 with position := Function.update gone.1.position b false } else gone.1

end Slots

inductive SlotEvent (B C M : Type*) where
  | create (b : B) (bridge : Bridge C M)
  | update (b : B) (bridge : Bridge C M) (r : Release) (restart : Option (Release × Provision))
  | start (b : B) (fromNow : Option Release) (r : Release) (p : Provision)
  | pause (b : B)
  /-- the stream stores how far it has come -/
  | progress (b : B)
  /-- the process is another one -/
  | crash
  /-- the leader takes up a job that is marked `running`; only a refusal keeps it from the stream -/
  | resume (b : B) (r : Release) (p : Provision)
  | remove (b : B) (r : Release)
  /-- the sweep comes to a record -/
  | sweepOne (task : Cleanup B C) (r : Release)
  | surrender (b : B) (r : Release)

def slotStep (s : Slots B C M V) : SlotEvent B C M → Option (Slots B C M V)
  | .create b bridge =>
    if (s.bridges b).isNone then some { s with bridges := Function.update s.bridges b (some bridge) } else none
  | .update b bridge r restart => (s.bridges b).map fun before => s.update at_ b before bridge r restart
  | .start b fromNow r p =>
    match (s.bridges b).bind (·.live), (s.bridges b).bind (·.slot) with
    | some src, some kind => if s.running b then none else some (s.start at_ b src kind fromNow r p)
    | _, _ => none
  | .pause b => some (s.stop b)
  | .progress b => if s.streaming b then some { s with position := Function.update s.position b true } else none
  | .crash => some { s with streaming := fun _ => false }
  | .resume b r p =>
    match (s.bridges b).bind (·.live), (s.bridges b).bind (·.slot) with
    | some src, some kind =>
      if s.running b && !s.streaming b && (s.bridges b).any (·.enabled) then
        let s := s.provision at_ b src.place kind r p
        some (if p = .refused then s.stop b else s.beginStream b)
      else none
    | _, _ => none
  | .remove b r => (s.bridges b).map fun bridge => s.remove at_ b bridge r
  | .sweepOne task r => if task ∈ s.cleanups then some (s.sweepOne at_ task r) else none
  | .surrender b r =>
    match (s.bridges b).bind (·.live) with
    | some src => if s.running b || s.streaming b then none else some (s.surrender at_ b src r)
    | none => none

end Syncle.Edits
