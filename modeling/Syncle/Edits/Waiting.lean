import Syncle.Edits.Update
import Syncle.Lib.Run

/-!
# Where changes wait, and a save of the bridge

What a live bridge has captured and not delivered waits in three places: in its stream, in its spool
in Redis, and as rows set aside in the dead-letter queue. The stream is opened with the bridge as it
was (`stream.bridge`) and ends with the stop that a save begins with. The spool and the dead letters
are found by the bridge's id, whatever the bridge reads by then.
-/

namespace Syncle.Edits

open Cdc (CdcOperation)

variable {C M T R K : Type*}

/-- A row, and the table it was captured from. No code reads `origin`. -/
structure Captured (T R : Type*) where
  origin : T
  op : CdcOperation
  row : R
  deriving DecidableEq

/-- A pending entry. `succeeded`: the targets that hold the rows (`succeededTargetsJson`). -/
structure DeadLetter (T R : Type*) where
  id : Nat
  rows : List (Captured T R)
  succeeded : List String := []
  deriving DecidableEq

structure Stream (C M T R : Type*) where
  bridge : Bridge C M
  buffer : List (Captured T R) := []
  deriving DecidableEq

/-- What is done with a row that was captured. -/
inductive Use (R : Type*) where
  /-- it is written as it was captured -/
  | sent
  /-- its key is looked up in the table the bridge reads -/
  | lookedUp
  /-- what stands there is written in its place -/
  | refreshed (now : R)
  /-- nothing stands there: it is deleted at the targets -/
  | removed
  deriving DecidableEq

/-- A row that was used, and the table the bridge read then. -/
structure Used (T R : Type*) where
  captured : Captured T R
  reads : Option T
  use : Use R
  deriving DecidableEq

/-- An entry that is made of rows that failed, by their places in the batch. -/
structure Park where
  id : Nat
  places : List Nat
  succeeded : List String := []
  deriving DecidableEq

/-- What became of rows that were handed to the targets: they have them, or those that failed are set
aside, or the bridge stops. -/
inductive Fate where
  | delivered
  | parked (entries : List Park)
  | halted
  deriving DecidableEq

/-- How a retry of an entry goes: whether an error ends it before anything is sent (the stored rows,
or the source, cannot be read), whether a replay got through, and the targets that took all that was
asked of them. -/
structure Reply where
  throws : Bool := false
  ok : Bool
  took : List String
  deriving DecidableEq

structure Waiting (C M T R : Type*) where
  bridge : Bridge C M
  /-- the source's tables, as they are now -/
  tables : T → List R
  /-- the job is marked `running` -/
  running : Bool := false
  stream : Option (Stream C M T R) := none
  spool : List (Captured T R) := []
  deadLetters : List (DeadLetter T R) := []
  /-- history, which no code reads -/
  used : List (Used T R) := []

inductive WaitingEvent (C M T R : Type*) where
  /-- the application writes to a table -/
  | write (table : T) (rows : List R)
  | start
  | pause
  /-- the process is another one -/
  | crash
  /-- the leader takes up a job that is marked `running` -/
  | resume
  | capture (op : CdcOperation) (row : R)
  | flush (fate : Fate)
  /-- the spool's consumer delivers its next run, of so many entries -/
  | deliverSpooled (length : Nat) (fate : Fate)
  /-- `sourceKey`: the primary key of the table, if it can be told -/
  | retry (ids : Option (List Nat)) (force : Bool) (sourceKey : Option (List String))
      (replies : Nat → Reply)
  | discard (ids : Option (List Nat))
  /-- the bridge is saved. `cleared`: the spool could be cleared, if it was asked for. `restarted`:
  the start that follows is not refused. -/
  | update (bridge : Bridge C M) (cleared restarted : Bool)

/-- What the code is handed: how a source names its table, how a key is told from a row (`none`: a
key column is missing), and whether a row is in the bridge's scope. -/
structure Naming (C M T R K : Type*) where
  tableOf : TableSource C → T
  sig : List String → R → Option K
  inScope : M → R → Bool

section Steps

variable (n : Naming C M T R K)

/-- The table the bridge reads. -/
def Naming.reads (bridge : Bridge C M) : Option T := bridge.tableSource.map n.tableOf

/-! ## A retry -/

section Retry

variable [DecidableEq K] (bridge : Bridge C M) (entry : DeadLetter T R)

def Target.pending (targets : List Target) (succeeded : List String) : List Target :=
  targets.filter fun t => !succeeded.contains t.key

/-- The entry after an attempt that did not reach every target. -/
def DeadLetter.fail (pending : List Target) (took : List String) : DeadLetter T R :=
  { entry with succeeded :=
      entry.succeeded ++ (pending.filter fun t => took.contains t.key).map (·.key) }

def usedAs (use : Use R) (rows : List (Captured T R)) : List (Used T R) :=
  rows.map fun r => ⟨r, n.reads bridge, use⟩

/-- The recorded rows, as they were read. -/
def replay (reply : Reply) : List (Used T R) × Option (DeadLetter T R) :=
  let targets := match bridge.destination with
    | .http => []
    | .database targets => Target.pending targets entry.succeeded
  (usedAs n bridge .sent entry.rows, if reply.ok then none else some (entry.fail targets reply.took))

/-- What stands in the table under a row's key. -/
def lookup (table : List R) (sourceKey : List String) (r : Captured T R) : Option R :=
  table.find? fun now => n.sig sourceKey now = n.sig sourceKey r.row

/-- `refresh`: each target is brought to what the source holds now. -/
def refresh (table : List R) (targets : List Target) (sourceKey : List String) (force : Bool)
    (reply : Reply) : List (Used T R) × Option (DeadLetter T R) :=
  let pending := Target.pending targets entry.succeeded
  let appendOnly := pending.filter (·.appendOnly)
  let keyed := pending.filter fun t => !t.appendOnly
  let looked := usedAs n bridge .lookedUp entry.rows
  let present := entry.rows.filterMap fun r =>
    match lookup n table sourceKey r with
    | some now => if n.inScope bridge.mapping now then some (r, now) else none
    | none => none
  let absent := entry.rows.filter fun r => (lookup n table sourceKey r).isNone
  let propagatesDeletes := bridge.captures .delete
  if keyed ≠ [] ∧ absent ≠ [] ∧ !propagatesDeletes ∧ !force then
    -- the entry is left alone, and flagged
    (looked, some entry)
  else
    let upserted := present.map fun p => ⟨p.1, n.reads bridge, .refreshed p.2⟩
    let removed := usedAs n bridge (if propagatesDeletes then .removed else .sent) absent
    let appended := usedAs n bridge .sent entry.rows
    (looked ++ (if keyed = [] then [] else upserted ++ removed) ++
        (if appendOnly = [] then [] else appended),
      if pending.all fun t => reply.took.contains t.key then none
      else some (entry.fail pending reply.took))

def retryOne (table : List R) (sourceKey : Option (List String)) (force : Bool) (reply : Reply) :
    List (Used T R) × Option (DeadLetter T R) :=
  if reply.throws then ([], some entry)
  else
  match bridge.destination, sourceKey with
  | .database targets, some key =>
    if bridge.tableSource.isSome ∧ entry.rows.all fun r => (n.sig key r.row).isSome then
      refresh n bridge entry table targets key force reply
    else replay n bridge entry reply
  | _, _ => replay n bridge entry reply

/-- The entries one after another, the oldest first; at most 500 of them. -/
def retryAll (table : List R) (ids : Option (List Nat)) (force : Bool)
    (sourceKey : Option (List String)) (replies : Nat → Reply) :
    Nat → List (DeadLetter T R) → List (Used T R) × List (DeadLetter T R)
  | 0, entries => ([], entries)
  | _, [] => ([], [])
  | left + 1, entry :: entries =>
    if ids.all fun ids => ids.contains entry.id then
      let one := retryOne n bridge entry table sourceKey force (replies entry.id)
      let rest := retryAll table ids force sourceKey replies left entries
      (one.1 ++ rest.1, one.2.toList ++ rest.2)
    else
      let rest := retryAll table ids force sourceKey replies (left + 1) entries
      (rest.1, entry :: rest.2)

end Retry

/-! ## Steps -/

namespace Waiting

variable (s : Waiting C M T R)

/-- `park`. There is no entry without a row. -/
def park (rows : List (Captured T R)) (entries : List Park) : List (DeadLetter T R) :=
  (entries.map fun p => ⟨p.id, p.places.filterMap fun i => rows[i]?, p.succeeded⟩).filter
    fun e => !e.rows.isEmpty

/-- Rows of a stream are handed to the targets. -/
def deliver (rows : List (Captured T R)) (fate : Fate) : Waiting C M T R :=
  let s := { s with used := s.used ++ usedAs n s.bridge .sent rows }
  match fate with
  | .delivered => s
  | .parked entries => { s with deadLetters := s.deadLetters ++ park rows entries }
  | .halted => { s with running := false, stream := none }

/-- `beginStream`, with the bridge as it is saved. -/
def beginStream : Waiting C M T R := { s with stream := some ⟨s.bridge, []⟩ }

/-- `stop` -/
def stopped : Waiting C M T R := { s with running := false, stream := none }

/-- `PUT :id` -/
def update [DecidableEq C] (bridge : Bridge C M) (cleared restarted : Bool) : Waiting C M T R :=
  let wasListening := s.bridge.isCdc && s.running
  let saved := { s.stopped with bridge := bridge }
  -- the spool is what `abandon` clears
  let saved := if abandons s.bridge bridge && cleared then { saved with spool := [] } else saved
  if wasListening && bridge.enabled && bridge.live.isSome && restarted then
    { saved.beginStream with running := true }
  else saved

end Waiting

/-- What happens to a bridge. `spooled`: changes go through the spool. -/
def waitingStep [DecidableEq C] [DecidableEq T] [DecidableEq K] (spooled : Bool)
    (s : Waiting C M T R) : WaitingEvent C M T R → Option (Waiting C M T R)
  | .write table rows =>
    some { s with tables := fun t => if t = table then rows else s.tables t }
  | .start =>
    if !s.running ∧ s.bridge.live.isSome then some { s.beginStream with running := true } else none
  | .pause => some s.stopped
  | .crash => some { s with stream := none }
  | .resume =>
    if s.running ∧ s.stream.isNone ∧ s.bridge.live.isSome ∧ s.bridge.enabled then some s.beginStream
    else none
  | .capture op row =>
    match s.stream with
    | some stream =>
      (n.reads stream.bridge).map fun table =>
        { s with stream := some { stream with buffer := stream.buffer ++ [⟨table, op, row⟩] } }
    | none => none
  | .flush fate =>
    match s.stream with
    | some stream =>
      let emptied := { s with stream := some { stream with buffer := [] } }
      if spooled then some { emptied with spool := s.spool ++ stream.buffer }
      else some (emptied.deliver n stream.buffer fate)
    | none => none
  | .deliverSpooled length fate =>
    if spooled ∧ s.stream.isSome ∧ s.spool ≠ [] then
      -- what the bridge stops on stays in the spool
      some ({ s with spool := if fate = Fate.halted then s.spool else s.spool.drop length }.deliver n
        (s.spool.take length) fate)
    else none
  | .retry ids force sourceKey replies =>
    let table := match n.reads s.bridge with
      | some table => s.tables table
      | none => []
    let retried := retryAll n s.bridge table ids force sourceKey replies 500 s.deadLetters
    some { s with used := s.used ++ retried.1, deadLetters := retried.2 }
  | .discard ids =>
    some { s with deadLetters := s.deadLetters.filter fun e => !(ids.all fun ids => ids.contains e.id) }
  | .update bridge cleared restarted => some (s.update bridge cleared restarted)

end Steps

end Syncle.Edits
