import Syncle.Lib.Run
import Syncle.Lib.Replay
import Syncle.Shape.FanOut

/-!
# A retry beside the running stream (`dead-letter.service.ts`)

A retry of rows that have a key reads them again at the source, and brings every target that lacks
them to what it read (`refresh`). The queries come one after another, and after them the writes, a
target at a time; the source commits and the stream delivers in between.

A row is known at the source by its primary key, and at a target by the columns that target is keyed
on, which need not be the source's: a target keyed on another column knows a row whose value there has
changed as another row.
-/

namespace Syncle.DeadLetters

open Lib Cdc Shape

variable {R K S : Type*}

/-- A bridge that reads the changes of a table with a primary key into databases. -/
structure Bridge (R K S : Type*) where
  targets : List DatabaseTarget
  /-- `trigger.operations` -/
  operations : List CdcOperation
  /-- the source's primary key -/
  sourceKey : List String
  /-- does the row have a value in each of them? -/
  hasKey : R → Bool
  /-- its values in them, as the engine compares them -/
  key : R → K
  /-- what a target knows the row by: the values that `keyColumns` have once it is shaped and mapped -/
  keyAt : DatabaseTarget → R → K
  /-- `JSON.stringify(sourceKey.map((c) => String(r[c])))` -/
  sig : R → S
  /-- `rowMatchesFilters(row, src.filters)` -/
  inScope : R → Bool

/-- A change of the source's table. -/
structure Change (R : Type*) where
  op : CdcOperation
  row : R

/-- A pending entry. -/
structure Entry (R : Type*) where
  id : ℕ
  op : CdcOperation
  rows : List R
  /-- `succeededTargetsJson` -/
  succeeded : List String
  /-- its error is `NEEDS_FORCE_ERROR` -/
  needsForce : Bool := false

/-- What a `run` of `refresh` is for. -/
inductive Purpose where
  | upsert | remove | append
  deriving DecidableEq

/-- What one target is still to be handed. -/
structure Task (R : Type*) where
  purpose : Purpose
  target : DatabaseTarget
  op : Option CdcOperation
  rows : List R

inductive Phase (R : Type*) where
  /-- `readSourceRows`. `left`: the rows whose queries are still to come -/
  | reading (left asked found : List R)
  /-- `took`: the targets each run got through to; `failed`: is there a `firstError`? -/
  | writing (todo : List (Task R)) (took : List (Purpose × String)) (failed : Bool)

structure Retry (R : Type*) where
  entry : Entry R
  force : Bool
  phase : Phase R

structure World (R K : Type*) where
  /-- the changes of the source's table, in the order they were committed -/
  log : List (Change R) := []
  /-- how many of them the stream is past -/
  place : ℕ := 0
  /-- what a target has under a key; a row that is marked as deleted is not there -/
  dest : DatabaseTarget → K → Option R
  pending : List (Entry R) := []
  /-- `retrying`: there is one at a time -/
  retry : Option (Retry R) := none

/-- How a target's turn ends: it took the rows, or it failed, and of an engine without transactions
some of them are there nevertheless. -/
inductive Fate (R : Type*) where
  | took
  | failed (landed : R → Bool)

inductive Event (R : Type*) where
  /-- the source makes a change -/
  | commits (change : Change R)
  /-- the stream is done with its next change: the targets it says have it; the others failed, or it
  was none of theirs -/
  | delivers (takes : DatabaseTarget → Bool)
  /-- the stream starts over from an earlier place -/
  | resumes (place : ℕ)
  /-- changes that failed are set aside -/
  | parks (id : ℕ) (op : CdcOperation) (places : List ℕ) (succeeded : List String)
  | begins (id : ℕ) (force : Bool)
  /-- a query of `readSourceRows` answers -/
  | reads (found : List R)
  /-- the rows have been read -/
  | plans
  /-- a target's turn -/
  | writes (fate : Fate R)
  /-- the retry is over -/
  | ends
  /-- an error ends it, or the process does -/
  | breaks

namespace Bridge

variable (b : Bridge R K S)

def write (c : Change R) : Write K R := c.op.write (b.key c.row) c.row

/-- What one row of a delivery does at a target, where the target keeps rows by their key. -/
def effect (target : DatabaseTarget) (op : Option CdcOperation) (row : R) : Option (Write K R) :=
  match turn op [] target none with
  | .written =>
    match op with
    | some .truncate => some .clear
    -- (`soft`: it is marked)
    | some .delete => some (.remove (b.keyAt target row))
    | some .insert | some .update | none =>
      if target.writeMode = .insert then none else some (.upsert (b.keyAt target row) row)
  | _ => none

def effects (target : DatabaseTarget) (op : Option CdcOperation) (rows : List R) :
    List (Write K R) :=
  rows.filterMap (b.effect target op)

/-- What the stream's change does at a target, if the target takes it. -/
def handed (c : Change R) (takes : DatabaseTarget → Bool) (target : DatabaseTarget) :
    Option (Write K R) :=
  if target ∈ b.targets ∧ takes target then b.effect target (some c.op) c.row else none

def propagatesDeletes : Bool := b.operations.contains .delete

/-- The targets an entry is still owed to. -/
def owed (entry : Entry R) : List DatabaseTarget :=
  b.targets.filter fun t => !entry.succeeded.contains (targetKey t)

def appendOnly (entry : Entry R) : List DatabaseTarget :=
  (b.owed entry).filter fun t => t.writeMode = .insert

def keyed (entry : Entry R) : List DatabaseTarget :=
  (b.owed entry).filter fun t => t.writeMode ≠ .insert

/-- The rows one query asks for: `REFRESH_CHUNK` by a key of one column, one by a longer key. -/
def queryLength : ℕ := if b.sourceKey.length = 1 then 500 else 1

/-- A run's tasks: none where it has nothing to write. -/
def tasks (purpose : Purpose) (targets : List DatabaseTarget) (op : Option CdcOperation)
    (rows : List R) : List (Task R) :=
  if rows.isEmpty then [] else targets.map fun t => ⟨purpose, t, op, rows⟩

/-- The targets a run counts as through without writing anything. -/
def nothingToDo (purpose : Purpose) (targets : List DatabaseTarget) (rows : List R) :
    List (Purpose × String) :=
  if rows.isEmpty then targets.map fun t => (purpose, targetKey t) else []

section Signed

variable [DecidableEq S]

/-- `bySig.get(sig(r))` -/
def bySig (found : List R) (r : R) : Option R :=
  latest (fun now => decide (b.sig now = b.sig r)) found

def present (asked found : List R) : List R := (asked.filterMap (b.bySig found)).filter b.inScope

def absent (asked found : List R) : List R := asked.filter fun r => (b.bySig found r).isNone

/-- What `refresh` writes once it has read the rows; none where it leaves the entry alone. -/
def plan (entry : Entry R) (force : Bool) (asked found : List R) :
    Option (List (Task R) × List (Purpose × String)) :=
  let keyed := b.keyed entry
  let absent := b.absent asked found
  if !keyed.isEmpty && !absent.isEmpty && !b.propagatesDeletes && !force then none
  else
    let present := b.present asked found
    -- a row that is gone is deleted; forced, it is written as it was set aside
    let goneAs := if b.propagatesDeletes then some CdcOperation.delete else none
    some
      (tasks .upsert keyed none present ++ tasks .remove keyed goneAs absent ++
        tasks .append (b.appendOnly entry) (some entry.op) entry.rows,
        nothingToDo .upsert keyed present ++ nothingToDo .remove keyed absent ++
          nothingToDo .append (b.appendOnly entry) entry.rows)

end Signed

/-- The entry after a retry that did not reach every target. -/
def settle (entry : Entry R) (took : List (Purpose × String)) : Entry R :=
  let keys := (b.keyed entry).map targetKey
  let through := keys.filter fun k => took.contains (.upsert, k) && took.contains (.remove, k)
  let appended := took.filterMap fun (purpose, k) => if purpose = .append then some k else none
  { entry with
    succeeded := (entry.succeeded ++ through ++ appended).eraseDups
    needsForce := false }

end Bridge

namespace World

variable (b : Bridge R K S) (w : World R K)

/-- The source's history, as writes. -/
def history : List (Write K R) := w.log.map b.write

/-- Rows reach a target. -/
def put [DecidableEq K] (target : DatabaseTarget) (writes : List (Write K R)) : World R K :=
  { w with dest := fun t => if t = target then replay (w.dest t) writes else w.dest t }

/-- The stream's next change reaches the targets that take it. -/
def hand [DecidableEq K] (c : Change R) (takes : DatabaseTarget → Bool) : World R K :=
  { w with
    place := w.place + 1
    dest := fun t => replay (w.dest t) (b.handed c takes t).toList }

/-- The changes at the given places that an entry is made of. -/
def setAside (op : CdcOperation) (places : List ℕ) : List R :=
  places.filterMap fun i => (w.log[i]?.filter fun c => c.op = op).map (·.row)

/-- What the source holds now. -/
def source [DecidableEq K] : K → Option R := replay (fun _ => none) (w.history b)

/-- Does the answer have the rows of the table that were asked for, and no others? -/
def answers [DecidableEq K] [DecidableEq R] (asked found : List R) : Bool :=
  (found.all fun row => asked.any fun r => w.source b (b.key r) = some row) &&
    asked.all fun r => (w.source b (b.key r)).all fun row => found.contains row

def withRetry (retry : Retry R) (phase : Phase R) : World R K :=
  { w with retry := some { retry with phase := phase } }

end World

/-- One step. -/
def Bridge.step [DecidableEq R] [DecidableEq K] [DecidableEq S] (b : Bridge R K S) (w : World R K) :
    Event R → Option (World R K)
  | .commits change =>
    -- what tells of a truncate has no row in it
    if change.op = .truncate ∧ b.hasKey change.row then none
    else some { w with log := w.log ++ [change] }
  | .delivers takes => w.log[w.place]?.map fun c => w.hand b c takes
  | .resumes place => if place ≤ w.place then some { w with place := place } else none
  | .parks id op places succeeded =>
    if b.operations.contains op then
      some { w with pending := w.pending ++ [⟨id, op, w.setAside op places, succeeded, false⟩] }
    else none
  | .begins id force =>
    match w.retry, w.pending.find? fun e => e.id = id with
    | none, some entry =>
      -- a row without its key is not looked up: its entry is replayed instead
      if entry.rows.all b.hasKey then
        some { w with retry := some ⟨entry, force, .reading entry.rows [] []⟩ }
      else none
    | _, _ => none
  | .reads found =>
    match w.retry with
    | some retry =>
      match retry.phase with
      | .reading (r :: left) asked before =>
        let query := (r :: left).take b.queryLength
        if w.answers b query found then
          some (w.withRetry retry
            (.reading ((r :: left).drop b.queryLength) (asked ++ query) (before ++ found)))
        else none
      | _ => none
    | none => none
  | .plans =>
    match w.retry with
    | some retry =>
      match retry.phase with
      | .reading [] asked found =>
        match b.plan retry.entry retry.force asked found with
        | some (todo, took) => some (w.withRetry retry (.writing todo took false))
        | none =>
          some { w with
            pending := w.pending.map fun e =>
              if e.id = retry.entry.id then { e with needsForce := true } else e
            retry := none }
      | _ => none
    | none => none
  | .writes fate =>
    match w.retry with
    | some retry =>
      match retry.phase with
      | .writing (task :: todo) took failed =>
        match fate with
        | .took =>
          some ((w.put task.target (b.effects task.target task.op task.rows)).withRetry retry
            (.writing todo (took ++ [(task.purpose, targetKey task.target)]) failed))
        | .failed landed =>
          some ((w.put task.target (b.effects task.target task.op (task.rows.filter landed))).withRetry
            retry (.writing todo took true))
      | _ => none
    | none => none
  | .ends =>
    match w.retry with
    | some retry =>
      match retry.phase with
      | .writing [] took failed =>
        some { w with
          pending := if failed then
              w.pending.map fun e => if e.id = retry.entry.id then b.settle e took else e
            else w.pending.filter fun e => e.id ≠ retry.entry.id
          retry := none }
      | _ => none
    | none => none
  | .breaks => w.retry.map fun _ => { w with retry := none }

end Syncle.DeadLetters
