import Syncle.Lib.Tasks
import Syncle.Secrets.Crypto

/-!
# Moving the stored secrets to the current key (`KeyRotationService`)

A pass reads a column, turns its rows one by one and writes back those that were under a previous
key, column by column, and the snapshots of the jobs last. Requests are served meanwhile: they save
secrets, under the current key, and copy ciphertexts, a bridge's into a job's snapshot or their own
back to the row. A start has the keys it is given, and ends what ran before it.

Of a row only its ciphertexts are kept, and of a job's snapshot its `authEnc`. A request that saves
several columns of a row is one save for each.
-/

namespace Syncle.Secrets

open Lib

inductive Table where
  | connection | bridge | alertChannel | bridgeJob
  deriving DecidableEq

inductive Column where
  | passwordEnc | connectionStringEnc | sshSecretsEnc | tlsSecretsEnc | authEnc | configEnc
  /-- `authEnc` inside the JSON of a job's `configSnapshotJson` -/
  | snapshotAuthEnc
  deriving DecidableEq

def Column.table : Column → Table
  | .passwordEnc | .connectionStringEnc | .sshSecretsEnc | .tlsSecretsEnc => .connection
  | .authEnc => .bridge
  | .configEnc => .alertChannel
  | .snapshotAuthEnc => .bridgeJob

def ENCRYPTED_COLUMNS : List Column :=
  [.passwordEnc, .connectionStringEnc, .sshSecretsEnc, .tlsSecretsEnc, .authEnc, .configEnc]

/-- Where a ciphertext lives. -/
structure Place where
  column : Column
  id : ℕ
  deriving DecidableEq

/-- A ciphertext that is stored. All but its value is kept for the proofs. -/
structure Stored (K : Type*) where
  value : Payload
  /-- the key it is under -/
  key : K
  plaintext : String
  /-- the value as the start found it, or as it was saved since -/
  original : Payload

/-- What was last saved at a place, and how many saves there have been. -/
structure Save where
  secret : Option String
  count : ℕ

structure KeyRotationReport where
  previousKeys : ℕ
  reencrypted : ℕ
  unreadable : ℕ
  deriving DecidableEq

/-- A report, and the places it counts as unreadable. -/
structure Pass where
  report : KeyRotationReport
  unread : List Place

structure Store (K : Type*) where
  /-- the ids of a table, in its order -/
  rows : Table → List ℕ
  stored : Place → Option (Stored K)
  keys : Keys K
  /-- `this.last` -/
  last : Option Pass
  /-- how often the service has been started -/
  starts : ℕ
  /-- for the proofs -/
  saved : Place → Save

/-- A row that `findMany` has read. -/
structure ReadRow (K : Type*) where
  id : ℕ
  stored : Stored K
  /-- the saves there had been -/
  count : ℕ

inductive Phase (K : Type*) where
  /-- `findMany` of the next column is awaited -/
  | finding (columns : List Column)
  /-- the rows of a column are turned -/
  | turning (column : Column) (rows : List (ReadRow K)) (columns : List Column)

inductive Request where
  | onApplicationBootstrap
  /-- of the settings -/
  | rotate
  /-- an update that gets the redaction sentinel for a secret keeps what is stored -/
  | keep (place : Place)
  /-- a job is made, or made again, with the bridge as it is -/
  | snapshot (bridge job : ℕ)
  deriving DecidableEq

/-- A task that has awaited anything belongs to the start it began in. -/
inductive Task (K : Type*) where
  | called (request : Request)
  | rotating (start : ℕ) (pass : Pass) (phase : Phase K)
  /-- what was read is about to be written to a place -/
  | copying (start : ℕ) (stored : Option (Stored K)) (place : Place)

/-- What a step is given: the random bytes, and whether the database refuses the update. -/
structure Answer where
  iv : Iv
  fails : Bool

inductive World (K : Type*) where
  | create (table : Table) (id : ℕ)
  | delete (table : Table) (id : ℕ)
  /-- a request that saves a secret -/
  | save (place : Place) (secret : String) (iv : Iv)
  | start (keys : Keys K)

variable {K : Type*}

/-- Nothing is stored. -/
def Store.empty (keys : Keys K) : Store K where
  rows _ := []
  stored _ := none
  keys := keys
  last := none
  starts := 0
  saved _ := { secret := none, count := 0 }

namespace Store

variable (s : Store K)

def setStored (place : Place) (stored : Option (Stored K)) (save : Save) : Store K :=
  { s with
    stored := Function.update s.stored place stored
    saved := Function.update s.saved place save }

def findMany (column : Column) : List (ReadRow K) :=
  (s.rows column.table).filterMap fun id =>
    (s.stored ⟨column, id⟩).map fun stored =>
      { id := id, stored := stored, count := (s.saved ⟨column, id⟩).count }

/-- The rotation's `update` of a row it has read. -/
def update (column : Column) (row : ReadRow K) (next : Payload) : Store K :=
  let place : Place := ⟨column, row.id⟩
  s.setStored place
    (some
      { value := next
        key := s.keys.current
        plaintext := row.stored.plaintext
        original := ((s.stored place).map Stored.original).getD next })
    (s.saved place)

/-- A request writes `stored`, which holds the secret `secret`. -/
def write (place : Place) (stored : Option (Stored K)) (secret : Option String) : Store K :=
  s.setStored place stored { secret := secret, count := (s.saved place).count + 1 }

def addRow (table : Table) (id : ℕ) : Store K :=
  { s with rows := Function.update s.rows table (s.rows table ++ [id]) }

def deleteRow (table : Table) (id : ℕ) : Store K :=
  { s with
    rows := Function.update s.rows table ((s.rows table).filter (· ≠ id))
    stored := fun place =>
      if place.column.table = table ∧ place.id = id then none else s.stored place
    saved := fun place =>
      if place.column.table = table ∧ place.id = id then
        { secret := none, count := (s.saved place).count + 1 }
      else s.saved place }

/-- The service is started with these keys. -/
def startWith (keys : Keys K) : Store K :=
  { s with
    keys := keys
    last := none
    starts := s.starts + 1
    stored := fun place => (s.stored place).map fun stored => { stored with original := stored.value } }

/-- `getRow`, for a request that is going to write what it finds; it throws where there is none. -/
def readFor (source place : Place) : Option (Task K) :=
  if source.id ∈ s.rows source.column.table then
    some (.copying s.starts (s.stored source) place)
  else none

/-- What was read is written: to its own row, if that is there, or with the job it is for. -/
def copy (stored : Option (Stored K)) (place : Place) : Store K :=
  let copied := stored.map fun stored => { stored with original := stored.value }
  let secret := stored.map Stored.plaintext
  if place.id ∈ s.rows place.column.table then s.write place copied secret
  else if place.column = .snapshotAuthEnc then
    (s.addRow .bridgeJob place.id).write place copied secret
  else s

end Store

def Pass.begin (previousKeys : ℕ) : Pass :=
  { report := { previousKeys := previousKeys, reencrypted := 0, unreadable := 0 }, unread := [] }

def Pass.countReencrypted (pass : Pass) : Pass :=
  { pass with report := { pass.report with reencrypted := pass.report.reencrypted + 1 } }

def Pass.countUnreadable (pass : Pass) (place : Place) : Pass where
  report := { pass.report with unreadable := pass.report.unreadable + 1 }
  unread := pass.unread ++ [place]

variable [DecidableEq K] (gcm : Gcm K)

/-- `rotate`, up to its first await. -/
def rotate (s : Store K) : Task K :=
  .rotating s.starts (.begin s.keys.previousKeys.length)
    (.finding (ENCRYPTED_COLUMNS ++ [.snapshotAuthEnc]))

/-- A row's turn. -/
def turnRow (s : Store K) (pass : Pass) (column : Column) (row : ReadRow K)
    (rows : List (ReadRow K)) (columns : List Column) (answer : Answer) :
    Store K × Option (Task K) :=
  let goOn (pass : Pass) : Option (Task K) :=
    some (.rotating s.starts pass (.turning column rows columns))
  match reencrypt gcm s.keys answer.iv row.stored.value with
  | none => (s, goOn (pass.countUnreadable ⟨column, row.id⟩))
  | some none => (s, goOn pass)
  | some (some next) =>
    if answer.fails = true ∨ row.id ∉ s.rows column.table then
      -- the update throws: the loop over the jobs catches it, the one over the columns does not
      (s, if column = .snapshotAuthEnc then goOn pass.countReencrypted else none)
    else (s.update column row next, goOn pass.countReencrypted)

/-- A task up to its next await; what began before the last start is gone. -/
def resume (s : Store K) (task : Task K) (answer : Answer) :
    Option (Store K × Option (Task K)) :=
  match task with
  | .called .onApplicationBootstrap =>
    some (s, if s.keys.previousKeys = [] then none else some (rotate s))
  | .called .rotate => some (s, some (rotate s))
  | .called (.keep place) => some (s, s.readFor place place)
  | .called (.snapshot bridge job) => some (s, s.readFor ⟨.authEnc, bridge⟩ ⟨.snapshotAuthEnc, job⟩)
  | .rotating start pass phase =>
    if start ≠ s.starts then none
    else
      match phase with
      | .finding [] => some ({ s with last := some pass }, none)
      | .finding (column :: columns) =>
        some (s, some (.rotating start pass (.turning column (s.findMany column) columns)))
      | .turning _ [] columns => some (s, some (.rotating start pass (.finding columns)))
      | .turning column (row :: rows) columns =>
        some (turnRow gcm s pass column row rows columns answer)
  | .copying start stored place =>
    if start ≠ s.starts then none else some (s.copy stored place, none)

/-- What `secret ? encrypt(secret) : null` stores. -/
def storedOf (s : Store K) (secret : String) (iv : Iv) : Option (Stored K) :=
  if secret = "" then none
  else
    let value := encrypt gcm s.keys.current iv secret
    some { value := value, key := s.keys.current, plaintext := secret, original := value }

def world (s : Store K) : World K → Option (Store K)
  | .create table id => if id ∈ s.rows table then none else some (s.addRow table id)
  | .delete table id => some (s.deleteRow table id)
  | .save place secret iv =>
    if place.id ∈ s.rows place.column.table ∧ place.column ≠ .snapshotAuthEnc then
      some (s.write place (storedOf gcm s secret iv) (some secret))
    else none
  | .start keys => some (s.startWith keys)

def service : TaskSystem (Store K) (Task K) Request Answer (World K) where
  init := .called
  resume := resume gcm
  world := world gcm

end Syncle.Secrets
