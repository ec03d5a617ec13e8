import Syncle.Postgres.OwnCursors

/-!
# The stream of a slot that bridges share (`postgres-shared-slot.ts`)

One reader decodes the log for all members. A row message comes to calls of `each`, and each call
takes a position, whoever is handed something at it. `txn` is the reader's own: what is still at
work when the generation ends goes on with it, and the next reader begins when it is done.

Positions confirmed to the server and kept in the store are left out. A call of `each` is one step:
what happens while one of its deliveries is awaited only changes who is a member afterwards.
-/

namespace Syncle.Postgres.SharedSlot

open Lib Cdc OwnSlot

variable {V : Type*}

structure Member where
  /-- which of the streams that were opened this is -/
  stream : ℕ
  bridgeId : String
  /-- `schema`, `table`, `ops`, `identifying` -/
  bridge : Bridge
  highest : Option PgCursor
  /-- the first reader that may hand it anything -/
  since : ℕ

/-- What `each` is called with for a message: whom it concerns, and what they are handed. -/
structure Call (V : Type*) where
  pick : Bridge → Bool
  deliver : Bridge → PgCursor → StreamItem PgCursor (Row V)
  /-- the old row of an update -/
  old : Bool

/-- An update's row, as the members of its table are handed it. -/
def updateCall [DecidableEq V] (r : Relation) (key old : Option (Tuple V)) (new : Tuple V) :
    Call V where
  pick m := m.ours r
  deliver m cursor :=
    let moved := rowMoved key old new r.keyColumns m.identifying
    if .update ∈ m.operations then
      .change { op := .update, row := withUnchanged new, cursor := cursor, keyChanged := moved }
    else .skip cursor
  old := false

def calls [DecidableEq V] : RowMessage V → List (Call V)
  | .truncate relations =>
    [{ pick := fun m => relations.any m.ours
       deliver := fun m cursor =>
         if .truncate ∈ m.operations then
           .change { op := .truncate, row := fun _ => none, cursor := cursor }
         else .notice cursor
       old := false }]
  | .insert r new =>
    [{ pick := fun m => m.ours r
       deliver := fun m cursor =>
         if .insert ∈ m.operations then
           .change { op := .insert, row := withUnchanged new, cursor := cursor }
         else .skip cursor
       old := false }]
  | .delete r key old =>
    [{ pick := fun m => m.ours r
       deliver := fun m cursor =>
         if .delete ∈ m.operations then
           .change
             { op := .delete, row := present ((old <|> key).getD fun _ => none), cursor := cursor }
         else .skip cursor
       old := false }]
  | .update r key old new =>
    match key <|> old with
    | some before =>
      if reservesOldRow key old new r.keyColumns then
        [{ pick := fun m =>
             m.ours r && decide (.update ∈ m.operations) &&
               rowMoved key old new r.keyColumns m.identifying
           deliver := fun _ cursor =>
             .change { op := .delete, row := present before, cursor := cursor }
           old := true },
          updateCall r key old new]
      else [updateCall r key old new]
    | none => [updateCall r key old new]
  | .other => []

/-- A message that is worked on: the calls that are still to come. -/
structure Work (V : Type*) where
  txn : Txn V
  index : ℕ
  row : ℕ
  lsn : ℕ
  calls : List (Call V)

/-- `makeService` -/
structure Reader where
  generation : ℕ
  handled : OwnSlot.Place
  /-- `txn` -/
  decoding : Option Decoding

structure Stream (V : Type*) where
  wal : List (Txn V)
  generation : ℕ
  members : List Member
  /-- how many streams have been opened -/
  opened : ℕ
  reader : Option Reader
  work : Option (Work V)
  /-- the changes that members were handed -/
  emitted : List (Emission V)

inductive Event (V : Type*) where
  | commits (t : Txn V)
  | add (bridgeId : String) (bridge : Bridge) (highest : Option PgCursor)
  | remove (bridgeId : String)
  | restart
  /-- a new reader; the server sends from this transaction on -/
  | read (first : ℕ)
  /-- a message; the deliveries to these members fail -/
  | data (fails : List ℕ)
  /-- the next call -/
  | serve (fails : List ℕ)

def Member.takes (generation : ℕ) (cursor : PgCursor) (pick : Bridge → Bool) (m : Member) : Bool :=
  decide (m.since ≤ generation) && pick m.bridge && lsnAfter cursor m.highest

/-- A member after a call: one whose delivery fails is a member no more. -/
def Member.after (generation : ℕ) (cursor : PgCursor) (pick : Bridge → Bool) (fails : List ℕ)
    (m : Member) : Option Member :=
  if m.takes generation cursor pick then
    if m.stream ∈ fails then none else some { m with highest := some cursor }
  else some m

/-- `members.set` -/
def setMember (members : List Member) (m : Member) : List Member :=
  if members.any fun other => other.bridgeId == m.bridgeId then
    members.map fun other => if other.bridgeId = m.bridgeId then m else other
  else members ++ [m]

namespace Stream

/-- Nothing is read and nobody is a member. -/
def start (wal : List (Txn V)) : Stream V :=
  { wal := wal, generation := 0, members := [], opened := 0, reader := none, work := none
    emitted := [] }

/-- One call of `each`. -/
def each (s : Stream V) (generation : ℕ) (cursor : PgCursor) (pick : Bridge → Bool)
    (fails : List ℕ) : Stream V :=
  { s with members := s.members.filterMap (Member.after generation cursor pick fails) }

/-- Who is handed something by a call. -/
def served (s : Stream V) (generation : ℕ) (cursor : PgCursor) (pick : Bridge → Bool)
    (fails : List ℕ) : List Member :=
  s.members.filter fun m => m.takes generation cursor pick && decide (m.stream ∉ fails)

/-- The next message of the reader's place. -/
def next (s : Stream V) (p : OwnSlot.Place) : OwnSlot.Place :=
  match (s.wal[p.txn]?).bind (·.message (p.messages + 1)) with
  | some _ => { p with messages := p.messages + 1 }
  | none => { txn := p.txn + 1, messages := 0 }

/-- A call takes its position and is made. -/
def serve (s : Stream V) (reader : Reader) (work : Work V) (call : Call V) (rest : List (Call V))
    (fails : List ℕ) : Stream V :=
  let (cursor, decoding) := positionOf reader.decoding work.lsn
  let handed := (s.served reader.generation cursor call.pick fails).filterMap fun m =>
    (call.deliver m.bridge cursor).change?.map fun change =>
      { stream := m.stream, txn := work.txn, index := work.index
        id := { row := work.row, old := call.old }, cursor := change.cursor : Emission V }
  { s.each reader.generation cursor call.pick fails with
    reader := some { reader with decoding := decoding }
    work := if rest.isEmpty then none else some { work with calls := rest }
    emitted := s.emitted ++ handed }

/-- A message of a reader whose generation it still is. -/
def handle [DecidableEq V] (s : Stream V) (reader : Reader) (t : Txn V) (fails : List ℕ) :
    Message V → Stream V
  | .begin commitLsn =>
    let decoding : Decoding := { commit := commitLsn, lsn := none, shared := 0 }
    { s with reader := some { reader with handled := s.next reader.handled, decoding := decoding } }
  | .row lsn msg =>
    let work : Work V :=
      { txn := t, index := reader.handled.txn, row := reader.handled.messages - 1, lsn := lsn
        calls := calls msg }
    { s with
      reader := some { reader with handled := s.next reader.handled }
      work := if (calls msg).isEmpty then none else some work }
  | .commit commitLsn commitEndLsn =>
    { s.each reader.generation (.txnEnd commitLsn commitEndLsn) (fun _ => true) fails with
      reader := some { reader with handled := s.next reader.handled, decoding := none } }

def step [DecidableEq V] (s : Stream V) : Event V → Option (Stream V)
  | .commits t => some { s with wal := s.wal ++ [t] }
  | .add bridgeId bridge highest =>
    let member : Member :=
      { stream := s.opened, bridgeId := bridgeId, bridge := bridge, highest := highest
        since := s.generation + 1 }
    some { s with members := setMember s.members member, opened := s.opened + 1 }
  | .remove bridgeId =>
    some { s with members := s.members.filter fun m => m.bridgeId ≠ bridgeId }
  | .restart => some { s with generation := s.generation + 1 }
  | .read first =>
    if s.work.isSome then none
    else
      let reader : Reader :=
        { generation := s.generation, handled := { txn := first, messages := 0 }, decoding := none }
      some { s with reader := some reader }
  | .data fails =>
    if s.work.isSome then none
    else
      s.reader.bind fun reader =>
        (s.wal[reader.handled.txn]?).bind fun t =>
          (t.message reader.handled.messages).map fun message =>
            if reader.generation ≠ s.generation then
              { s with reader := some { reader with handled := s.next reader.handled } }
            else s.handle reader t fails message
  | .serve fails =>
    s.reader.bind fun reader =>
      s.work.bind fun work =>
        match work.calls with
        | [] => none
        | call :: rest => some (s.serve reader work call rest fails)

end Stream

end Syncle.Postgres.SharedSlot
