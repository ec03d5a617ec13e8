import Syncle.Lib.Run
import Syncle.Postgres.Decode
import Syncle.Postgres.Position

/-!
# The stream of a bridge with a slot of its own

`startStream` (`postgres-cdc.provider.ts`), with the server on one side of it and the pipeline on
the other. The server streams whole transactions in commit order, from the first that commits at or
after the position confirmed to it. The client queues what it receives, hands one message at a time
to the `data` handler and waits for it, and reports a keepalive the moment it arrives; once stopped
it reports nothing more. A position told to the server arrives at any later time, or never.

The pipeline's handlers answer in the order they were called. Its `ack` of a cursor says that
everything handed over up to there is durable.

A handler that waits for the pipeline when the stream reconnects goes on later, and reads the `txn`
of the new connection.
-/

namespace Syncle.Postgres.OwnSlot

open Lib Cdc

variable {V : Type*}

/-! ## The server's log -/

structure Txn (V : Type*) where
  commit : ℕ
  end_ : ℕ
  /-- each message with the position it was written at -/
  rows : List (ℕ × RowMessage V)

inductive Message (V : Type*) where
  | begin (commitLsn : ℕ)
  | row (lsn : ℕ) (msg : RowMessage V)
  | commit (commitLsn commitEndLsn : ℕ)

/-- What is sent of a transaction. -/
def Txn.message (t : Txn V) : ℕ → Option (Message V)
  | 0 => some (.begin t.commit)
  | k + 1 =>
    match t.rows[k]? with
    | some (lsn, msg) => some (.row lsn msg)
    | none => if k = t.rows.length then some (.commit t.commit t.end_) else none

theorem Txn.message_begin (t : Txn V) : t.message 0 = some (.begin t.commit) := rfl

theorem Txn.message_row {t : Txn V} {k lsn : ℕ} {msg : RowMessage V}
    (h : t.rows[k]? = some (lsn, msg)) : t.message (k + 1) = some (.row lsn msg) := by
  simp [Txn.message, h]

theorem Txn.message_commit (t : Txn V) :
    t.message (t.rows.length + 1) = some (.commit t.commit t.end_) := by
  simp [Txn.message]

/-- After BEGIN and after a row message there is another. -/
theorem Txn.message_of_le (t : Txn V) {k : ℕ} (h : k ≤ t.rows.length) :
    (t.message (k + 1)).isSome = true := by
  rcases Nat.lt_or_eq_of_le h with hlt | rfl
  · have hrow : t.rows[k]? = some (t.rows[k].1, t.rows[k].2) := by simp [hlt]
    rw [Txn.message_row hrow]
    rfl
  · rw [Txn.message_commit]
    rfl

theorem Txn.message_of_lt (t : Txn V) {k : ℕ} (h : t.rows.length < k) :
    t.message (k + 1) = none := by
  have hrow : t.rows[k]? = none := List.getElem?_eq_none h.le
  simp [Txn.message, hrow, h.ne']

/-- Transactions lie in the log by their commit records, and what they wrote lies before. -/
def Ordered (wal : List (Txn V)) (walEnd : ℕ) : Prop :=
  wal.Pairwise (fun t u => t.end_ ≤ u.commit) ∧
    ∀ t ∈ wal, t.commit < t.end_ ∧ t.end_ ≤ walEnd ∧ ∀ row ∈ t.rows, row.1 < t.commit

/-! ## The stream's state -/

/-- `txn`: the transaction being decoded. -/
structure Decoding where
  commit : ℕ
  /-- the last change position handed out; none for the empty text -/
  lsn : Option ℕ
  shared : ℕ
  deriving DecidableEq

/-- `at()`: the position of the change being handled; each call is a new one. -/
def positionOf (txn : Option Decoding) (lsn : ℕ) : PgCursor × Option Decoding :=
  match txn with
  | none => (.bare lsn, none)
  | some d =>
    let shared := if d.lsn = some lsn then d.shared + 1 else 0
    (.change d.commit lsn shared, some { d with lsn := some lsn, shared := shared })

/-- A message of the connection: the transaction, and how many of its messages come before. -/
structure Place where
  txn : ℕ
  messages : ℕ
  deriving DecidableEq

/-- Row message `row` of transaction `txn`. -/
structure RowId where
  txn : ℕ
  row : ℕ
  deriving DecidableEq

/-- What the handler of an update goes on with, after the delete it handed over. -/
structure Rest (V : Type*) where
  lsn : ℕ
  after : Row V
  id : RowId

/-- A `data` handler that waits for the pipeline. -/
structure Waiter (V : Type*) where
  /-- the connection its message came over -/
  generation : ℕ
  rest : Option (Rest V)

/-- Something handed to the pipeline. -/
structure Handed (V : Type*) where
  generation : ℕ
  item : StreamItem PgCursor (Row V)
  /-- the change it is the last thing handed over for -/
  done : Option RowId

structure World (V : Type*) where
  wal : List (Txn V)
  walEnd : ℕ
  /-- the slot's `confirmed_flush_lsn` -/
  confirmed : ℕ
  /-- the positions the server was told -/
  told : List ℕ
  /-- the connection -/
  generation : ℕ
  /-- the first transaction sent over it -/
  first : ℕ
  sent : Place
  handled : Place
  txn : Option Decoding
  handed : Option PgCursor
  confirmedCursor : Option PgCursor
  ackedLsn : Option ℕ
  /-- the handlers in `handling`, in the order they called the pipeline -/
  waiters : List (Waiter V)
  items : List (Handed V)
  /-- how many of them the pipeline has acknowledged -/
  acked : ℕ

inductive Event (V : Type*) where
  | commits (t : Txn V)
  /-- the log grows by something that is not sent -/
  | walGrows (walEnd : ℕ)
  | send
  | data
  | resolve
  | heartbeat (lsn : ℕ) (shouldRespond : Bool)
  | ack (n : ℕ)
  | hears (position : ℕ)
  | reconnect

/-- What `startStream` finds. -/
structure Start (V : Type*) where
  wal : List (Txn V)
  walEnd : ℕ
  ordered : Ordered wal walEnd
  /-- the slot's `confirmed_flush_lsn` -/
  slot : ℕ
  /-- did the query for it succeed? -/
  slotRead : Bool
  fromCursor : Option PgCursor

/-- The first transaction of the log that a connection is sent. -/
def firstSent (wal : List (Txn V)) (confirmed : ℕ) : ℕ :=
  wal.findIdx fun t => decide (confirmed ≤ t.commit)

/-- `confirmedPosition`: the further of the saved cursor and what the slot already holds. -/
def confirmedPosition (slot fromCursor : Option ℕ) : Option ℕ :=
  match slot, fromCursor with
  | some slot, some saved => if lsnAfter (.bare slot) (some (.bare saved)) then slot else saved
  | some slot, none => some slot
  | none, saved => saved

def Start.world (start : Start V) : World V :=
  let first := firstSent start.wal start.slot
  { wal := start.wal
    walEnd := start.walEnd
    confirmed := start.slot
    told := []
    generation := 0
    first := first
    sent := { txn := first, messages := 0 }
    handled := { txn := first, messages := 0 }
    txn := none
    handed := none
    confirmedCursor := start.fromCursor
    ackedLsn := confirmedPosition (if start.slotRead then some start.slot else none)
      (start.fromCursor.bind fun c => (parsePgCursor c).ack)
    waiters := []
    items := []
    acked := 0 }

namespace World

/-! ## Handing over -/

/-- A handler calls the pipeline and waits for it. -/
def hand (w : World V) (generation : ℕ) (item : StreamItem PgCursor (Row V)) (done : Option RowId)
    (rest : Option (Rest V)) : World V :=
  { w with
    handed := some item.cursor
    items := w.items ++ [{ generation, item, done }]
    waiters := w.waiters ++ [{ generation, rest }] }

/-- The update of an UPDATE, at a position of its own. -/
def handUpdate (w : World V) (generation : ℕ) (lsn : ℕ) (row : Row V) (keyChanged : Bool)
    (id : RowId) : World V :=
  let (cursor, txn) := positionOf w.txn lsn
  { w with txn }.hand generation (.change { op := .update, row, cursor, keyChanged }) (some id) none

/-- One row message, decoded. -/
def handleRow (w : World V) (lsn : ℕ) (id : RowId) (decoded : Decoded (Row V)) : World V :=
  let (cursor, txn) := positionOf w.txn lsn
  match decoded with
  | .nothing => w
  | .skip => { w with txn }.hand w.generation (.skip cursor) none none
  | .notice => { w with txn }.hand w.generation (.notice cursor) none none
  | .hand op row =>
    { w with txn }.hand w.generation (.change { op, row, cursor }) (some id) none
  | .reserve row => { w with txn }.handUpdate w.generation lsn row false id
  | .move before after =>
    { w with txn }.hand w.generation (.change { op := .delete, row := before, cursor }) none
      (some { lsn, after, id })

def Place.next (p : Place) : Place := { p with messages := p.messages + 1 }

def Place.nextTxn (p : Place) : Place := { txn := p.txn + 1, messages := 0 }

/-- Where the message after the one at `p` is. -/
def after (w : World V) (p : Place) : Place :=
  match (w.wal[p.txn]?).bind (·.message (p.messages + 1)) with
  | some _ => Place.next p
  | none => Place.nextTxn p

theorem after_of_le {w : World V} {t : Txn V} {p : Place} (ht : w.wal[p.txn]? = some t)
    (h : p.messages ≤ t.rows.length) : w.after p = { p with messages := p.messages + 1 } := by
  obtain ⟨m, hm⟩ := Option.isSome_iff_exists.mp (t.message_of_le h)
  simp [after, ht, hm, Place.next]

theorem after_of_lt {w : World V} {t : Txn V} {p : Place} (ht : w.wal[p.txn]? = some t)
    (h : t.rows.length < p.messages) : w.after p = { txn := p.txn + 1, messages := 0 } := by
  simp [after, ht, t.message_of_lt h, Place.nextTxn]

/-- One message of the client's queue. -/
def handle [DecidableEq V] (w : World V) (bridge : Bridge) : Message V → World V
  | .begin commitLsn =>
    { w with txn := some { commit := commitLsn, lsn := none, shared := 0 } }
  | .row lsn msg =>
    w.handleRow lsn { txn := w.handled.txn, row := w.handled.messages - 1 } (bridge.decode msg)
  | .commit commitLsn commitEndLsn =>
    { w with txn := none }.hand w.generation (.skip (.txnEnd commitLsn commitEndLsn)) none none

/-- The pipeline answers the handler that has waited longest. -/
def resolve (w : World V) (waiter : Waiter V) (waiters : List (Waiter V)) : World V :=
  match waiter.rest with
  | none => { w with waiters }
  | some rest => { w with waiters }.handUpdate waiter.generation rest.lsn rest.after true rest.id

/-! ## Confirming -/

/-- `service.acknowledge(lsnForClient(lsn))`. -/
def tell (w : World V) (lsn : ℕ) : World V :=
  match lsnForClient lsn with
  | some v => { w with told := w.told ++ [clientTells v] }
  | none => w

/-- `clientIsDrained`, and no handler of an earlier connection left either. -/
def drained (w : World V) : Bool := w.waiters.isEmpty && decide (w.handled = w.sent)

/-- Nothing of this bridge's is in flight. -/
def idle (w : World V) : Bool :=
  w.drained && w.txn.isNone &&
    match w.handed with
    | none => true
    | some handed => w.confirmedCursor.isSome && !lsnAfter handed w.confirmedCursor

/-- The position the idle keepalive carries on to. -/
def report (w : World V) (lsn : ℕ) : World V :=
  match w.ackedLsn with
  | some acked => if lsnAfter (.bare lsn) (some (.bare acked)) then { w with ackedLsn := some lsn } else w
  | none => { w with ackedLsn := some lsn }

def heartbeat (w : World V) (lsn : ℕ) (shouldRespond : Bool) : World V :=
  let w' := if w.idle then w.report lsn else w
  match w'.ackedLsn with
  | some v => if shouldRespond || w.idle then w'.tell v else w'
  | none => w'

/-- A durable position is told to the server, where it may be: only at a transaction's end. -/
def confirm (w : World V) (cursor : PgCursor) : World V :=
  match (parsePgCursor cursor).ack with
  | none => w
  | some confirm =>
    if (lsnForClient confirm).isNone then w
    else if lsnAfter (.bare confirm) (w.ackedLsn.map .bare) then
      { w with ackedLsn := some confirm }.tell confirm
    else w

/-- `confirmedCursor`: how far the pipeline has acknowledged. -/
def settle (w : World V) (cursor : PgCursor) : World V :=
  if lsnAfter cursor w.confirmedCursor then { w with confirmedCursor := some cursor } else w

/-- `ack`, of the cursor of the item handed over as number `n`. -/
def ack (w : World V) (n : ℕ) (cursor : PgCursor) : World V :=
  ({ w with acked := max w.acked (n + 1) }.settle cursor).confirm cursor

/-! ## The step -/

/-- Has the server sent every transaction that commits before `lsn`? It has, by the time it reports
that position in a keepalive. -/
def Sent (w : World V) (lsn : ℕ) : Prop :=
  lsn ≤ w.walEnd ∧ ∀ t ∈ w.wal.drop w.sent.txn, lsn ≤ t.commit

instance (w : World V) (lsn : ℕ) : Decidable (w.Sent lsn) := instDecidableAnd

/-- Where a transaction may commit. -/
def Takes (w : World V) (t : Txn V) : Prop :=
  w.walEnd ≤ t.commit ∧ t.commit < t.end_ ∧ ∀ row ∈ t.rows, row.1 < t.commit

instance (w : World V) (t : Txn V) : Decidable (w.Takes t) := instDecidableAnd

/-- Is a message of this connection being handled? -/
def processing (w : World V) : Bool := w.waiters.any fun x => x.generation == w.generation

end World

open World in
def step [DecidableEq V] (bridge : Bridge) (w : World V) : Event V → Option (World V)
  | .commits t =>
    if w.Takes t then some { w with wal := w.wal ++ [t], walEnd := t.end_ } else none
  | .walGrows walEnd => if w.walEnd ≤ walEnd then some { w with walEnd } else none
  | .send => if w.sent.txn < w.wal.length then some { w with sent := w.after w.sent } else none
  | .data =>
    if w.processing ∨ w.handled = w.sent then none
    else do
      let t ← w.wal[w.handled.txn]?
      let message ← t.message w.handled.messages
      some { w.handle bridge message with handled := w.after w.handled }
  | .resolve =>
    match w.waiters with
    | [] => none
    | waiter :: waiters => some (w.resolve waiter waiters)
  | .heartbeat lsn shouldRespond =>
    if w.Sent lsn then some (w.heartbeat lsn shouldRespond) else none
  | .ack n => do
    let handed ← w.items[n]?
    some (w.ack n handed.item.cursor)
  | .hears position =>
    if position ∈ w.told then some { w with confirmed := max w.confirmed position } else none
  | .reconnect =>
    let first := firstSent w.wal w.confirmed
    some { w with
      generation := w.generation + 1
      first := first
      sent := { txn := first, messages := 0 }
      handled := { txn := first, messages := 0 }
      txn := none }

end Syncle.Postgres.OwnSlot
