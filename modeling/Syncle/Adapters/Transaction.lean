import Mathlib.Data.List.Basic
import Syncle.Lib.Tasks

/-!
# Transactions on a shared adapter (`base-sql-adapter.ts`, `withTransaction`)

Bridges share an adapter, so its calls interleave: statements of their own, and callbacks that run
between a BEGIN and a COMMIT. PostgreSQL and MySQL lend a transaction a connection of its own.
SQLite lends it the one handle that there is, which everybody else's statements go to as well.

What is asked for is that nobody else's transaction is open where a call's statement, BEGIN,
COMMIT or ROLLBACK goes (`MeetsItsOwn`).
-/

namespace Syncle.Adapters

open Lib

inductive Engine where
  | postgres | mysql | sqlite | mongodb | redis
  deriving DecidableEq

namespace Engine

/-- `capabilities.transactions` -/
def transactions : Engine → Bool
  | .postgres | .mysql | .sqlite => true
  | .mongodb | .redis => false

inductive Lends where
  /-- one of the driver's pool, that nobody else uses until it is released -/
  | ownConnection
  /-- "the \"borrowed connection\" is just the same db handle" -/
  | theHandle
  deriving DecidableEq

/-- What `acquireTransactionConnection` lends. Without one, `withTransaction` is `fn()`. -/
def lends : Engine → Option Lends
  | .postgres | .mysql => some .ownConnection
  | .sqlite => some .theHandle
  | .mongodb | .redis => none

end Engine

variable {α : Type*}

/-- What a statement wrote. No database says whose it was. -/
structure Write (α : Type*) where
  call : ℕ
  statement : α
  deriving DecidableEq

/-- A transaction that is open on a connection, by the call that began it. -/
structure Open (α : Type*) where
  call : ℕ
  writes : List (Write α)
  /-- PostgreSQL: a statement has failed, and those after it fail -/
  aborted : Bool
  deriving DecidableEq

/-- A connection, and what is committed over all of them. -/
structure Conn (α : Type*) where
  committed : List (Write α)
  tx : Option (Open α)
  deriving DecidableEq

/-- How a statement ends. -/
inductive Ran where
  | ok
  /-- it fails, and what was written before it stays -/
  | failed
  /-- it fails, and the database undoes the whole transaction (a deadlock, a full disk) -/
  | undone
  deriving DecidableEq

/-- How a COMMIT ends. -/
inductive Commits where
  | ok
  | refused
  /-- it is made, and the answer does not arrive -/
  | lost
  deriving DecidableEq

namespace Conn

/-- A statement; was it answered? -/
def run (engine : Engine) (conn : Conn α) (write : Write α) (ran : Ran) : Conn α × Bool :=
  match conn.tx with
  | none =>
    match ran with
    | .ok => ({ conn with committed := conn.committed ++ [write] }, true)
    | .failed | .undone => (conn, false)
  | some tx =>
    -- "current transaction is aborted, commands ignored until end of transaction block"
    if tx.aborted then (conn, false)
    else match ran with
      | .ok => ({ conn with tx := some { tx with writes := tx.writes ++ [write] } }, true)
      | .failed =>
        if engine = .postgres then ({ conn with tx := some { tx with aborted := true } }, false)
        else (conn, false)
      | .undone => ({ conn with tx := none }, false)

/-- BEGIN. Where one is open: "cannot start a transaction within a transaction". -/
def begin_ (conn : Conn α) (call : ℕ) (ok : Bool) : Conn α × Bool :=
  if ok && conn.tx.isNone then
    ({ conn with tx := some { call := call, writes := [], aborted := false } }, true)
  else (conn, false)

def commit (engine : Engine) (conn : Conn α) (commits : Commits) : Conn α × Bool :=
  match conn.tx with
  -- "cannot commit - no transaction is active"; the others answer that there was none
  | none => (conn, engine ≠ .sqlite && commits = .ok)
  | some tx =>
    -- PostgreSQL answers ROLLBACK, and with no error
    if tx.aborted then ({ conn with tx := none }, commits = .ok)
    else match commits with
      | .ok => ({ committed := conn.committed ++ tx.writes, tx := none }, true)
      | .refused => (conn, false)
      | .lost => ({ committed := conn.committed ++ tx.writes, tx := none }, false)

/-- ROLLBACK, or the connection is lost and the server undoes what was open on it. -/
def rollback (conn : Conn α) : Conn α := { conn with tx := none }

end Conn

/-- How a call has ended. -/
structure Outcome (α : Type*) where
  call : ℕ
  succeeded : Bool
  /-- its statements that were answered -/
  writes : List α
  deriving DecidableEq

/-- What the calls share. `calls` and `outcomes` are read by no code. -/
structure Database (α : Type*) where
  committed : List (Write α)
  /-- the transaction that is open on the handle that statements go to -/
  handle : Option (Open α)
  calls : ℕ
  outcomes : List (Outcome α)
  deriving DecidableEq

def Database.start : Database α := { committed := [], handle := none, calls := 0, outcomes := [] }

/-- The statements of a call among writes. -/
def writesOf (writes : List (Write α)) (call : ℕ) : List α :=
  (writes.filter (·.call = call)).map (·.statement)

/-- What is committed of a call. -/
def Database.applied (db : Database α) (call : ℕ) : List α := writesOf db.committed call

def Database.finish (db : Database α) (outcome : Outcome α) : Database α :=
  { db with outcomes := db.outcomes ++ [outcome] }

inductive AdapterRequest (α : Type*) where
  /-- a statement outside of any transaction -/
  | statement (statement : α)
  | withTransaction
  deriving DecidableEq

inductive Stands (α : Type*) where
  | statement (statement : α)
  | acquiring | beginning | inCallback | committing | rollingBack
  deriving DecidableEq

/-- A call. A transaction's connection is `own` where it has been lent one. -/
structure AdapterTask (α : Type*) where
  at_ : Stands α
  call : ℕ
  own : Option (Open α)
  wrote : List α
  deriving DecidableEq

inductive AdapterAnswer (α : Type*) where
  /-- a statement outside of any transaction is answered -/
  | ran (ran : Ran)
  /-- a connection is lent, a transaction begun or undone -/
  | did (ok : Bool)
  /-- the callback runs a statement. A `withTransaction` inside it is its callback:
  `if (existing) return fn()` -/
  | runs (statement : α) (ran : Ran)
  | returns
  | throws
  | commits (commits : Commits)
  deriving DecidableEq

namespace AdapterTask

/-- The connection that `runSql` routes a transaction's statements to. -/
def conn (engine : Engine) (db : Database α) (task : AdapterTask α) : Conn α :=
  { committed := db.committed
    tx := if engine.lends = some .theHandle then db.handle else task.own }

/-- After something was done on it, the call stands at `at_`. -/
def moves (engine : Engine) (db : Database α) (task : AdapterTask α) (conn : Conn α)
    (at_ : Stands α) : Database α × AdapterTask α :=
  if engine.lends = some .theHandle then
    ({ db with committed := conn.committed, handle := conn.tx }, { task with at_ := at_ })
  else ({ db with committed := conn.committed }, { task with at_ := at_, own := conn.tx })

/-- The call is over. -/
def ends (engine : Engine) (db : Database α) (task : AdapterTask α) (conn : Conn α)
    (succeeded : Bool) : Database α × Option (AdapterTask α) :=
  ((task.moves engine db conn task.at_).1.finish
    { call := task.call, succeeded := succeeded, writes := task.wrote }, none)

/-- The call goes on. -/
def goesOn (engine : Engine) (db : Database α) (task : AdapterTask α) (conn : Conn α)
    (at_ : Stands α) : Database α × Option (AdapterTask α) :=
  ((task.moves engine db conn at_).1, some (task.moves engine db conn at_).2)

def resume (engine : Engine) (db : Database α) (task : AdapterTask α) (answer : AdapterAnswer α) :
    Option (Database α × Option (AdapterTask α)) :=
  let conn := task.conn engine db
  match task.at_, answer with
  | .statement statement, .ran ran =>
    -- `execPooled`
    let pooled := Conn.run engine { committed := db.committed, tx := db.handle }
      { call := db.calls, statement := statement } ran
    let after := { db with committed := pooled.1.committed, handle := pooled.1.tx,
                           calls := db.calls + 1 }
    some (after.finish { call := db.calls, succeeded := pooled.2, writes := [statement] }, none)
  | .acquiring, .did ok =>
    let after := { db with calls := db.calls + 1 }
    let named := { task with call := db.calls, own := none, wrote := [] }
    if ok then
      some (after, some { named with at_ := if engine.lends.isSome then .beginning else .inCallback })
    else some (after.finish { call := db.calls, succeeded := false, writes := [] }, none)
  | .beginning, .did ok =>
    let begun := conn.begin_ task.call ok
    some (task.goesOn engine db begun.1 (if begun.2 then .inCallback else .rollingBack))
  | .inCallback, .runs statement ran =>
    let done := conn.run engine { call := task.call, statement := statement } ran
    let wrote := if done.2 then task.wrote ++ [statement] else task.wrote
    some (AdapterTask.goesOn engine db { task with wrote := wrote } done.1 .inCallback)
  | .inCallback, .returns =>
    if engine.lends.isSome then some (task.goesOn engine db conn .committing)
    else some (task.ends engine db conn true)
  | .inCallback, .throws =>
    if engine.lends.isSome then some (task.goesOn engine db conn .rollingBack)
    else some (task.ends engine db conn false)
  | .committing, .commits commits =>
    let done := conn.commit engine commits
    if done.2 then some (task.ends engine db done.1 true)
    else some (task.goesOn engine db done.1 .rollingBack)
  | .rollingBack, .did _ => some (task.ends engine db conn.rollback false)
  | _, _ => none

end AdapterTask

/-- The calls on an adapter. -/
def adapterSystem (α : Type*) (engine : Engine) :
    TaskSystem (Database α) (AdapterTask α) (AdapterRequest α) (AdapterAnswer α) Empty where
  init
    | .statement statement =>
      { at_ := .statement statement, call := 0, own := none, wrote := [] }
    | .withTransaction => { at_ := .acquiring, call := 0, own := none, wrote := [] }
  resume := AdapterTask.resume engine
  world _ e := nomatch e

/-- A transaction is open, on the handle or on a connection that a call has. -/
def OpenIn (w : Tasks (Database α) (AdapterTask α)) (tx : Open α) : Prop :=
  w.shared.handle = some tx ∨ ∃ t task, w.running t = some task ∧ task.own = some tx

/-- **The calls are atomic, and a transaction is its call's alone.** -/
structure Atomic (w : Tasks (Database α) (AdapterTask α)) : Prop where
  /-- a call that succeeded has applied all that it wrote, one that failed nothing -/
  outcomes : ∀ o ∈ w.shared.outcomes,
    w.shared.applied o.call = if o.succeeded then o.writes else []
  /-- what a transaction holds was written by the call that began it -/
  isolated : ∀ tx, OpenIn w tx → ∀ write ∈ tx.writes, write.call = tx.call

/-- What a call does, it does where no other call's transaction is open: a statement of its own and
a BEGIN find none, and the rest find the one it began. (PostgreSQL and MySQL lend a connection, so
of these only what a callback does after its transaction is gone is asked there.) And a COMMIT
that was made is not answered as one that was not. -/
def MeetsItsOwn (engine : Engine) (db : Database α) (task : AdapterTask α) :
    AdapterAnswer α → Prop
  | .ran _ => engine.lends = some .theHandle → db.handle = none
  | .did _ =>
    match task.at_ with
    | .beginning => engine.lends = some .theHandle → db.handle = none
    | .rollingBack =>
      engine.lends = some .theHandle → ∀ tx ∈ db.handle, tx.call = task.call
    | _ => True
  | .runs _ _ => ∃ tx ∈ (task.conn engine db).tx, tx.call = task.call
  | .commits commits =>
    commits ≠ .lost ∧ match (task.conn engine db).tx with
      | some tx => tx.call = task.call ∧ tx.aborted = false
      | none => engine = .sqlite
  | .returns | .throws => True

instance (engine : Engine) (db : Database α) (task : AdapterTask α) :
    ∀ answer, Decidable (MeetsItsOwn engine db task answer)
  | .ran _ => by unfold MeetsItsOwn; infer_instance
  | .did _ => by
    unfold MeetsItsOwn
    match task.at_ with
    | .statement _ | .acquiring | .inCallback | .committing => exact .isTrue trivial
    | .beginning | .rollingBack => infer_instance
  | .runs _ _ => by unfold MeetsItsOwn; infer_instance
  | .commits _ => by
    unfold MeetsItsOwn
    match (task.conn engine db).tx with
    | some _ | none => infer_instance
  | .returns | .throws => .isTrue trivial

end Syncle.Adapters
