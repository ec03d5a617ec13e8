import Mathlib.Logic.Function.Basic
import Syncle.Drift.Columns

/-!
# Looking at a table, and following it

`check`, `evolve` and `accept` of `schema-drift.service.ts`. A check waits for the source, for
Syncle's own database and for each target it reaches, and while it waits anything may happen: the
source changes, a table is made, another check (a start of the bridge is one) gets ahead of it.
-/

namespace Syncle.Drift

/-- Where a check is. `handled` are the columns its `evolve` brought to every target. -/
inductive Pc (T : Type*) where
  /-- waits for the source's columns -/
  | looking
  /-- waits for the baseline -/
  | comparing (now : List SchemaColumn)
  /-- waits for the source's connection -/
  | connecting (drift : SchemaDrift)
  /-- waits for the first of the targets that are left, and the columns of its table -/
  | reaching (drift : SchemaDrift) (left : List (Target T)) (done : List String)
  /-- waits for an `ALTER TABLE … ADD COLUMN` -/
  | adding (drift : SchemaDrift) (target : Target T) (missing : List String)
      (left : List (Target T)) (done : List String)
  /-- `accept`: waits for the source's columns -/
  | accepting (handled : List String)
  /-- `accept`: waits for the baseline -/
  | weighing (now : List SchemaColumn) (handled : List String)
  /-- waits for the new baseline to be written -/
  | recording (now : List SchemaColumn) (handled : List String)

structure World (T K : Type*) where
  /-- the source table, if there is one with columns to speak of -/
  source : Option (List SchemaColumn) := none
  baseline : Option (List SchemaColumn) := none
  /-- the columns of each target's table, if it is there -/
  tables : T → Option (List String) := fun _ => none
  checks : K → Option (Pc T) := fun _ => none
  /-- history, which no code reads: the columns of the first baseline -/
  first : List String := []

inductive Event (T K : Type*) where
  | alter (columns : Option (List SchemaColumn))
  /-- a table is made for a target, by a write or by anybody -/
  | create (location : T) (columns : List String)
  | check (k : K)
  /-- the source answers with its columns, or does not -/
  | look (k : K) (ok : Bool)
  | compare (k : K)
  | reach (k : K) (ok : Bool)
  | add (k : K) (ok : Bool)
  | record (k : K)
  /-- Syncle's own database fails, and the check with it -/
  | abort (k : K)

variable {T K : Type*}

namespace Bridge

variable (b : Bridge T)

/-- A column that was added and is now part of the destination is no longer drift. What has
become of it is read off the message. -/
def afterEvolve (drift : SchemaDrift) (evolved : String) (handled : List String) : Option (Pc T) :=
  if evolved ≠ "" ∧ b.missingUsed drift = [] ∧ drift.removed = [] ∧ drift.retyped = [] then
    some (.accepting handled)
  else none

/-- `evolve` ends: which tables got the columns. -/
def evolved (drift : SchemaDrift) (done : List String) : Option (Pc T) :=
  b.afterEvolve drift
    (if done = [] then ""
      else " Added " ++ ", ".intercalate (names drift.added) ++ " to " ++ ", ".intercalate done ++ ".")
    (names drift.added)

/-- Something in `evolve` failed. -/
def failed (drift : SchemaDrift) : Option (Pc T) :=
  b.afterEvolve drift " Adding the new columns to the destination failed: the target did not answer" []

/-- The next target whose columns were not chosen and that Syncle may create tables on. -/
def next (drift : SchemaDrift) : List (Target T) → List String → Option (Pc T)
  | [], done => b.evolved drift done
  | t :: left, done =>
    if t.chosen || !t.createMissingTable then next drift left done
    else some (.reaching drift (t :: left) done)

/-- What `check` makes of the baseline it read. -/
def compare (baseline : Option (List SchemaColumn)) (now : List SchemaColumn) : Option (Pc T) :=
  match baseline with
  | none => some (.recording now [])
  | some old =>
    match diffColumns old now with
    | none => none
    | some drift =>
      if (b.stop drift).isSome then none
      else if b.onSchemaChange = .evolve ∧ drift.added ≠ [] then some (.connecting drift)
      else none

/-- What `accept` makes of the baseline it read. -/
def weigh (baseline : Option (List SchemaColumn)) (now : List SchemaColumn)
    (handled : List String) : Option (Pc T) :=
  match baseline.bind fun old => diffColumns old now with
  | none => some (.recording now handled)
  | some drift => if b.missingUsed drift = [] then some (.recording now handled) else none

end Bridge

namespace World

variable [DecidableEq T] [DecidableEq K] (b : Bridge T) (w : World T K)

def put (k : K) (pc : Option (Pc T)) : World T K :=
  { w with checks := Function.update w.checks k pc }

def compare (k : K) : Option (World T K) :=
  match w.checks k with
  | some (.comparing now) => some (w.put k (b.compare w.baseline now))
  | some (.weighing now handled) => some (w.put k (b.weigh w.baseline now handled))
  | _ => none

def look (k : K) (ok : Bool) : Option (World T K) :=
  match w.checks k with
  | some .looking => some (w.put k (if ok then w.source.map .comparing else none))
  | some (.accepting handled) =>
    some (w.put k (if ok then w.source.map fun now => .weighing now handled else none))
  | _ => none

def reach (k : K) (ok : Bool) : Option (World T K) :=
  match w.checks k with
  | some (.connecting drift) =>
    some (w.put k (if ok then b.next drift b.targets [] else b.failed drift))
  | some (.reaching drift (t :: left) done) =>
    if !ok then some (w.put k (b.failed drift))
    else if !t.addsColumns then some (w.put k (b.next drift left done))
    else
      match w.tables t.location with
      -- no table yet: the next write creates it, with the new columns in it
      | none => some (w.put k (b.next drift left done))
      | some have_ =>
        let missing := (names drift.added).filter fun name => name ∉ have_
        if missing = [] then some (w.put k (b.next drift left done))
        else some (w.put k (some (.adding drift t missing left done)))
  | _ => none

/-- A column that is there already cannot be added again. -/
def add (k : K) (ok : Bool) : Option (World T K) :=
  match w.checks k with
  | some (.adding drift t (name :: missing) left done) =>
    if !ok then some (w.put k (b.failed drift))
    else
      match w.tables t.location with
      | none => none
      | some have_ =>
        if name ∈ have_ then none
        else
          let w := { w with tables := Function.update w.tables t.location (some (have_ ++ [name])) }
          some (w.put k (if missing = [] then b.next drift left (done ++ [t.table])
            else some (.adding drift t missing left done)))
  | _ => none

def record (k : K) : Option (World T K) :=
  match w.checks k with
  | some (.recording now _) =>
    some
      { w.put k none with
        baseline := some now
        first := w.baseline.elim (names now) fun _ => w.first }
  | _ => none

def step : Event T K → Option (World T K)
  | .alter columns => some { w with source := columns }
  | .create location columns =>
    if w.tables location = none then
      some { w with tables := Function.update w.tables location (some columns) }
    else none
  | .check k => if (w.checks k).isSome then none else some (w.put k (some .looking))
  | .look k ok => w.look k ok
  | .compare k => w.compare b k
  | .reach k ok => w.reach b k ok
  | .add k ok => w.add b k ok
  | .record k => w.record k
  | .abort k => if (w.checks k).isSome then some (w.put k none) else none

end World

end Syncle.Drift
