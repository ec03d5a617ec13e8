import Mathlib.Data.List.Sort
import Syncle.Drift.Columns

/-!
# Where a change of the table is noticed

A bridge that is to stop on a change looks at its table when it starts, and again when a row has
other columns than the row before it: a live bridge in `accept` (`bridge-cdc.service.ts`), a replay
between two rows it has read (`bridge-job.processor.ts`), a polling bridge before each row it
delivers (`bridge-watch.service.ts`). The table is looked at as it is then, and not when the row was
captured. A replay asks first whether its table has columns to compare at all (`drift.watches`), and
takes no answer for a no: it then compares no row of that run.
-/

namespace Syncle.Drift

inductive Mode where
  | live | replay | poll
  deriving DecidableEq

inductive RowOp where
  | upsert | delete
  deriving DecidableEq

/-- A captured row has the columns the table had then. `late`, which no code reads: a column the
bridge uses had been dropped by then. -/
structure Row where
  op : RowOp
  columns : List String
  late : Bool
  deriving DecidableEq

structure Reading where
  source : Option (List SchemaColumn) := none
  baseline : Option (List SchemaColumn) := none
  running : Bool := false
  /-- `watchesColumns` of a replay; the other two compare every row -/
  watches : Bool := true
  /-- the columns of the last row that was compared -/
  columnSignature : Option (List String) := none
  /-- captured, and not looked at yet -/
  read : List Row := []
  buffer : List Row := []
  /-- history, which no code reads: what the targets were given, and whether a column the bridge
  uses was ever dropped -/
  delivered : List Row := []
  dropped : Bool := false
  deriving DecidableEq

inductive ReadingEvent where
  | alter (columns : Option (List SchemaColumn))
  | capture (op : RowOp)
  /-- can the table be looked at, and does a replay learn that it has columns to compare? -/
  | start (look : Bool) (watches : Bool := true)
  /-- the process is another one; a replay starts anew -/
  | resume
  /-- the next row is looked at: whether the table can be looked at, and whether the row passes the
  filters and is nobody's echo -/
  | take (look passes : Bool)
  | flush
  | stop

/-- `Object.keys(row).sort()` -/
def signatureOf (columns : List String) : List String := columns.insertionSort (· ≤ ·)

variable {T : Type*} (b : Bridge T) (mode : Mode) (batchSize : Nat)

namespace Reading

variable (s : Reading)

/-- `check`, of a bridge that does not evolve: the baseline after it, and whether it says stop. -/
def check (look : Bool) : Option (List SchemaColumn) × Bool :=
  match if look then s.source else none with
  | none => (s.baseline, false)
  | some now =>
    match s.baseline with
    | none => (some now, false)
    | some old => (s.baseline, (diffColumns old now).any fun drift => (b.stop drift).isSome)

/-- The row has other columns than the one before, and somebody compares them. -/
def otherColumns (row : Row) : Bool :=
  s.watches && s.columnSignature.any fun before => before ≠ signatureOf row.columns

/-- What is left when the row has been looked at, and `row` goes on if it passes. -/
def seen (row : Row) (rest : List Row) : Reading :=
  { s with read := rest, columnSignature := some (signatureOf row.columns) }

/-- A live bridge. What was read before the change is fine, and goes out first. -/
def accept (look passes : Bool) : Option Reading :=
  match s.read with
  | [] => none
  | row :: rest =>
    let keep (s : Reading) : Reading := if passes then { s with buffer := s.buffer ++ [row] } else s
    if row.op = .delete then some (keep { s with read := rest })
    else if s.otherColumns row then
      let verdict := s.check b look
      if verdict.2 then
        some { s with
          baseline := verdict.1
          running := false
          delivered := s.delivered ++ s.buffer
          buffer := [] }
      else some (keep ({ s with baseline := verdict.1 }.seen row rest))
    else some (keep (s.seen row rest))

/-- A replay. What was read before the change is not delivered: a resume reads it again. -/
def execute (look : Bool) : Option Reading :=
  match s.read with
  | [] => none
  | row :: rest =>
    let keep (s : Reading) : Reading :=
      if s.buffer.length + 1 = batchSize then
        { s with delivered := s.delivered ++ (s.buffer ++ [row]), buffer := [] }
      else { s with buffer := s.buffer ++ [row] }
    if s.otherColumns row then
      let verdict := s.check b look
      if verdict.2 then some { s with baseline := verdict.1, running := false, buffer := [], read := [] }
      else some (keep ({ s with baseline := verdict.1 }.seen row rest))
    else some (keep (s.seen row rest))

/-- A poll: each row is delivered by itself. A row that is left out is not compared. -/
def poll (look passes : Bool) : Option Reading :=
  match s.read with
  | [] => none
  | row :: rest =>
    if !passes then some { s with read := rest }
    else
      let deliver (s : Reading) : Reading := { s with delivered := s.delivered ++ [row] }
      if s.otherColumns row then
        let verdict := s.check b look
        if verdict.2 then
          some { s with
            baseline := verdict.1
            running := false
            columnSignature := none
            read := [] }
        else some (deliver ({ s with baseline := verdict.1 }.seen row rest))
      else some (deliver (s.seen row rest))

def start (look watches : Bool) : Reading :=
  let verdict := s.check b look
  if verdict.2 then { s with baseline := verdict.1 }
  else
    { s with
      baseline := verdict.1
      running := true
      watches := decide (mode ≠ .replay) || watches
      columnSignature := none
      read := if mode = .live then s.read else []
      buffer := [] }

/-- A used column goes. -/
def drops (columns : Option (List SchemaColumn)) : Bool :=
  b.used.any fun c => decide (c ∈ names (s.source.getD [])) && decide (c ∉ names (columns.getD []))

def step : ReadingEvent → Option Reading
  | .alter columns => some { s with source := columns, dropped := s.dropped || s.drops b columns }
  | .capture op =>
    if op = .delete ∧ mode ≠ .live then none
    else s.source.map fun columns =>
      { s with read := s.read ++ [⟨op, names columns, s.dropped⟩] }
  | .start look watches => if s.running then none else some (s.start b mode look watches)
  | .resume =>
    match mode with
    | .live => if s.running then none else some { s with running := true, columnSignature := none }
    | .replay => none
    | .poll => some { s with columnSignature := none }
  | .take look passes =>
    if s.running then
      match mode with
      | .live => s.accept b look passes
      | .replay => s.execute b batchSize look
      | .poll => s.poll b look passes
    else none
  | .flush =>
    if s.running ∧ (mode = .live ∨ mode = .replay ∧ s.read = []) then
      some { s with delivered := s.delivered ++ s.buffer, buffer := [] }
    else none
  | .stop => some
      { s with
        running := false
        read := if mode = .live then s.buffer ++ s.read else []
        buffer := [] }

end Reading

end Syncle.Drift
