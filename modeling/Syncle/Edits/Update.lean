import Syncle.Cdc.Change

/-!
# What a save compares (`update` of `bridges.controller.ts`)

A live bridge that is saved is stopped, saved, and started again. What it had on its source, and what
waits of it in the spool, is given up when the save moves it: to another connection or database, off
the live trigger, or to another kind of replication slot.
-/

namespace Syncle.Edits

open Cdc (CdcOperation)

structure TableSource (C : Type*) where
  connectionId : C
  database : Option String := none
  schema : Option String := none
  table : String
  deriving DecidableEq

inductive Source (C : Type*) where
  | table (src : TableSource C)
  | query (connectionId : C) (database : Option String)
  deriving DecidableEq

/-- `slot` -/
inductive SlotKind where
  | own | shared
  deriving DecidableEq

inductive Trigger where
  | cdc (operations : List CdcOperation) (slot : SlotKind)
  /-- polled, or only replayed -/
  | other
  deriving DecidableEq

/-- A database target, by its `targetKey`. `appendOnly`: its write mode is `insert`. -/
structure Target where
  key : String
  appendOnly : Bool
  deriving DecidableEq

inductive Destination where
  | http
  | database (targets : List Target)
  deriving DecidableEq

/-- A bridge, as it is saved. `M`: its filters, its mapping and its transforms. -/
structure Bridge (C M : Type*) where
  source : Source C
  trigger : Trigger
  enabled : Bool := true
  destination : Destination
  mapping : M
  deriving DecidableEq

section Compare

variable {C M : Type*} [DecidableEq C]

namespace Bridge

variable (b : Bridge C M)

def tableSource : Option (TableSource C) :=
  match b.source with
  | .table src => some src
  | .query _ _ => none

def isCdc : Bool :=
  match b.trigger with
  | .cdc _ _ => true
  | .other => false

def slot : Option SlotKind :=
  match b.trigger with
  | .cdc _ slot => some slot
  | .other => none

/-- What a live bridge reads. -/
def live : Option (TableSource C) := if b.isCdc then b.tableSource else none

def captures (op : CdcOperation) : Bool :=
  match b.trigger with
  | .cdc operations _ => operations.contains op
  | .other => false

end Bridge

/-- The server and the database: `keyOf`, and what `moved` compares. -/
def TableSource.place (src : TableSource C) : C × String := (src.connectionId, src.database.getD "")

/-- `moved`: no longer a CDC bridge, or no longer on that server and database. -/
def moved (was : TableSource C) (bridge : Bridge C M) : Bool :=
  match bridge.live with
  | none => true
  | some now => now.place ≠ was.place

/-- `otherSlot` -/
def otherSlot (before bridge : Bridge C M) (was : TableSource C) : Bool :=
  !moved was bridge && before.slot ≠ bridge.slot

/-- Does the save `abandon` what the bridge was? -/
def abandons (before bridge : Bridge C M) : Bool :=
  match before.live with
  | none => false
  | some was => moved was bridge || otherSlot before bridge was

theorem abandons_iff {before bridge : Bridge C M} {was : TableSource C} (live : before.live = some was) :
    abandons before bridge = true ↔
      (∀ now, bridge.live = some now → now.place = was.place → before.slot ≠ bridge.slot) := by
  unfold abandons
  rw [live]
  simp only [otherSlot, moved]
  cases bridge.live with
  | none => simp
  | some now => by_cases same : now.place = was.place <;> simp [same]

/-- A save that keeps the place in the log keeps the server and the database. -/
theorem place_of_not_abandons {before bridge : Bridge C M} {was : TableSource C}
    (live : before.live = some was) (kept : abandons before bridge = false) :
    ∃ now, bridge.live = some now ∧ now.place = was.place ∧ before.slot = bridge.slot := by
  by_contra none
  have all : abandons before bridge = true := (abandons_iff live).mpr fun now is same other =>
    none ⟨now, is, same, other⟩
  rw [kept] at all
  cases all

end Compare

end Syncle.Edits
