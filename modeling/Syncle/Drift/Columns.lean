import Mathlib.Tactic.Common

/-!
# What has changed in a table

`schema-drift.ts` and the pure part of `schema-drift.service.ts`: a table's columns against the
ones a bridge was built for, and whether the bridge may go on.
-/

namespace Syncle.Drift

structure SchemaColumn where
  name : String
  /-- the engine's own spelling of the type -/
  type : String
  deriving DecidableEq

structure SchemaDrift where
  added : List SchemaColumn
  removed : List SchemaColumn
  /-- name, from, to -/
  retyped : List (String × String × String)
  deriving DecidableEq

/-- The words of a type, whatever their case and the blanks between them. -/
def norm (type : String) : List (List Char) :=
  ((type.toList.map Char.toLower).splitOnP Char.isWhitespace).filter fun word => word ≠ []

/-- `names` of a list of columns; of two of one name the last counts. -/
def names (columns : List SchemaColumn) : List String := columns.map SchemaColumn.name

def byName (columns : List SchemaColumn) (name : String) : Option SchemaColumn :=
  columns.reverse.find? fun c => c.name = name

def diffColumns (baseline now : List SchemaColumn) : Option SchemaDrift :=
  let drift : SchemaDrift :=
    { added := now.filter fun c => c.name ∉ names baseline
      removed := baseline.filter fun c => c.name ∉ names now
      retyped := now.filterMap fun c =>
        (byName baseline c.name).bind fun b =>
          if norm b.type = norm c.type then none else some (c.name, b.type, c.type) }
  if drift.added = [] ∧ drift.removed = [] ∧ drift.retyped = [] then none else some drift

/-- One line a person can act on. -/
def describeDrift (drift : SchemaDrift) : String :=
  let removed := "removed: " ++ ", ".intercalate (names drift.removed)
  let added := "added: " ++ ", ".intercalate (drift.added.map fun c => c.name ++ " (" ++ c.type ++ ")")
  let retyped := "changed type: " ++ ", ".intercalate
    (drift.retyped.map fun c => c.1 ++ " (" ++ c.2.1 ++ " → " ++ c.2.2 ++ ")")
  "; ".intercalate
    ((if drift.removed = [] then [] else [removed]) ++ (if drift.added = [] then [] else [added]) ++
      (if drift.retyped = [] then [] else [retyped]))

inductive OnSchemaChange where
  | stop | «continue» | evolve
  deriving DecidableEq

/-- A target, as far as a change of columns is concerned. -/
structure Target (T : Type*) where
  /-- where its table is -/
  location : T
  table : String
  /-- the mapping is not empty: its columns were chosen -/
  chosen : Bool
  createMissingTable : Bool
  /-- its adapter has `addColumns` -/
  addsColumns : Bool
  deriving DecidableEq

/-- Of a bridge: `used` is what `columnsUsed` answers, and a bridge that does not write to
databases has no targets. -/
structure Bridge (T : Type*) where
  sourceTable : String
  onSchemaChange : OnSchemaChange
  used : List String
  targets : List (Target T)

variable {T : Type*}

/-- The columns of an added table are added to this target. -/
def Target.evolves (t : Target T) : Bool := !t.chosen && t.createMissingTable && t.addsColumns

namespace Bridge

variable (b : Bridge T)

def missingUsed (drift : SchemaDrift) : List String :=
  b.used.filter fun name => name ∈ names drift.removed

def stopText (drift : SchemaDrift) : String :=
  "The source table \"" ++ b.sourceTable ++ "\" has changed, and this bridge uses " ++
    (if (b.missingUsed drift).length = 1 then "a column that is" else "columns that are") ++
    " gone: " ++ ", ".intercalate (b.missingUsed drift) ++ ". " ++
    "Stopped before writing NULL over what the destination holds. (" ++ describeDrift drift ++ ") " ++
    "Edit the bridge for the table as it is now — saving it accepts the new columns — and start it again."

/-- Why the bridge must not go on, if it must not. -/
def stop (drift : SchemaDrift) : Option String :=
  if b.missingUsed drift ≠ [] ∧ b.onSchemaChange ≠ .«continue» then some (b.stopText drift) else none

end Bridge

theorem mem_added {baseline now : List SchemaColumn} {name : String} (here : name ∈ names now)
    (new : name ∉ names baseline) :
    ∃ drift, diffColumns baseline now = some drift ∧ name ∈ names drift.added := by
  obtain ⟨c, hc, rfl⟩ := List.mem_map.mp here
  have added : c ∈ now.filter fun c => c.name ∉ names baseline := by
    simp [hc, new]
  unfold diffColumns
  simp only
  rw [if_neg fun none => by rw [none.1] at added; cases added]
  exact ⟨_, rfl, List.mem_map_of_mem added⟩

theorem mem_removed {baseline now : List SchemaColumn} {name : String} (gone : name ∉ names now)
    (old : name ∈ names baseline) :
    ∃ drift, diffColumns baseline now = some drift ∧ name ∈ names drift.removed := by
  obtain ⟨c, hc, rfl⟩ := List.mem_map.mp old
  have removed : c ∈ baseline.filter fun c => c.name ∉ names now := by
    simp [hc, gone]
  unfold diffColumns
  simp only
  rw [if_neg fun none => by rw [none.2.1] at removed; cases removed]
  exact ⟨_, rfl, List.mem_map_of_mem removed⟩

end Syncle.Drift
