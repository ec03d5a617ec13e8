import Syncle.Builder.Mapping

/-!
# The columns a target table is created with (`column-transforms.ts`, `database-sink.service.ts`)

The steps are walked once without a row: what a column's type becomes, or whose copy it is (`plan`),
and whether a step can empty it (`canBecomeNull`). A table that is missing is created from that and
from the source's own columns (`targetColumns`).
-/

namespace Syncle.Shape

open Lib Js
open Builder (columnsAdded)

/-! ## What the steps make of a column -/

/-- A type of its own, or a copy of another column. -/
inductive Planned where
  | type (type : String)
  | copyOf (column : String)
  deriving DecidableEq

/-- `CAST_TYPES` -/
def castType : CastTo → String
  | .string => "text"
  | .number => "double precision"
  | .integer => "bigint"
  | .boolean => "boolean"
  | .date => "timestamptz"
  | .json => "jsonb"

/-- A copy takes what its origin is at that point, not what it becomes later. -/
def plannedCopy (planned : String → Option Planned) (template : String) : Planned :=
  match wholeToken template with
  | some origin =>
    if origin.toList.head? = some '$' then .type "text" else (planned origin).getD (.copyOf origin)
  | none => .type "text"

/-- One turn of the loop. -/
def planStep (planned : String → Option Planned) : ColumnTransform → String → Option Planned
  | .mask column m =>
    if m.mode = .null then planned else Function.update planned column (some (.type "text"))
  | .cast column into _ => Function.update planned column (some (.type (castType into)))
  | .set column template => Function.update planned column (some (plannedCopy planned template))
  | .default _ _ | .text _ _ => planned

def plan (steps : List ColumnTransform) : String → Option Planned := steps.foldl planStep fun _ => none

def transformedType (steps : List ColumnTransform) (column : String) : Option String :=
  match plan steps column with
  | some (.type type) => some type
  | _ => none

def copiedColumn (steps : List ColumnTransform) (column : String) : Option String :=
  match plan steps column with
  | some (.copyOf origin) => some origin
  | _ => none

/-- Does the step turn values of its column into NULL? -/
def empties : ColumnTransform → Bool
  | .mask _ m => m.mode = .null
  | .cast _ _ onError => onError = .null
  | _ => false

def canBecomeNull (steps : List ColumnTransform) (column : String) : Bool :=
  steps.any fun t => t.column = column && empties t

/-! ## The table -/

/-- `TargetColumnShape` -/
structure TargetColumnShape where
  name : String
  sourceType : String
  /-- spelled for no engine -/
  generic : Bool
  nullable : Bool
  deriving DecidableEq

/-- Where the columns of a target come from. -/
structure TableSource where
  /-- the source table's own; none where they cannot be known -/
  columns : Option (List TargetColumnShape)
  /-- the first row that is written, by its names -/
  sample : Row
  sampleNames : List String

/-- `Number.isInteger(n)` -/
def isInteger : Number → Bool
  | .finite q => q.den = 1
  | .negativeZero => true
  | _ => false

def inferType : Value → String
  | .bool _ => "boolean"
  | .number n => if isInteger n then "integer" else "double"
  | .bigint _ => "bigint"
  | .date _ | .invalidDate => "timestamp"
  | .bytes _ | .array _ | .object _ | .wrapper _ | .jsonable _ => "json"
  | .undefined | .null | .string _ | .unchanged => "text"

variable (source : TableSource) (target : DatabaseTarget) (steps : List ColumnTransform)

/-- `new Map(source.map((c) => [c.name, c]))` -/
def byName (name : String) : Option TargetColumnShape :=
  (OrderedMap.empty.setAll ((source.columns.getD []).map fun c => (c.name, c))).get? name

/-- The target's columns, each with the column it takes its values from. -/
def pairs : List ColumnMapping :=
  if target.mapping ≠ [] then target.mapping
  else
    match source.columns with
    | some columns =>
      let names := columns.map (·.name)
      (names ++ columnsAdded steps names).map fun name => { source := name, target := name }
    | none => source.sampleNames.map fun name => { source := name, target := name }

/-- A plain copy of a column is typed like the column it copies. -/
def known (p : ColumnMapping) : Option TargetColumnShape :=
  byName source ((copiedColumn steps p.source).getD p.source)

def plannedColumn (p : ColumnMapping) : TargetColumnShape :=
  let known := known source steps p
  let isKey := target.keyColumns.contains p.target
  let nullable :=
    (match known with
      | some column => column.nullable
      | none => !isKey) || (!isKey && canBecomeNull steps p.source)
  match transformedType steps p.source with
  | some reshaped => { name := p.target, sourceType := reshaped, generic := true, nullable := nullable }
  | none =>
    { name := p.target
      sourceType := match known with
        | some column => column.sourceType
        | none => inferType (read (mapRow source.sample target.mapping) p.target)
      generic := false
      nullable := nullable }

/-- The mark of a soft delete is a column of the target only. -/
def marker : List TargetColumnShape :=
  match target.onDelete, target.softDelete with
  | .soft, some soft =>
    if (pairs source target steps).all fun p => p.target ≠ soft.column then
      [{ name := soft.column
         sourceType := if soft.value = .boolean then "boolean" else "timestamptz"
         generic := true
         nullable := true }]
    else []
  | _, _ => []

def targetColumns : List TargetColumnShape :=
  (pairs source target steps).map (plannedColumn source target steps) ++ marker source target steps

/-! ## One more step -/

variable {source target steps} {t : ColumnTransform}

theorem plan_append (steps : List ColumnTransform) (t : ColumnTransform) :
    plan (steps ++ [t]) = planStep (plan steps) t := by
  simp [plan]

theorem plan_other {column : String} (other : column ≠ t.column) :
    plan (steps ++ [t]) column = plan steps column := by
  rw [plan_append]
  cases t with
  | mask c m =>
    by_cases emptied : m.mode = .null
    · simp [planStep, emptied]
    · simp only [planStep, emptied, if_false]
      exact Function.update_of_ne other _ _
  | cast c into onError => exact Function.update_of_ne other _ _
  | set c template => exact Function.update_of_ne other _ _
  | default c value => rfl
  | text c op => rfl

end Syncle.Shape
