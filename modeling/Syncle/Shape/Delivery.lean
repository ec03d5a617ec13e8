import Syncle.Lib.Fold
import Syncle.Shape.Target

/-!
# A delivery to one target (`row-shaping.ts`, `database-sink.service.ts`)

Rows are shaped, converted for the target's engine and mapped to its columns; a write stores them
under their identities, a delete removes what its rows' identities name.
-/

namespace Syncle.Shape

open Js Lib

/-! ## `shapeRows` -/

structure ShapedRows where
  rows : List Row
  warnings : List String
  errors : List String

/-- `shapeRows`, of rows that are written or deleted; none where it throws. -/
def shapeRows (rt : Runtime) (transforms : List ColumnTransform) (table now : String) (op : Op)
    (rows : List Row) : Option ShapedRows :=
  if transforms.isEmpty then some { rows := rows, warnings := [], errors := [] }
  else
    -- a delete's row is often only its key: nothing is computed for a row that is going away
    let ctx : Context := { table := table, now := now, keysOnly := op = .delete }
    (rows.mapM fun row => applyColumnTransforms rt ctx row transforms).map fun shaped =>
      { rows := shaped.map Shaped.row
        warnings := (shaped.flatMap Shaped.warnings).eraseDups
        errors := (shaped.flatMap Shaped.errors).eraseDups }

/-! ## `rowConverterFor` -/

/-- How the values of one column have to change for a target's engine; none where it throws. -/
structure Converter where
  name : String
  convert : Value → Option Value

def convertColumn (row out : Row) (c : Converter) : Option Row :=
  match read row c.name with
  -- nothing to convert: no value, or a marker that must reach the writer intact
  | .null | .undefined | .unchanged => some out
  | before =>
    (c.convert before).map fun after => if after = before then out else assign out c.name after

def convertRow (converters : List Converter) (row : Row) : Option Row :=
  converters.foldlM (convertColumn row) row

/-! ## `deliver`, to one target -/

/-- What a bridge delivers to one of its targets by. -/
structure Delivery where
  table : String
  transforms : List ColumnTransform
  converters : List Converter
  target : DatabaseTarget

/-- Why a delivery failed. -/
inductive Failure where
  /-- `failedBeforeSending` -/
  | shaping (errors : List String)
  /-- what the runtime, a converter or a key template threw -/
  | thrown
  /-- `Upsert needs at least one key column; set keys or use insert mode` -/
  | noKeyColumns
  | blankKey (message : String)
  deriving DecidableEq

/-- The rows, shaped once for all targets. -/
def Delivery.shape (rt : RedisRuntime) (d : Delivery) (now : String) (op : Op)
    (rows : List Row) : Except Failure (List Row) :=
  match shapeRows rt.toRuntime d.transforms d.table now op rows with
  | none => .error .thrown
  | some shaped => if shaped.errors.isEmpty then .ok shaped.rows else .error (.shaping shaped.errors)

/-- Shaped rows as the target is given them. -/
def Delivery.fit (rt : RedisRuntime) (d : Delivery) (op : Op) (rows : List Row) :
    Option (List Mapped) :=
  (rows.mapM (convertRow d.converters)).bind fun converted =>
    converted.mapM (mapForTarget rt d.target op)

/-- The identities the rows are stored under. -/
def Delivery.write (rt : RedisRuntime) (d : Delivery) (now : String) (rows : List Row) :
    Except Failure (List Identity) :=
  match d.shape rt now .write rows with
  | .error failure => .error failure
  | .ok rows =>
    match d.fit rt .write rows with
    | none => .error .thrown
    | some mapped =>
      if d.target.writeMode ≠ .insert ∧ d.target.redis = none ∧ d.target.keyColumns = [] then
        .error .noKeyColumns
      else .ok (mapped.map (identityOf d.target))

inductive Deletion where
  /-- said in the summary, and not done -/
  | notApplied (summary : String)
  | removed (identities : List Identity)
  deriving DecidableEq

/-- The key column a delete carries no value for. -/
def Identity.blank : Identity → Option String
  | columns values => (values.find? fun p => isBlank p.2).map Prod.fst
  | key _ => none

def blankKeyError (column : String) : String :=
  "the delete carries no value for key column \"" ++ column ++
    "\", so it cannot say which row to remove. " ++
    "The source only sends its own key with a delete: key this target on that, " ++
    "or make the source send whole rows (PostgreSQL: REPLICA IDENTITY FULL; MongoDB: pre-images)."

/-- What a delete of these rows removes from the target. -/
def Delivery.delete (rt : RedisRuntime) (d : Delivery) (now : String) (rows : List Row) :
    Except Failure Deletion :=
  match d.shape rt now .delete rows with
  | .error failure => .error failure
  | .ok rows =>
    if d.target.keyColumns.isEmpty then
      .ok (.notApplied "delete not applied (target has no key columns)")
    else if d.target.onDelete = .ignore then
      .ok (.notApplied "delete not applied (this target ignores deletes)")
    else
      match d.fit rt .delete rows with
      | none => .error .thrown
      | some mapped =>
        match (mapped.map (identityOf d.target)).findSome? Identity.blank with
        | some column => .error (.blankKey (blankKeyError column))
        | none => .ok (.removed (mapped.map (identityOf d.target)))

/-! ## One row of it -/

/-- What the delivery makes of one row. -/
def Delivery.Maps (rt : RedisRuntime) (d : Delivery) (now : String) (op : Op) (row : Row)
    (mapped : Mapped) : Prop :=
  ∃ shaped converted,
    applyColumnTransforms rt.toRuntime { table := d.table, now := now, keysOnly := op = .delete }
        row d.transforms = some shaped ∧
      convertRow d.converters shaped.row = some converted ∧
      mapForTarget rt d.target op converted = some mapped

theorem shapeRows_rows {rt : Runtime} {transforms : List ColumnTransform} {table now : String}
    {op : Op} {rows : List Row} {shaped : ShapedRows}
    (h : shapeRows rt transforms table now op rows = some shaped) :
    List.Forall₂
      (fun row out => ∃ s : Shaped, s.row = out ∧
        applyColumnTransforms rt { table := table, now := now, keysOnly := op = .delete } row
          transforms = some s)
      rows shaped.rows := by
  unfold shapeRows at h
  split at h
  case isTrue none =>
    obtain rfl := Option.some.inj h
    rw [List.isEmpty_iff.mp none]
    exact List.forall₂_same.mpr fun row _ => ⟨{ row := row }, rfl, rfl⟩
  case isFalse =>
    obtain ⟨all, hall, rfl⟩ := Option.map_eq_some_iff.mp h
    refine List.forall₂_map_right_iff.mpr ?_
    exact (forall₂_of_mapM hall).imp fun row s hs => ⟨s, rfl, hs⟩

theorem Delivery.shape_rows {rt : RedisRuntime} {d : Delivery} {now : String} {op : Op}
    {rows shaped : List Row} (h : d.shape rt now op rows = .ok shaped) :
    List.Forall₂
      (fun row out => ∃ s : Shaped, s.row = out ∧
        applyColumnTransforms rt.toRuntime
          { table := d.table, now := now, keysOnly := op = .delete } row d.transforms = some s)
      rows shaped := by
  unfold Delivery.shape at h
  split at h
  case h_1 => cases h
  case h_2 all hall =>
    split at h
    case isFalse => cases h
    case isTrue =>
      obtain rfl : all.rows = shaped := Except.ok.inj h
      exact shapeRows_rows hall

/-- A delivery is row by row. -/
theorem Delivery.maps_of_fit {rt : RedisRuntime} {d : Delivery} {now : String} {op : Op}
    {rows shaped : List Row} {mapped : List Mapped} (hs : d.shape rt now op rows = .ok shaped)
    (hf : d.fit rt op shaped = some mapped) : List.Forall₂ (d.Maps rt now op) rows mapped := by
  obtain ⟨converted, hconverted, hmapped⟩ := Option.bind_eq_some_iff.mp hf
  have first := d.shape_rows hs
  have second := forall₂_of_mapM hconverted
  have third := forall₂_of_mapM hmapped
  clear hs hf hconverted hmapped
  induction first generalizing converted mapped with
  | nil => cases second; cases third; exact .nil
  | cons here _ ih =>
    obtain ⟨s, rfl, applied⟩ := here
    cases second with
    | cons convertedHere second =>
      cases third with
      | cons mappedHere third =>
        exact .cons ⟨s, _, applied, convertedHere, mappedHere⟩ (ih _ second third)

/-- What a write that went through stored its rows under. -/
theorem Delivery.write_ok {rt : RedisRuntime} {d : Delivery} {now : String} {rows : List Row}
    {written : List Identity} (h : d.write rt now rows = .ok written) :
    ∃ mapped, List.Forall₂ (d.Maps rt now .write) rows mapped ∧
      written = mapped.map (identityOf d.target) := by
  unfold Delivery.write at h
  split at h
  case h_1 => cases h
  case h_2 shaped hs =>
    split at h
    case h_1 => cases h
    case h_2 mapped hf =>
      split at h
      case isTrue => cases h
      case isFalse => exact ⟨mapped, d.maps_of_fit hs hf, (Except.ok.inj h).symm⟩

/-- A delete that removes something knows every key of it. -/
theorem Delivery.delete_removed {rt : RedisRuntime} {d : Delivery} {now : String}
    {rows : List Row} {removed : List Identity}
    (h : d.delete rt now rows = .ok (.removed removed)) :
    ∃ mapped, List.Forall₂ (d.Maps rt now .delete) rows mapped ∧
      removed = mapped.map (identityOf d.target) ∧ ∀ id ∈ removed, id.blank = none := by
  unfold Delivery.delete at h
  split at h
  case h_1 => cases h
  case h_2 shaped hs =>
    split_ifs at h
    · cases Except.ok.inj h
    · cases Except.ok.inj h
    · split at h
      case h_1 => cases h
      case h_2 mapped hf =>
        split at h
        case h_1 => cases h
        case h_2 known =>
          obtain rfl : mapped.map (identityOf d.target) = removed :=
            Deletion.removed.inj (Except.ok.inj h)
          exact ⟨mapped, d.maps_of_fit hs hf, rfl, List.findSome?_eq_none_iff.mp known⟩

/-- A delete is left undone only where the target asks for it. -/
theorem Delivery.delete_notApplied {rt : RedisRuntime} {d : Delivery} {now summary : String}
    {rows : List Row} (h : d.delete rt now rows = .ok (.notApplied summary)) :
    d.target.keyColumns = [] ∨ d.target.onDelete = .ignore := by
  unfold Delivery.delete at h
  split at h
  case h_1 => cases h
  case h_2 =>
    split_ifs at h with none ignored
    · exact Or.inl (List.isEmpty_iff.mp none)
    · exact Or.inr ignored
    · split at h
      case h_1 => cases h
      case h_2 => split at h <;> cases h

end Syncle.Shape
