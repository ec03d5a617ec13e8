import Syncle.Cdc.Change
import Syncle.Js.RegExp
import Syncle.Js.Value
import Syncle.Lib.OrderedMap
import Syncle.Shape.Target

/-!
# A bridge's configuration (`bridge-config.ts`, `validation.ts`)

As the API stores it, its defaults filled in.
-/

namespace Syncle.Builder

open Lib Js
open Shape (ColumnTransform ColumnMapping WriteMode DeletePolicy MarkValue SoftDelete)
open Cdc (CdcOperation)

/-! ## Source -/

inductive FilterOperator where
  | eq | neq | lt | lte | gt | gte | contains | startsWith | endsWith | isNull | notNull | oneOf
  deriving DecidableEq

/-- `filterSchema`; `oneOf` is `in`, and a value that is not given is `undefined`. -/
structure FilterSpec where
  column : String
  operator : FilterOperator
  value : Value
  deriving DecidableEq

inductive Direction where
  | asc | desc
  deriving DecidableEq

structure SortSpec where
  column : String
  direction : Direction
  deriving DecidableEq

/-- `tableSourceSchema` -/
structure TableSource where
  connectionId : String
  database : Option String
  schema : Option String
  table : String
  filters : Option (List FilterSpec)
  sort : Option (List SortSpec)

/-! ## Destination -/

inductive Method where
  | POST | PUT | PATCH
  deriving DecidableEq

/-- `bridgeAuthSchema` -/
inductive Auth where
  | none
  | bearer (token : String)
  | header (name value : String)
  deriving DecidableEq

/-- `httpDestinationSchema` -/
structure HttpDestination where
  url : String
  method : Method
  headers : Option (OrderedMap String String)
  auth : Auth
  idempotency : Bool

inductive RedisType where
  | hash | json | string
  deriving DecidableEq

/-- `redisTargetSchema` -/
structure RedisTarget where
  keyTemplate : String
  type : RedisType
  valueColumn : Option String
  ttlSeconds : Option ℕ
  deriving DecidableEq

/-- `databaseTargetSchema` -/
structure DatabaseTarget where
  connectionId : String
  database : Option String
  schema : Option String
  table : String
  writeMode : WriteMode
  keyColumns : List String
  mapping : List ColumnMapping
  createMissingTable : Bool
  onDelete : DeletePolicy
  softDelete : Option SoftDelete
  redis : Option RedisTarget
  deriving DecidableEq

inductive Destination where
  | http (endpoint : HttpDestination)
  | database (targets : List DatabaseTarget)

/-! ## Transform, delivery, trigger -/

/-- `bridgeTransformSchema` -/
structure TransformConfig where
  template : String
  fields : Option (List String)
  rename : Option (List (String × String))
  wrapKey : Option String
  columns : Option (List ColumnTransform)

inductive ErrorPolicy where
  | continue_ | abort
  deriving DecidableEq

inductive SchemaChangePolicy where
  | stop | continue_ | evolve
  deriving DecidableEq

/-- `bridgeDeliverySchema` -/
structure DeliveryConfig where
  batchSize : ℕ
  maxAttempts : ℕ
  backoffMs : ℕ
  backoffMaxMs : ℕ
  minDelayMs : ℕ
  timeoutMs : ℕ
  pageSize : ℕ
  onError : ErrorPolicy
  onSchemaChange : SchemaChangePolicy
  deriving DecidableEq

/-- `watchStrategySchema` -/
inductive WatchStrategy where
  | increment (column : String)
  | timestamp (column : String) (lookbackMs : ℕ)
  | snapshot (maxTracked : ℕ)
  deriving DecidableEq

inductive StartFrom where
  | beginning | now
  deriving DecidableEq

inductive Slot where
  | own | shared
  deriving DecidableEq

/-- `replayScheduleSchema` -/
structure ReplaySchedule where
  cron : String
  timezone : String
  enabled : Bool
  deriving DecidableEq

/-- `bridgeTriggerSchema` -/
inductive Trigger where
  | replay (schedule : Option ReplaySchedule)
  | watch (strategy : WatchStrategy) (pollIntervalMs : ℕ) (startFrom : StartFrom) (maxPerPoll : ℕ)
  | cdc (operations : List CdcOperation) (startFrom : StartFrom) (slot : Slot)
  deriving DecidableEq

/-- `bridgeInputSchema`, of a table. -/
structure Bridge where
  name : String
  source : TableSource
  destination : Destination
  transform : TransformConfig
  delivery : DeliveryConfig
  trigger : Trigger
  enabled : Bool

/-! ## What the API accepts -/

/-- `text.trim()` -/
def trim (text : String) : String := String.ofList (Js.trim text.toList)

/-- `checkedDatabaseTarget`, and what `zod` makes of the texts in it. -/
structure DatabaseTarget.Accepted (t : DatabaseTarget) : Prop where
  /-- a soft delete needs a column to mark the row with, which a Redis key has none of -/
  soft : t.onDelete = .soft → t.redis = none ∧ ∃ mark, t.softDelete = some mark ∧ trim mark.column = mark.column
  redis : ∀ r, t.redis = some r →
    trim r.keyTemplate = r.keyTemplate ∧ (r.valueColumn.isSome = true ↔ r.type = .string)

/-- As far as the builder depends on it. -/
structure Bridge.Accepted (b : Bridge) : Prop where
  template : b.transform.template ≠ ""
  targets : ∀ targets, b.destination = .database targets → ∀ t ∈ targets, t.Accepted
  poll : ∀ strategy ms startFrom maxPerPoll,
    b.trigger = .watch strategy ms startFrom maxPerPoll → 1000 ≤ ms

end Syncle.Builder
