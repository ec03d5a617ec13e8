import Syncle.Builder.Config

/-!
# The builder's draft (`builder/mapping.ts`, `builder/draft.ts`)

A stored bridge is opened as a draft (`loadBridge`), whose columns are ticked once the source table's
are known (`applyColumns`), and saved as what the API takes (`buildInput`).
-/

namespace Syncle.Builder

open Lib Js
open Shape (ColumnTransform ColumnMapping WriteMode DeletePolicy MarkValue SoftDelete objectPrototype)
open Cdc (CdcOperation)

/-! ## Values and texts -/

def Number.isFinite : Number → Bool
  | .finite _ | .negativeZero => true
  | _ => false

/-- `Number.isSafeInteger(n)` -/
def isSafeInteger : Number → Bool
  | .finite q => q.den = 1 && q.num.natAbs < 2 ^ 53
  | .negativeZero => true
  | _ => false

/-- `/^-?\d+$/` -/
def isIntegerText (text : String) : Bool :=
  let digits := match text.toList with
    | '-' :: rest => rest
    | rest => rest
  digits ≠ [] && digits.all Char.isDigit

/-- How JavaScript writes numbers, and reads them. -/
structure FormRuntime where
  /-- `String(n)` -/
  numberText : Number → String
  /-- `Number(text)` -/
  numberOf : String → Number
  /-- `String(value)` of what is neither a text nor a number nor a boolean -/
  otherText : Value → String
  numberText_trim : ∀ n, trim (numberText n) = numberText n
  numberText_ne : ∀ n, numberText n ≠ ""
  numberText_zero : numberText .negativeZero = numberText (.finite 0)
  numberOf_zero : numberOf (numberText (.finite 0)) = .finite 0
  /-- a number is read back from its text -/
  numberOf_numberText : ∀ text q, numberOf text = .finite q → numberOf (numberText (.finite q)) = .finite q

variable (rt : FormRuntime)

/-- `String(value)` -/
def FormRuntime.spell : Value → String
  | .string s => s
  | .bool b => toString b
  | .number n => rt.numberText n
  | v => rt.otherText v

/-- `['string', 'number', 'boolean'].includes(typeof value)` -/
def typed : Value → Bool
  | .string _ | .number _ | .bool _ => true
  | _ => false

/-- The value of a filter as the API should get it: a number or a boolean where the column is one. -/
def coerceFilterValue (text : String) (columnType : Option String) : Value :=
  let trimmed := trim text
  if (columnType = some "number" ∨ columnType = some "bigint") ∧ trimmed ≠ "" ∧
      Number.isFinite (rt.numberOf trimmed) then
    let n := rt.numberOf trimmed
    if isSafeInteger n || !isIntegerText trimmed then .number n else .string trimmed
  else if columnType = some "boolean" ∧
      (trimmed.toList.map Char.toLower = "true".toList ∨ trimmed.toList.map Char.toLower = "false".toList) then
    .bool (trimmed.toList.map Char.toLower = "true".toList)
  else .string text

/-- `line.split(/\s+/)`, of a line with no blanks around it; `word` has been read of its first. -/
@[grind =]
def wordsFrom (word : List Char) : List Char → List (List Char)
  | [] => if word = [] then [] else [word]
  | c :: rest =>
    if isSpace c.toNat then
      if word = [] then wordsFrom [] rest else word :: wordsFrom [] rest
    else wordsFrom (word ++ [c]) rest

def words (line : List Char) : List (List Char) := wordsFrom [] line

/-- `cron.trim().split(/\s+/).join(' ')` -/
def oneSpelling (cron : String) : String :=
  String.ofList ([' '].intercalate (words (Js.trim cron.toList)))

/-! ## The draft -/

/-- `VALUELESS` -/
def valueless : FilterOperator → Bool
  | .isNull | .notNull => true
  | _ => false

structure DraftFilter where
  column : String
  operator : FilterOperator
  /-- as typed -/
  value : String

inductive RowMode where
  | selected | all
  deriving DecidableEq

inductive AuthType where
  | none | bearer | header
  deriving DecidableEq

/-- `Destination` of the draft. -/
structure DraftDestination where
  url : String
  method : Method
  authType : AuthType
  authToken : String
  authHeaderName : String
  authHeaderValue : String
  headers : List (String × String)
  idempotency : Bool

def blankDestination : DraftDestination where
  url := ""
  method := .POST
  authType := .none
  authToken := ""
  authHeaderName := ""
  authHeaderValue := ""
  headers := []
  idempotency := false

inductive RedisMode where
  | columns | template
  deriving DecidableEq

structure DbTarget where
  connectionId : String
  database : String
  schema : String
  table : String
  writeMode : WriteMode
  keyColumns : List String
  createMissingTable : Bool
  renames : OrderedMap String String
  onDelete : DeletePolicy
  softDeleteColumn : String
  softDeleteValue : MarkValue
  redisMode : RedisMode
  redisKeyTemplate : String
  redisType : RedisType
  redisValueColumn : String
  redisTtlSeconds : Option ℕ

def blankDbTarget : DbTarget where
  connectionId := ""
  database := ""
  schema := ""
  table := ""
  writeMode := .upsert
  keyColumns := []
  createMissingTable := true
  renames := .empty
  onDelete := .delete
  softDeleteColumn := "deleted_at"
  softDeleteValue := .timestamp
  redisMode := .columns
  redisKeyTemplate := ""
  redisType := .hash
  redisValueColumn := ""
  redisTtlSeconds := none

inductive DestKind where
  | http | database
  deriving DecidableEq

structure Delivery where
  batchSize : ℕ
  maxAttempts : ℕ
  minDelayMs : ℕ
  timeoutMs : ℕ
  onError : ErrorPolicy
  onSchemaChange : SchemaChangePolicy

def blankDelivery : Delivery where
  batchSize := 1
  maxAttempts := 3
  minDelayMs := 0
  timeoutMs := 15000
  onError := .continue_
  onSchemaChange := .stop

inductive TriggerKind where
  | replay | watch | cdc
  deriving DecidableEq

inductive WatchKind where
  | increment | timestamp | snapshot
  deriving DecidableEq

/-- `BuilderDraft`, without what only the screen reads. -/
structure BuilderDraft where
  name : String
  connectionId : String
  database : String
  schema : String
  table : String
  mode : RowMode
  selectedKeys : OrderedMap String Value
  /-- a set -/
  included : List String
  fieldsPref : Option (List String)
  triggerKind : TriggerKind
  watchStrategy : WatchKind
  watchColumn : String
  pollSeconds : ℕ
  watchStartFrom : StartFrom
  cdcStartFrom : StartFrom
  cdcSlot : Slot
  schedule : Option ReplaySchedule
  maxPerPoll : ℕ
  snapshotMaxTracked : ℕ
  lookbackMs : ℕ
  cdcOps : List CdcOperation
  filters : List DraftFilter
  extraFilters : List FilterSpec
  transforms : List ColumnTransform
  template : String
  rename : Option (List (String × String))
  wrapKey : String
  destKind : DestKind
  dest : DraftDestination
  dbTargets : List DbTarget
  delivery : Delivery
  enabled : Bool

/-- `initialDraft(BUILT_IN_DEFAULTS)` -/
def initialDraft : BuilderDraft where
  name := ""
  connectionId := ""
  database := ""
  schema := ""
  table := ""
  mode := .all
  selectedKeys := .empty
  included := []
  fieldsPref := none
  triggerKind := .replay
  watchStrategy := .increment
  watchColumn := ""
  pollSeconds := 5
  watchStartFrom := .now
  cdcStartFrom := .now
  cdcSlot := .own
  schedule := none
  maxPerPoll := 500
  snapshotMaxTracked := 50000
  lookbackMs := 3000
  cdcOps := [.insert, .update, .delete]
  filters := []
  extraFilters := []
  transforms := []
  template := "\x7b\x7b$row\x7d\x7d"
  rename := none
  wrapKey := ""
  destKind := .http
  dest := blankDestination
  dbTargets := [blankDbTarget]
  delivery := blankDelivery
  enabled := true

/-! ## `loadBridge` -/

/-- There is a row for it in the editor. -/
def editable (f : FilterSpec) : Bool :=
  f.operator ≠ .oneOf && (valueless f.operator || typed f.value)

def loadFilter (f : FilterSpec) : DraftFilter where
  column := f.column
  operator := f.operator
  value := if valueless f.operator then "" else rt.spell f.value

def isIn (f : FilterSpec) : Bool := f.operator = .oneOf

def itemList : Items → List Value
  | .nil => []
  | .cons head tail => head :: itemList tail

/-- What is left of the first `in`: the selected rows, by the text of their keys. -/
def loadKeys (filters : List FilterSpec) : Option (OrderedMap String Value) :=
  match (filters.find? isIn).map FilterSpec.value with
  | some (.array items) => some (OrderedMap.empty.setAll ((itemList items).map fun v => (rt.spell v, v)))
  | _ => none

def loadTarget (t : DatabaseTarget) : DbTarget where
  connectionId := t.connectionId
  database := t.database.getD ""
  schema := t.schema.getD ""
  table := t.table
  writeMode := t.writeMode
  keyColumns := t.keyColumns
  createMissingTable := t.createMissingTable
  renames := OrderedMap.empty.setAll
    ((t.mapping.filter fun m => m.source ≠ m.target).map fun m => (m.source, m.target))
  onDelete := t.onDelete
  softDeleteColumn := (t.softDelete.map (·.column)).getD "deleted_at"
  softDeleteValue := (t.softDelete.map (·.value)).getD .timestamp
  redisMode := if t.redis.isSome then .template else .columns
  redisKeyTemplate := (t.redis.map (·.keyTemplate)).getD ""
  redisType := (t.redis.map (·.type)).getD .hash
  redisValueColumn := (t.redis.bind (·.valueColumn)).getD ""
  redisTtlSeconds := t.redis.bind (·.ttlSeconds)

def loadEndpoint (h : HttpDestination) : DraftDestination where
  url := h.url
  method := h.method
  authType := match h.auth with
    | .none => .none
    | .bearer _ => .bearer
    | .header _ _ => .header
  authToken := match h.auth with
    | .bearer token => token
    | _ => ""
  authHeaderName := match h.auth with
    | .header name _ => name
    | _ => ""
  authHeaderValue := match h.auth with
    | .header _ value => value
    | _ => ""
  headers := (h.headers.map (·.entries)).getD []
  idempotency := h.idempotency

def loadTrigger (d : BuilderDraft) : Trigger → BuilderDraft
  | .watch strategy ms startFrom maxPerPoll =>
    { d with
      triggerKind := .watch
      watchStrategy := match strategy with
        | .increment _ => .increment
        | .timestamp _ _ => .timestamp
        | .snapshot _ => .snapshot
      watchColumn := match strategy with
        | .increment column | .timestamp column _ => column
        | .snapshot _ => ""
      -- `Math.round(ms / 1000)`
      pollSeconds := (ms + 500) / 1000
      watchStartFrom := startFrom
      maxPerPoll := maxPerPoll
      snapshotMaxTracked := match strategy with
        | .snapshot maxTracked => maxTracked
        | _ => d.snapshotMaxTracked
      lookbackMs := match strategy with
        | .timestamp _ lookbackMs => lookbackMs
        | _ => d.lookbackMs }
  | .cdc operations startFrom slot =>
    { d with
      triggerKind := .cdc
      cdcOps := operations.eraseDups
      cdcStartFrom := startFrom
      cdcSlot := slot }
  | .replay schedule => { d with triggerKind := .replay, schedule := schedule }

def loadDestination (d : BuilderDraft) : Destination → BuilderDraft
  | .database targets =>
    { d with destKind := .database, dbTargets := targets.map loadTarget, dest := blankDestination }
  | .http endpoint =>
    { d with destKind := .http, dbTargets := [blankDbTarget], dest := loadEndpoint endpoint }

/-- The draft before its trigger and its destination. -/
def loadForm (h : Bridge) : BuilderDraft :=
  let filters := h.source.filters.getD []
  let keys := loadKeys rt filters
  -- every filter but the first `in`
  let others := filters.eraseP isIn
  { initialDraft with
    name := h.name
    connectionId := h.source.connectionId
    database := h.source.database.getD ""
    schema := h.source.schema.getD ""
    table := h.source.table
    mode := if keys.isSome then .selected else .all
    selectedKeys := keys.getD .empty
    filters := (others.filter editable).map (loadFilter rt)
    extraFilters := others.filter fun f => !editable f
    transforms := h.transform.columns.getD []
    template := h.transform.template
    rename := h.transform.rename
    fieldsPref := h.transform.fields
    wrapKey := h.transform.wrapKey.getD "" }

def loadBridge (h : Bridge) : BuilderDraft :=
  { loadDestination (loadTrigger (loadForm rt h) h.trigger) h.destination with
    delivery :=
      { batchSize := h.delivery.batchSize
        maxAttempts := h.delivery.maxAttempts
        minDelayMs := h.delivery.minDelayMs
        timeoutMs := h.delivery.timeoutMs
        onError := h.delivery.onError
        onSchemaChange := h.delivery.onSchemaChange }
    enabled := h.enabled }

/-! ## `buildInput` -/

/-- `BuildInputContext` -/
structure BuildInputContext where
  columns : List String
  nodup : columns.Nodup
  singlePk : Option String
  fallbackName : String
  columnTypes : String → Option String
  sourceEngine : Option String

variable (ctx : BuildInputContext)

/-- The table's columns are there: the pinned ones are ticked, or all. -/
def applyColumns (d : BuilderDraft) : BuilderDraft :=
  { d with included := match d.fieldsPref with
      | some (field :: fields) => ctx.columns.filter fun name => name ∈ field :: fields
      | _ => ctx.columns }

/-- `draftTransforms`: a default that was typed for a numeric or boolean column is one. -/
def draftTransforms (transforms : List ColumnTransform) : List ColumnTransform :=
  transforms.map fun
    | .default column (.string text) => .default column (coerceFilterValue rt text (ctx.columnTypes column))
    | step => step

/-- `columnsAdded`: by a `set` or `default` on a name the source does not have. -/
def columnsAdded (transforms : List ColumnTransform) (sourceColumns : List String) : List String :=
  transforms.foldl (fun added t =>
    if t.adds && !(sourceColumns ++ added).contains t.column then added ++ [t.column] else added) []

def includedList (d : BuilderDraft) (transforms : List ColumnTransform) : List String :=
  (ctx.columns.filter fun name => name ∈ d.included) ++ columnsAdded transforms ctx.columns

/-- A row of the editor; none where there is nothing to compare against, or nothing to compare. -/
def buildFilter (f : DraftFilter) : Option FilterSpec :=
  if f.column = "" then none
  else if valueless f.operator then
    some { column := f.column, operator := f.operator, value := .undefined }
  else if trim f.value ≠ "" then
    some
      { column := f.column
        operator := f.operator
        value := coerceFilterValue rt f.value (ctx.columnTypes f.column) }
  else none

def itemsOf : List Value → Items
  | [] => .nil
  | v :: rest => .cons v (itemsOf rest)

/-- The row selection, as a filter. -/
def buildSelection (d : BuilderDraft) : List FilterSpec :=
  match d.mode, ctx.singlePk with
  | .selected, some pk => [{ column := pk, operator := .oneOf, value := .array (itemsOf d.selectedKeys.values) }]
  | _, _ => []

def buildFilters (d : BuilderDraft) : List FilterSpec :=
  buildSelection ctx d ++ d.filters.filterMap (buildFilter rt ctx) ++ d.extraFilters

/-- `list.length ? list : undefined` -/
def given {α : Type*} (list : List α) : Option (List α) := if list = [] then none else some list

/-- `text || undefined` -/
def givenText (text : String) : Option String := if text = "" then none else some text

/-- `t.renames[s]?.trim() || s`; none where it throws, on a name that every object inherits. -/
def renamed (t : DbTarget) (s : String) : Option String :=
  match t.renames.get? s with
  | some name => some (if trim name = "" then s else trim name)
  | none => if s ∈ objectPrototype then none else some s

/-- The whole projection: what is included, under its name there. -/
def buildMapping (t : DbTarget) (included : List String) : Option (List ColumnMapping) :=
  included.mapM fun s => (renamed t s).map fun target => { source := s, target := target }

def buildTarget (included : List String) (t : DbTarget) : Option DatabaseTarget :=
  (buildMapping t included).map fun mapping =>
    { connectionId := t.connectionId
      database := givenText t.database
      schema := givenText t.schema
      table := trim t.table
      writeMode := t.writeMode
      keyColumns := t.keyColumns
      mapping := mapping
      createMissingTable := t.createMissingTable
      onDelete := if t.redisMode = .template ∧ t.onDelete = .soft then .delete else t.onDelete
      softDelete :=
        if t.onDelete = .soft ∧ t.redisMode ≠ .template then
          some { column := trim t.softDeleteColumn, value := t.softDeleteValue }
        else none
      redis :=
        if t.redisMode = .template then
          some
            { keyTemplate := trim t.redisKeyTemplate
              type := t.redisType
              valueColumn := if t.redisType = .string then some t.redisValueColumn else none
              ttlSeconds := t.redisTtlSeconds }
        else none }

/-- `headerEntries` -/
def headerEntries (headers : List (String × String)) : List (String × String) :=
  (headers.filter fun h => trim h.1 ≠ "").map fun h => (trim h.1, h.2)

def buildHeaders (headers : List (String × String)) : Option (OrderedMap String String) :=
  (given (headerEntries headers)).map fun entries => OrderedMap.empty.setAll entries

def buildEndpoint (d : DraftDestination) : HttpDestination where
  url := trim d.url
  method := d.method
  headers := buildHeaders d.headers
  auth := match d.authType with
    | .bearer => .bearer d.authToken
    | .header => .header d.authHeaderName d.authHeaderValue
    | .none => .none
  idempotency := d.idempotency

def buildDestination (d : BuilderDraft) (included : List String) : Option Destination :=
  match d.destKind with
  | .database => (d.dbTargets.mapM (buildTarget included)).map .database
  | .http => some (.http (buildEndpoint d.dest))

def buildTrigger (d : BuilderDraft) : Trigger :=
  match d.triggerKind with
  | .cdc =>
    -- only PostgreSQL has slots
    .cdc d.cdcOps d.cdcStartFrom (if ctx.sourceEngine = some "postgres" then d.cdcSlot else .own)
  | .watch =>
    .watch
      (match d.watchStrategy with
        | .snapshot => .snapshot d.snapshotMaxTracked
        | .timestamp => .timestamp d.watchColumn d.lookbackMs
        | .increment => .increment d.watchColumn)
      (max 1000 (d.pollSeconds * 1000)) d.watchStartFrom d.maxPerPoll
  | .replay =>
    .replay (d.schedule.map fun s =>
      { cron := oneSpelling s.cron, timezone := trim s.timezone, enabled := s.enabled })

/-- `buildInput`; none where it throws. -/
def buildInput (d : BuilderDraft) : Option Bridge :=
  let transforms := draftTransforms rt ctx d.transforms
  let included := includedList ctx d transforms
  let allIncluded := (ctx.columns.all fun n => n ∈ d.included) && columnsAdded transforms ctx.columns = []
  (buildDestination d included).map fun destination =>
    { name := if trim d.name = "" then ctx.fallbackName else trim d.name
      source :=
        { connectionId := d.connectionId
          database := givenText d.database
          schema := givenText d.schema
          table := d.table
          filters := given (buildFilters rt ctx d)
          sort := ctx.singlePk.map fun pk => [{ column := pk, direction := .asc }] }
      destination := destination
      transform :=
        { template := if d.template = "" then "\x7b\x7b$row\x7d\x7d" else d.template
          fields := if allIncluded then none else some included
          rename := d.rename
          wrapKey := givenText d.wrapKey
          columns := given transforms }
      delivery :=
        { batchSize := d.delivery.batchSize
          maxAttempts := d.delivery.maxAttempts
          minDelayMs := d.delivery.minDelayMs
          timeoutMs := d.delivery.timeoutMs
          onError := d.delivery.onError
          onSchemaChange := d.delivery.onSchemaChange
          backoffMs := 500
          backoffMaxMs := 30000
          pageSize := 200 }
      trigger := buildTrigger ctx d
      enabled := d.enabled }

/-- A bridge opened in the builder, and saved. -/
def reopened (h : Bridge) : Option Bridge := buildInput rt ctx (applyColumns ctx (loadBridge rt h))

end Syncle.Builder
