import Syncle.Shape.ColumnTransforms

/-!
# What a target takes (`bridge.ts`, `redis-target.ts`, `database-sink.service.ts`)

A shaped row goes to every target of the bridge: converted for its engine, mapped to its columns,
and found there by its key columns, or by the Redis key a template makes of them.
-/

namespace Syncle.Shape

open Js

/-! ## Configuration -/

structure ColumnMapping where
  source : String
  target : String
  deriving DecidableEq

inductive WriteMode where
  | upsert | insert
  deriving DecidableEq

/-- `deletePolicySchema` -/
inductive DeletePolicy where
  | delete | soft | ignore
  deriving DecidableEq

inductive MarkValue where
  | timestamp | boolean
  deriving DecidableEq

structure SoftDelete where
  column : String
  value : MarkValue
  deriving DecidableEq

/-- `redisTargetSchema`, as far as it decides which key a row becomes. -/
structure RedisTarget where
  keyTemplate : String
  deriving DecidableEq

/-- `databaseTargetSchema`, as far as a delivery reads it. -/
structure DatabaseTarget where
  connectionId : String
  database : Option String
  schema : Option String
  table : String
  writeMode : WriteMode
  keyColumns : List String
  mapping : List ColumnMapping
  onDelete : DeletePolicy
  softDelete : Option SoftDelete
  redis : Option RedisTarget
  deriving DecidableEq

/-! ## `mapRow` -/

/-- The members every object inherits. -/
def objectPrototype : List String :=
  ["__proto__", "constructor", "hasOwnProperty", "isPrototypeOf", "propertyIsEnumerable",
    "toLocaleString", "toString", "valueOf", "__defineGetter__", "__defineSetter__",
    "__lookupGetter__", "__lookupSetter__"]

/-- `row[name]` -/
def read (row : Row) (name : String) : Value :=
  match row name with
  | some v => v
  | none => if objectPrototype.contains name then .wrapper name else .undefined

/-- `if (v !== UNCHANGED) out[name] = v === undefined ? null : v` -/
def put (out : Row) (name : String) (v : Value) : Row :=
  match v with
  | .unchanged => out
  | .undefined => assign out name .null
  | v => assign out name v

/-- The row onto its own names. -/
def sameNames (row : Row) : Row := fun name =>
  match row name with
  | some v => put (fun _ => none) name v name
  | none => none

def mapRow (row : Row) (mapping : List ColumnMapping) : Row :=
  if mapping.isEmpty then sameNames row
  else mapping.foldl (fun out m => put out m.target (read row m.source)) fun _ => none

/-! ## A row as a Redis key -/

/-- How values that have no text of their own are spelled in Redis. -/
structure RedisRuntime extends Runtime where
  /-- `JSON.stringify(value, jsonSafe)` -/
  safeJson : Value → String
  /-- `hex` -/
  hex : List (BitVec 8) → String

/-- `[^{}]` -/
def isPlain (c : Char) : Bool := c ≠ '{' && c ≠ '}'

/-- One match of the key template's `TOKEN` at the head. -/
def matchKeyToken : List Char → Option (String × List Char)
  | '{' :: '{' :: rest =>
    let inner := rest.takeWhile isPlain
    match rest.drop inner.length with
    | '}' :: '}' :: after =>
      some (String.ofList ((inner.dropWhile isSpace).reverse.dropWhile isSpace).reverse, after)
    | _ => none
  | _ => none

/-- A key template, cut at its tokens. `fuel` is its length. -/
def keyPiecesOf : ℕ → List Char → List Piece
  | _, [] => []
  | 0, _ => []
  | fuel + 1, c :: cs =>
    match matchKeyToken (c :: cs) with
    | some (name, after) => .token name :: keyPiecesOf fuel after
    | none => .char c :: keyPiecesOf fuel cs

def keyPieces (template : String) : List Piece := keyPiecesOf template.length template.toList

def keyTokens (template : String) : List String :=
  (keyPieces template).filterMap fun
    | .token name => some name
    | .char _ => none

/-- `redisKeyColumns` -/
def redisKeyColumns (template : String) : List String :=
  ((keyTokens template).filter fun name => name ≠ "").eraseDups

/-- What Redis keeps of a value: a text, or bytes as they are. -/
inductive RedisText where
  | text (s : String)
  | bytes (data : List (BitVec 8))

/-- `redisText`; none where it is null. -/
def redisText (rt : RedisRuntime) : Value → Option RedisText
  | .null | .undefined | .invalidDate | .unchanged => none
  | .string s => some (.text s)
  | .number n => some (.text (rt.numberText n))
  | .bigint n => some (.text (toString n))
  | .bool b => some (.text (if b then "true" else "false"))
  | .date iso => some (.text iso)
  | .bytes data => some (.bytes data)
  | .jsonable json => redisText rt json
  | value => some (.text (rt.safeJson value))

/-- What a value writes into a key; none where the row counts as having no value. Only an empty text
does: an empty `Uint8Array` is no `''`, and its hex is written. -/
def keyWord (rt : RedisRuntime) (value : Value) : Option String :=
  match redisText rt value with
  | none => none
  | some (.text s) => if s = "" then none else some s
  | some (.bytes data) => some (rt.hex data)

/-- One piece of a key; none where the row has no value for it. -/
def renderKeyPiece (rt : RedisRuntime) (row : Row) : Piece → Option String
  | .char c => some (String.singleton c)
  | .token name => keyWord rt (read row name)

/-- `renderRedisKey`; none where it throws. -/
def renderRedisKey (rt : RedisRuntime) (template : String) (row : Row) : Option String :=
  ((keyPieces template).mapM (renderKeyPiece rt row)).map String.join

/-! ## What is accepted -/

def RedisTarget.accepted (redis : RedisTarget) : Bool :=
  !(redisKeyColumns redis.keyTemplate).isEmpty &&
    (redisKeyColumns redis.keyTemplate).all (fun c => !c.startsWith "$") &&
    !(keyTokens redis.keyTemplate).contains ""

/-- `checkedDatabaseTarget`, and the transform after it: a target with a key template is keyed on
the template's columns. -/
def DatabaseTarget.accepted (target : DatabaseTarget) : Bool :=
  (match target.redis with
    | none => true
    | some redis =>
      redis.accepted && target.onDelete ≠ .soft &&
        target.keyColumns = redisKeyColumns redis.keyTemplate &&
        (target.mapping.isEmpty || (redisKeyColumns redis.keyTemplate).all fun c =>
          target.mapping.any fun m => m.target = c)) &&
    (target.onDelete ≠ .soft ||
      match target.softDelete with
      | none => false
      | some soft => !target.keyColumns.contains soft.column &&
        target.mapping.all fun m => m.target ≠ soft.column)

/-! ## `mapForTarget` -/

/-- A row as a target is given it: a Redis target with a template is given a key, and what to keep
under it. -/
inductive Mapped where
  | columns (row : Row)
  | key (key : String) (row : Row)

inductive Op where
  | write | delete
  deriving DecidableEq

/-- The soft-delete mark of a row that is written. -/
def unmarked : MarkValue → Value
  | .boolean => .bool false
  | .timestamp => .null

def DatabaseTarget.soft (target : DatabaseTarget) : Option SoftDelete :=
  if target.onDelete = .soft then target.softDelete else none

/-- `mapForTarget`, of one row; none where it throws. -/
def mapForTarget (rt : RedisRuntime) (target : DatabaseTarget) (op : Op) (row : Row) :
    Option Mapped :=
  let out := mapRow row target.mapping
  match target.redis with
  | some redis => (renderRedisKey rt redis.keyTemplate out).map fun key => .key key out
  | none =>
    match target.soft, op with
    | some soft, .write => some (.columns (assign out soft.column (unmarked soft.value)))
    | _, _ => some (.columns out)

/-- What a written row is found by. -/
inductive Identity where
  | columns (values : List (String × Value))
  | key (key : String)
  deriving DecidableEq

/-- `pick(row, identityColumns(target))` -/
def identityOf (target : DatabaseTarget) : Mapped → Identity
  | .columns row => .columns (target.keyColumns.map fun k => (k, read row k))
  | .key key _ => .key key

def isBlank : Value → Bool
  | .null | .undefined => true
  | _ => false

end Syncle.Shape
