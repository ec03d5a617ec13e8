import Mathlib.Tactic.Common

/-!
# Values of a row

What a provider's change holds in its columns, and JSON, which carries it. JSON is kept as the tree
its text spells: `JSON.stringify` and `JSON.parse` are one the inverse of the other on such trees.

Numbers are told apart as `Object.is` tells them: there is a negative zero, which JSON spells `0`. A
`Date` is told by the text of `toISOString`, which names its instant.
-/

namespace Syncle.Js

inductive Number where
  | finite (q : Rat)
  | negativeZero
  | nan
  | infinity (negative : Bool)
  deriving DecidableEq

/-- `String(value)` of a number that is none of JSON's. -/
def Number.nonFiniteText : Number → Option String
  | finite _ | negativeZero => none
  | nan => some "NaN"
  | infinity false => some "Infinity"
  | infinity true => some "-Infinity"

mutual

inductive Value where
  | undefined
  | null
  | bool (b : Bool)
  | number (n : Number)
  | bigint (n : Int)
  | string (s : String)
  | date (iso : String)
  | invalidDate
  /-- a `Buffer` -/
  | bytes (data : List (BitVec 8))
  | array (items : Items)
  /-- a plain object: its own string-named properties -/
  | object (fields : Fields)
  /-- an object of a driver's own class, by what `String` makes of it -/
  | wrapper (text : String)
  /-- …and one whose class has a `toJSON` -/
  | jsonable (json : Value)
  /-- the `UNCHANGED` symbol: a column the change did not carry -/
  | unchanged

inductive Items where
  | nil
  | cons (head : Value) (tail : Items)

inductive Fields where
  | nil
  | cons (name : String) (value : Value) (rest : Fields)

end

deriving instance DecidableEq for Value, Items, Fields

mutual

inductive Json where
  | null
  | bool (b : Bool)
  | number (q : Rat)
  | string (s : String)
  | array (items : JsonItems)
  | object (fields : JsonFields)

inductive JsonItems where
  | nil
  | cons (head : Json) (tail : JsonItems)

inductive JsonFields where
  | nil
  | cons (name : String) (value : Json) (rest : JsonFields)

end

deriving instance DecidableEq for Json, JsonItems, JsonFields

/-- The own property of that name. -/
def Fields.get : Fields → String → Option Value
  | .nil, _ => none
  | .cons name value rest, column => if name = column then some value else rest.get column

/-- `Object.assign({}, row, {[ORIGINS]: …})`: a row is its columns, and where it has been. -/
structure Row where
  columns : Fields
  origins : List String := []
  deriving DecidableEq

/-- `row[column]` -/
def Row.get (row : Row) (column : String) : Option Value := row.columns.get column

/-- `withOrigins`: with nowhere to have been, the same row. -/
def Row.withOrigins (row : Row) (origins : List String) : Row :=
  if origins.isEmpty then row else { row with origins := origins }

/-! ## `JSON.stringify` -/

def ofList : List Json → JsonItems
  | [] => .nil
  | head :: tail => .cons head (ofList tail)

/-- `Buffer.prototype.toJSON` -/
def bufferJson (data : List (BitVec 8)) : Json :=
  .object (.cons "type" (.string "Buffer")
    (.cons "data" (.array (ofList (data.map fun b => .number b.toNat))) .nil))

mutual

/-- `JSON.stringify` of an array's element. It throws on a `bigint`; `undefined`, a symbol and a
number that is not finite are written as `null`. -/
def stringify : Value → Option Json
  | .undefined => some .null
  | .null => some .null
  | .bool b => some (.bool b)
  | .number (.finite q) => some (.number q)
  | .number .negativeZero => some (.number 0)
  | .number _ => some .null
  | .bigint _ => none
  | .string s => some (.string s)
  | .date iso => some (.string iso)
  | .invalidDate => some .null
  | .bytes data => some (bufferJson data)
  | .array items => (stringifyItems items).map .array
  | .object fields => (stringifyFields fields).map .object
  | .wrapper _ => some (.object .nil)
  | .jsonable json => stringify json
  | .unchanged => some .null

def stringifyItems : Items → Option JsonItems
  | .nil => some .nil
  | .cons head tail =>
    (stringify head).bind fun h => (stringifyItems tail).map fun t => .cons h t

/-- A property that holds `undefined` or a symbol is left out. -/
def stringifyFields : Fields → Option JsonFields
  | .nil => some .nil
  | .cons name value rest =>
    if value = .unchanged ∨ value = .undefined then stringifyFields rest
    else (stringify value).bind fun v => (stringifyFields rest).map fun r => .cons name v r

end

mutual

/-- Is there a `bigint` in it? -/
def Value.hasBigint : Value → Bool
  | .bigint _ => true
  | .jsonable json => json.hasBigint
  | .array items => items.hasBigint
  | .object fields => fields.hasBigint
  | _ => false

def Items.hasBigint : Items → Bool
  | .nil => false
  | .cons head tail => head.hasBigint || tail.hasBigint

def Fields.hasBigint : Fields → Bool
  | .nil => false
  | .cons _ value rest => value.hasBigint || rest.hasBigint

end

mutual

/-- `JSON.stringify` throws on a `bigint`, and on nothing else. -/
theorem stringify_isSome (v : Value) : (stringify v).isSome = !v.hasBigint := by
  cases v with
  | number n => cases n <;> simp [stringify, Value.hasBigint]
  | jsonable json => simp [stringify, Value.hasBigint, stringify_isSome json]
  | array items => simp [stringify, Value.hasBigint, stringifyItems_isSome items]
  | object fields => simp [stringify, Value.hasBigint, stringifyFields_isSome fields]
  | _ => simp [stringify, Value.hasBigint]

theorem stringifyItems_isSome (items : Items) :
    (stringifyItems items).isSome = !items.hasBigint := by
  cases items with
  | nil => simp [stringifyItems, Items.hasBigint]
  | cons head tail =>
    have hhead := stringify_isSome head
    have htail := stringifyItems_isSome tail
    cases hh : stringify head <;> simp_all [stringifyItems, Items.hasBigint]

theorem stringifyFields_isSome (fields : Fields) :
    (stringifyFields fields).isSome = !fields.hasBigint := by
  cases fields with
  | nil => simp [stringifyFields, Fields.hasBigint]
  | cons name value rest =>
    have hvalue := stringify_isSome value
    have hrest := stringifyFields_isSome rest
    by_cases left : value = .unchanged ∨ value = .undefined
    · rcases left with rfl | rfl <;>
        simp [stringifyFields, Fields.hasBigint, Value.hasBigint, hrest]
    · cases hv : stringify value <;> simp_all [stringifyFields, Fields.hasBigint]

end

/-! ## `JSON.parse` -/

mutual

def parsed : Json → Value
  | .null => .null
  | .bool b => .bool b
  | .number q => .number (.finite q)
  | .string s => .string s
  | .array items => .array (parsedItems items)
  | .object fields => .object (parsedFields fields)

def parsedItems : JsonItems → Items
  | .nil => .nil
  | .cons head tail => .cons (parsed head) (parsedItems tail)

def parsedFields : JsonFields → Fields
  | .nil => .nil
  | .cons name value rest => .cons name (parsed value) (parsedFields rest)

end

mutual

/-- What was parsed is written as the text it was parsed from. -/
theorem stringify_parsed (j : Json) : stringify (parsed j) = some j := by
  cases j with
  | null => rfl
  | bool b => rfl
  | number q => rfl
  | string s => rfl
  | array items => simp [parsed, stringify, stringifyItems_parsed items]
  | object fields => simp [parsed, stringify, stringifyFields_parsed fields]

theorem stringifyItems_parsed (items : JsonItems) :
    stringifyItems (parsedItems items) = some items := by
  cases items with
  | nil => rfl
  | cons head tail =>
    simp [parsedItems, stringifyItems, stringify_parsed head, stringifyItems_parsed tail]

theorem stringifyFields_parsed (fields : JsonFields) :
    stringifyFields (parsedFields fields) = some fields := by
  cases fields with
  | nil => rfl
  | cons name value rest =>
    have kept : ¬ (parsed value = .unchanged ∨ parsed value = .undefined) := by
      cases value <;> simp [parsed]
    simp [parsedFields, stringifyFields, kept, stringify_parsed value, stringifyFields_parsed rest]

end

/-- The own property of that name. -/
def JsonFields.get : JsonFields → String → Option Json
  | .nil, _ => none
  | .cons name value rest, column => if name = column then some value else JsonFields.get rest column

end Syncle.Js
