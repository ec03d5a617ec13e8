import Mathlib.Algebra.Order.Ring.Nat
import Mathlib.Tactic.Common

/-!
# BSON values, and the plain ones they are turned into

`normalizeMongoValue` (`mongodb-adapter.ts`) turns what the driver hands back into values every other
engine's driver can bind. A number of JavaScript's is an integer or something else that is told by
its bits.
-/

namespace Syncle.Mongo

inductive JsNumber where
  | int (n : Int)
  | other (bits : BitVec 64)
  deriving DecidableEq

mutual

inductive Bson where
  | null
  | bool (b : Bool)
  | string (s : String)
  | int32 (n : Int)
  | double (d : JsNumber)
  | long (n : Int)
  /-- by its decimal string -/
  | decimal128 (s : String)
  /-- by its 24 characters of hex -/
  | objectId (hex : String)
  | date (ms : Int)
  | timestamp (n : ℕ)
  | binary (subType : ℕ) (bytes : List (BitVec 8))
  | array (items : BsonItems)
  | document (fields : BsonFields)
  /-- a regular expression, code, the least and greatest key -/
  | wrapper (text : String)

inductive BsonItems where
  | nil
  | cons (head : Bson) (tail : BsonItems)

inductive BsonFields where
  | nil
  | cons (name : String) (value : Bson) (rest : BsonFields)

end

deriving instance DecidableEq for Bson, BsonItems, BsonFields

mutual

/-- A plain JavaScript value. -/
inductive Plain where
  | null
  | bool (b : Bool)
  | string (s : String)
  | number (n : JsNumber)
  | date (ms : Int)
  | buffer (bytes : List (BitVec 8))
  | array (items : PlainItems)
  | object (fields : PlainFields)
  | wrapper (text : String)

inductive PlainItems where
  | nil
  | cons (head : Plain) (tail : PlainItems)

inductive PlainFields where
  | nil
  | cons (name : String) (value : Plain) (rest : PlainFields)

end

deriving instance DecidableEq for Plain, PlainItems, PlainFields

def hexDigit (n : ℕ) : Char := "0123456789abcdef".toList.getD n '0'

def hexByte (b : BitVec 8) : List Char := [hexDigit (b.toNat / 16), hexDigit (b.toNat % 16)]

/-- The canonical text of a UUID. -/
def uuidText (bytes : List (BitVec 8)) : String :=
  let part := fun i n => ((bytes.drop i).take n).flatMap hexByte
  String.ofList (part 0 4 ++ ['-'] ++ part 4 2 ++ ['-'] ++ part 6 2 ++ ['-'] ++ part 8 2 ++ ['-'] ++
    part 10 6)

/-- `Number.isSafeInteger` -/
def isSafeInteger (n : Int) : Bool := decide (n.natAbs ≤ 2 ^ 53 - 1)

mutual

def normalizeMongoValue : Bson → Plain
  | .null => .null
  | .bool b => .bool b
  | .string s => .string s
  | .int32 n => .number (.int n)
  | .double d => .number d
  | .long n => if isSafeInteger n then .number (.int n) else .string (toString n)
  | .decimal128 s => .string s
  | .objectId hex => .string hex
  | .date ms => .date ms
  | .timestamp n => .string (toString n)
  | .binary subType bytes =>
    if subType = 4 ∧ bytes.length = 16 then .string (uuidText bytes) else .buffer bytes
  | .array items => .array (normalizeItems items)
  | .document fields => .object (normalizeFields fields)
  | .wrapper text => .wrapper text

def normalizeItems : BsonItems → PlainItems
  | .nil => .nil
  | .cons head tail => .cons (normalizeMongoValue head) (normalizeItems tail)

def normalizeFields : BsonFields → PlainFields
  | .nil => .nil
  | .cons name value rest => .cons name (normalizeMongoValue value) (normalizeFields rest)

end

/-- The value of a field. -/
def PlainFields.get : PlainFields → String → Option Plain
  | .nil, _ => none
  | .cons name value rest, field => if name = field then some value else rest.get field

end Syncle.Mongo
