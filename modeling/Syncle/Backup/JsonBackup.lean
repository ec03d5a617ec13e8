import Syncle.Js.Value
import Syncle.Lib.Base64

/-!
# A JSON backup (`encodeRowForBackup`, `decodeBytes`, `normalizeForInsert`)

A backup document holds the rows as the driver returned them, but for buffers, which JSON cannot
carry: they are marked. A restore reads the document, takes the marked objects for buffers and every
other object for a JSON value, which is bound as its text.

What a value is in the database is told by `sqlLiteral`, which spells it for the other kind of
dump: a date is its ISO text there too, an object its JSON text. A JSON column holds a JSON value
instead, so a text of letters that the driver returned for one of its strings does not say the same
as the letters themselves; `ColumnKind` tells such a column from the others.

How a server answers is not code of the repository. `Server` asks only two things of it: what a JSON
column makes of a value that is bound bare, and what any other column makes of the text of a JSON
value. One law is assumed: bytes that a JSON column reads as text do not spell an object that stands
for these same bytes, since the text of such an object is longer than they are.
-/

namespace Syncle.Backup

open Js

/-! ## A row -/

/-- A row of a table: its columns in order, and what the driver returned for each. -/
def fieldsOf (columns : List String) (row : String → Value) : Fields :=
  columns.foldr (fun column rest => .cons column (row column) rest) .nil

/-- `encodeRowForBackup`, one value. -/
def encodeForBackup : Value → Value
  | .bytes data =>
    .object (.cons "$bytes" (.string (String.ofList (Lib.Base64.encode data))) .nil)
  | value => value

/-- The row in the document; none where `JSON.stringify` throws. -/
def backupRow (columns : List String) (row : String → Value) : Option JsonFields :=
  stringifyFields (fieldsOf columns fun column => encodeForBackup (row column))

section Restore

variable (byte : Json → BitVec 8)

/-- `Buffer.from(data)`; `byte` cuts an entry down to one. -/
def bufferFrom : JsonItems → List (BitVec 8)
  | .nil => []
  | .cons head tail => byte head :: bufferFrom tail

/-- `Object.keys(value).length === 1` and a `$bytes` that is text. -/
def markedText : JsonFields → Option String
  | .cons name (.string text) .nil => if name = "$bytes" then some text else none
  | _ => none

/-- `decodeBytes`, of a parsed object. -/
def decodeBytes (fields : JsonFields) : Option (List (BitVec 8)) :=
  match markedText fields with
  | some text => some (Lib.Base64.read text)
  | none =>
    match fields.get "type", fields.get "data" with
    | some (.string type), some (.array data) =>
      if type = "Buffer" then some (bufferFrom byte data) else none
    | _, _ => none

/-- What is bound: a value as it is, or the text of a JSON value. -/
inductive Bound where
  | value (v : Value)
  | text (json : Json)
  deriving DecidableEq

/-- `normalizeForInsert`, of what was parsed; a column the document leaves out is `undefined`. -/
def normalizeForInsert : Option Json → Bound
  | none => .value .undefined
  | some (.object fields) =>
    match decodeBytes byte fields with
    | some data => .value (.bytes data)
    | none => .text (.object fields)
  | some (.array items) => .text (.array items)
  | some json => .value (parsed json)

end Restore

/-! ## What is stored -/

/-- A literal of a dump. -/
inductive Literal where
  | null
  | boolean (b : Bool)
  | number (n : Number)
  | integer (n : Int)
  | bytes (data : List (BitVec 8))
  | text (s : String)
  /-- the text of a JSON value -/
  | json (j : Json)
  deriving DecidableEq

/-- `String(value)` of a number: a negative zero is spelled `0`. -/
def spelled : Number → Number
  | .negativeZero => .finite 0
  | n => n

/-- `sqlLiteral`; none where it throws. -/
def sqlLiteral : Value → Option Literal
  | .null | .undefined => some .null
  | .number n => some (.number (spelled n))
  | .bigint n => some (.integer n)
  | .bool b => some (.boolean b)
  | .date iso => some (.text iso)
  | .invalidDate => none
  | .bytes data => some (.bytes data)
  | .string s => some (.text s)
  | .unchanged => some (.text "Symbol(syncle.unchanged)")
  | value => (stringify value).map .json

/-- The two ways a column holds what the driver returned. -/
inductive ColumnKind where
  /-- a JSON value, which the driver parsed (`json`, `jsonb`) -/
  | json
  /-- anything else: an object or an array stands for one of the engine's own types -/
  | other
  deriving DecidableEq

/-- How a server takes what the column's own type did not come from. -/
structure Server where
  /-- what a JSON column holds where a value is bound bare; none where it is refused -/
  bare : Value → Option Json
  /-- an object that stands for bytes is spelled by more letters than there are bytes -/
  longer : ∀ byte data fields, bare (.bytes data) = some (.object fields) →
    decodeBytes byte fields ≠ some data
  /-- what another column holds where the text of a JSON value is bound; none where it is refused -/
  foreign : Json → Option Literal

/-- What the row held where the driver returned the value. -/
def held : ColumnKind → Value → Option Literal
  | .json, .null | .json, .undefined => some .null
  | .json, value => (stringify value).map .json
  | .other, value => sqlLiteral value

/-- What a column holds where it was bound. -/
def Bound.stored (server : Server) : ColumnKind → Bound → Option Literal
  | .json, .value .null => some .null
  | .json, .value .undefined => some .null
  | .json, .value v => (server.bare v).map .json
  | .json, .text json => some (.json json)
  | .other, .value v => sqlLiteral v
  | .other, .text json => server.foreign json

/-- The backup of the row can be written, and what its restore binds is stored as the row was. -/
def RestoresSame (byte : Json → BitVec 8) (server : Server) (kind : String → ColumnKind)
    (columns : List String) (row : String → Value) : Prop :=
  ∃ document, backupRow columns row = some document ∧ ∀ c ∈ columns, ∃ literal,
    held (kind c) (row c) = some literal ∧
      (normalizeForInsert byte (document.get c)).stored server (kind c) = some literal

/-! ## Which values come back -/

/-- `decodeBytes` takes the object for a buffer. -/
def looksLikeBytes (fields : JsonFields) : Bool :=
  (markedText fields).isSome ||
    match fields.get "type", fields.get "data" with
    | some (.string type), some (.array _) => type = "Buffer"
    | _, _ => false

/-- The JSON of an object, or of what its `toJSON` made, comes back to a column of its kind.

A JSON column gets an object and an array as their text, and anything else bare. Any other column
gets an object or an array back where it reads JSON text, and nothing else of an object. -/
def readBack (server : Server) : ColumnKind → Json → Bool
  | .json, .object fields => !looksLikeBytes fields
  | .json, .array _ => true
  | .json, .null => false
  | .json, json => server.bare (parsed json) == some json
  | .other, .object fields =>
    !looksLikeBytes fields && server.foreign (.object fields) == some (.json (.object fields))
  | .other, .array items => server.foreign (.array items) == some (.json (.array items))
  | .other, _ => false

/-- A value that comes back to a column of its kind: JSON has a word for it, and the column reads
what is bound for that word as the value it was. -/
def restorable (server : Server) : ColumnKind → Value → Bool
  | .json, .null | .json, .undefined => true
  | .json, .unchanged => false
  | .json, .bytes data => server.bare (.bytes data) == stringify (.bytes data)
  | .other, .bigint _ | .other, .invalidDate | .other, .unchanged => false
  | .other, .number .nan | .other, .number (.infinity _) => false
  | .other, .null | .other, .undefined | .other, .bool _ | .other, .number _ | .other, .string _
  | .other, .date _ | .other, .bytes _ => true
  | kind, value =>
    match stringify value with
    | some json => readBack server kind json
    | none => false

theorem decodeBytes_isSome (byte : Json → BitVec 8) (fields : JsonFields) :
    (decodeBytes byte fields).isSome = looksLikeBytes fields := by
  unfold decodeBytes looksLikeBytes
  cases markedText fields with
  | some text => rfl
  | none =>
    simp only [Option.isSome_none, Bool.false_or]
    split
    · next type data here there =>
      by_cases buffer : type = "Buffer"
      · simp [buffer]
      · simp [buffer]
    · rfl

/-- What the document has for a column: nothing where there is nothing that JSON writes. -/
def cell (value : Value) : Option Json :=
  if value = .unchanged ∨ value = .undefined then none else stringify value

theorem get_backupRow {columns : List String} {row : String → Value} {document : JsonFields}
    (h : backupRow columns row = some document) (c : String) :
    document.get c = if c ∈ columns then cell (encodeForBackup (row c)) else none := by
  unfold backupRow at h
  induction columns generalizing document with
  | nil =>
    obtain rfl := Option.some.inj h
    rfl
  | cons column columns ih =>
    simp only [fieldsOf, List.foldr_cons, stringifyFields] at h ih
    by_cases left : encodeForBackup (row column) = .unchanged ∨
        encodeForBackup (row column) = .undefined
    · rw [if_pos left] at h
      rw [ih h]
      by_cases here : c = column
      · subst here
        simp [cell, left]
      · simp [here]
    · rw [if_neg left] at h
      obtain ⟨json, written, h⟩ := Option.bind_eq_some_iff.mp h
      obtain ⟨rest, more, rfl⟩ := Option.map_eq_some_iff.mp h
      by_cases here : c = column
      · subst here
        simp [JsonFields.get, cell, left, written]
      · rw [JsonFields.get, if_neg (Ne.symm here), ih more]
        simp [here]

/-- The row can be written where none of its values makes `JSON.stringify` throw. -/
theorem backupRow_isSome (columns : List String) (row : String → Value) :
    (backupRow columns row).isSome ↔ ∀ c ∈ columns, (row c).hasBigint = false := by
  have same : ∀ v, (encodeForBackup v).hasBigint = v.hasBigint := by
    intro v
    cases v <;> rfl
  rw [backupRow, stringifyFields_isSome, Bool.not_eq_true']
  induction columns with
  | nil => simp [fieldsOf, Fields.hasBigint]
  | cons column columns ih =>
    have step : (fieldsOf (column :: columns) fun column => encodeForBackup (row column)).hasBigint =
        ((row column).hasBigint ||
          (fieldsOf columns fun column => encodeForBackup (row column)).hasBigint) := by
      rw [← same (row column)]
      rfl
    rw [step, Bool.or_eq_false_iff, List.forall_mem_cons]
    exact and_congr Iff.rfl ih

/-- What is bound for an object is its JSON text, unless it is taken for a buffer. -/
theorem stored_object (byte : Json → BitVec 8) (server : Server) (kind : ColumnKind)
    (fields : JsonFields) :
    (normalizeForInsert byte (some (.object fields))).stored server kind =
        some (.json (.object fields)) ↔ readBack server kind (.object fields) = true := by
  have taken := decodeBytes_isSome byte fields
  cases bytes : decodeBytes byte fields with
  | none =>
    rw [bytes] at taken
    cases kind with
    | json => simp [normalizeForInsert, bytes, Bound.stored, readBack, ← taken]
    | other => simp [normalizeForInsert, bytes, Bound.stored, readBack, ← taken]
  | some data =>
    rw [bytes] at taken
    cases kind with
    | json =>
      -- the column would have to read the bytes as the longer text of the object
      have apart : server.bare (.bytes data) ≠ some (.object fields) := fun read =>
        server.longer byte data fields read bytes
      simp [normalizeForInsert, bytes, Bound.stored, readBack, ← taken, apart]
    | other => simp [normalizeForInsert, bytes, Bound.stored, readBack, ← taken, sqlLiteral]

/-- What JSON makes of an object of any class comes back where the column reads it so. -/
theorem stored_stringified (byte : Json → BitVec 8) (server : Server) (kind : ColumnKind)
    (json : Json) :
    (normalizeForInsert byte (some json)).stored server kind = some (.json json) ↔
      readBack server kind json = true := by
  cases json with
  | object fields => exact stored_object byte server kind fields
  | array items => cases kind <;> simp [normalizeForInsert, Bound.stored, readBack]
  | null | bool b | number q | string s =>
    cases kind <;> simp [normalizeForInsert, Bound.stored, parsed, sqlLiteral, readBack]

/-- **A value comes back to a column of its kind where it is restorable there, and only there.** -/
theorem cell_iff (byte : Json → BitVec 8) (server : Server) (kind : ColumnKind) (v : Value)
    (small : v.hasBigint = false) :
    (∃ literal, held kind v = some literal ∧
      (normalizeForInsert byte (cell (encodeForBackup v))).stored server kind = some literal) ↔
      restorable server kind v = true := by
  obtain ⟨json, written⟩ : ∃ json, stringify v = some json :=
    Option.isSome_iff_exists.mp (by rw [stringify_isSome, small]; rfl)
  have back := stored_stringified byte server kind json
  cases v with
  | undefined => cases kind <;>
      simp [cell, encodeForBackup, held, sqlLiteral, normalizeForInsert, Bound.stored, restorable]
  | null => cases kind <;> simp [cell, encodeForBackup, held, sqlLiteral, stringify,
      normalizeForInsert, Bound.stored, parsed, restorable]
  | bigint n => cases small
  | unchanged => cases kind <;>
      simp [cell, encodeForBackup, held, sqlLiteral, normalizeForInsert, Bound.stored, restorable,
        stringify]
  | bytes data =>
    -- the mark is read back as the buffer it was made of
    have marked : normalizeForInsert byte (cell (encodeForBackup (.bytes data))) =
        .value (.bytes data) := by
      simp [cell, encodeForBackup, stringify, stringifyFields, normalizeForInsert, decodeBytes,
        markedText, Lib.Base64.read_encode]
    rw [marked]
    cases kind <;> simp [held, Bound.stored, sqlLiteral, restorable, stringify]
  | number n =>
    cases kind with
    | json =>
      simp only [held, written, cell, encodeForBackup, restorable, reduceCtorEq, or_self, if_false,
        Option.map_some, Option.some.injEq, exists_eq_left', back]
    | other =>
      cases n with
      | finite q | negativeZero | nan | infinity negative =>
        simp [cell, encodeForBackup, held, sqlLiteral, stringify, normalizeForInsert, Bound.stored,
          parsed, restorable, spelled]
  | bool b | string s | date iso | invalidDate =>
    cases kind with
    | json =>
      simp only [held, written, cell, encodeForBackup, restorable, reduceCtorEq, or_self, if_false,
        Option.map_some, Option.some.injEq, exists_eq_left', back]
    | other =>
      simp [cell, encodeForBackup, held, sqlLiteral, stringify, normalizeForInsert, Bound.stored,
        parsed, restorable]
  | array _ | object _ | wrapper _ | jsonable _ =>
    -- an object of whatever class: its JSON is in the document, and its text is what is stored
    cases kind <;>
      simp only [cell, encodeForBackup, held, sqlLiteral, written, restorable, reduceCtorEq, or_self,
        if_false, Option.map_some, Option.some.injEq, exists_eq_left', back]

/-- A text in a JSON column comes back only where its bare letters are the JSON text of a string of
these letters. -/
theorem restorable_jsonText (server : Server) (s : String) :
    restorable server .json (.string s) = true ↔
      server.bare (.string s) = some (.string s) := by
  simp [restorable, stringify, readBack, parsed]

/-- A server of JSON columns that take the text `0`, and columns that read no JSON text: PostgreSQL,
as far as the example below asks it. -/
def postgres : Server where
  bare
    | .string text => if text = "0" then some (.number 0) else none
    | .number (.finite q) => some (.number q)
    | .bool b => some (.bool b)
    | _ => none
  longer := nofun
  foreign := fun _ => none

/-- A document column whose value is an object of one property, called `$bytes`. -/
def lookAlike : String → Value := fun _ => .object (.cons "$bytes" (.string "aGk=") .nil)

/-- The text `0` in a JSON column comes back as the number. -/
example : restorable postgres .json (.string "0") = false := by decide

end Syncle.Backup
