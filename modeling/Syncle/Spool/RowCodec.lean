import Syncle.Js.Value
import Syncle.Lib.Base64

/-!
# The row codec (`row-codec.ts`)

Rows that have to be stored and written later are encoded as JSON without losing what a value is:
bytes, dates and big integers are tagged on the way in and rebuilt on the way out. A tag is an
object with one property; a genuine object that looks like one is escaped under `$literal`. What is
encoded is JSON text, in which a negative zero is a zero.

An object is built up by `out[k] = …`, and JavaScript takes one name otherwise: an assignment to
`__proto__` sets the prototype and leaves no property behind.
-/

namespace Syncle.Spool

open Js

/-- `TAGS` -/
def tags : List String := ["$bytes", "$date", "$bigint", "$literal", "$unchanged"]

def looksLikeTag : Fields → Bool
  | .cons name _ .nil => tags.contains name
  | _ => false

/-- `value.toString()` of a `bigint` -/
def bigintText (n : Int) : String := toString n

/-- A run of decimal digits. -/
def digitsValue (ds : List Char) : Option ℕ :=
  if ds.all Char.isDigit && !ds.isEmpty then some (Nat.ofDigitChars 10 ds 0) else none

/-- `BigInt(text)`: it throws on anything but an integer. -/
def readBigint (text : String) : Option Int :=
  match text.toList with
  | '-' :: ds => (digitsValue ds).map fun (n : ℕ) => -(n : Int)
  | ds => (digitsValue ds).map fun (n : ℕ) => (n : Int)

/-- `out[name] = value`, on an object that has no such property yet. -/
def assign (name : String) (value : Value) (rest : Fields) : Fields :=
  if name = "__proto__" then rest else .cons name value rest

def assignJson (name : String) (value : Json) (rest : JsonFields) : JsonFields :=
  if name = "__proto__" then rest else .cons name value rest

def tagged (tag : String) (payload : Json) : Json := .object (.cons tag payload .nil)

mutual

def encodeValue : Value → Json
  | .unchanged => tagged "$unchanged" (.bool true)
  | .null | .undefined => .null
  | .bigint n => tagged "$bigint" (.string (bigintText n))
  | .number (.finite q) => .number q
  | .number .negativeZero => .number 0
  | .number .nan => tagged "$literal" (.string "NaN")
  | .number (.infinity negative) =>
    tagged "$literal" (.string (if negative then "-Infinity" else "Infinity"))
  | .string s => .string s
  | .bool b => .bool b
  | .date iso => tagged "$date" (.string iso)
  | .invalidDate => .null
  | .bytes data => tagged "$bytes" (.string (String.ofList (Lib.Base64.encode data)))
  | .array items => .array (encodeItems items)
  | .object fields =>
    if looksLikeTag fields then tagged "$literal" (.object (encodeFields fields))
    else .object (encodeFields fields)
  -- driver wrapper types: whatever JSON form they define
  | .jsonable json => encodeValue json
  | .wrapper text => .string text

def encodeItems : Items → JsonItems
  | .nil => .nil
  | .cons head tail => .cons (encodeValue head) (encodeItems tail)

def encodeFields : Fields → JsonFields
  | .nil => .nil
  | .cons name value rest => assignJson name (encodeValue value) (encodeFields rest)

end

/-- What a tag's payload stands for: none where it is no tag after all, and the inner none where
rebuilding the value throws. `inner` is the payload's own properties as data, if it is an object. -/
def untag (tag : String) (payload : Json) (inner : Option (Option Fields)) :
    Option (Option Value) :=
  if tag = "$unchanged" then some (some .unchanged)
  else
    match payload with
    | .string text =>
      if tag = "$bytes" then some ((Lib.Base64.decode text.toList).map .bytes)
      else if tag = "$date" then some (some (.date text))
      else if tag = "$bigint" then some ((readBigint text).map .bigint)
      else if tag = "$literal" then
        if text = "NaN" then some (some (.number .nan))
        else if text = "Infinity" then some (some (.number (.infinity false)))
        else if text = "-Infinity" then some (some (.number (.infinity true)))
        else none
      else none
    | _ => if tag = "$literal" then inner.map fun fields => fields.map .object else none

mutual

/-- `decodeValue`; none where it throws. -/
def decodeValue : Json → Option Value
  | .null => some .null
  | .bool b => some (.bool b)
  | .number q => some (.number (.finite q))
  | .string s => some (.string s)
  | .array items => (decodeItems items).map .array
  | .object fields =>
    match soleTag fields with
    | some value => value
    | none => (decodeFields fields).map .object

def decodeItems : JsonItems → Option Items
  | .nil => some .nil
  | .cons head tail =>
    (decodeValue head).bind fun h => (decodeItems tail).map fun t => .cons h t

def decodeFields : JsonFields → Option Fields
  | .nil => some .nil
  | .cons name value rest =>
    (decodeValue value).bind fun v => (decodeFields rest).map fun r => assign name v r

/-- Is it a tag? -/
def soleTag : JsonFields → Option (Option Value)
  | .cons name payload .nil => untag name payload (dataFields payload)
  | _ => none

/-- The properties of an escaped object: they are data, not tags. -/
def dataFields : Json → Option (Option Fields)
  | .object fields => some (decodeFields fields)
  | _ => none

end

/-- `encodeRows` -/
def encodeRows (rows : List Row) : Json :=
  .array (ofList (rows.map fun row => encodeValue (.object row.columns)))

/-- One stored row; none where it is not an object. -/
def decodeRow (json : Json) : Option Row :=
  match decodeValue json with
  | some (.object columns) => some { columns := columns }
  | _ => none

def rowList : JsonItems → Option (List Row)
  | .nil => some []
  | .cons head tail => (decodeRow head).bind fun row => (rowList tail).map fun rows => row :: rows

/-- `decodeRows`; none where it throws. -/
def decodeRows : Json → Option (List Row)
  | .array items => rowList items
  | _ => none

/-! ## What comes out -/

theorem digitsValue_toDigits (n : ℕ) : digitsValue (Nat.toDigits 10 n) = some n := by
  have digits : (Nat.toDigits 10 n).all Char.isDigit = true := by
    rw [List.all_eq_true]
    intro c hc
    exact Nat.isDigit_of_mem_toDigits (by decide) (by decide) hc
  simp [digitsValue, digits, Nat.toDigits_ne_nil]

theorem readBigint_bigintText (n : Int) : readBigint (bigintText n) = some n := by
  by_cases nonneg : 0 ≤ n
  · have text : (bigintText n).toList = Nat.toDigits 10 n.toNat := by
      rw [bigintText, Int.toString_eq_repr, Int.repr_eq_if, if_pos nonneg, Nat.toList_repr]
    have value := digitsValue_toDigits n.toNat
    unfold readBigint
    rw [text]
    split
    · next ds hd =>
      -- a digit is not the sign
      have sign : '-' ∈ Nat.toDigits 10 n.toNat := by simp [hd]
      have hc := Nat.isDigit_of_mem_toDigits (by decide) (by decide) sign
      exact absurd hc (by decide)
    · rw [value, Option.map_some, Int.toNat_of_nonneg nonneg]
  · have text : (bigintText n).toList = '-' :: Nat.toDigits 10 (-n).toNat := by
      rw [bigintText, Int.toString_eq_repr, Int.repr_eq_if, if_neg nonneg, String.toList_append,
        Nat.toList_repr]
      rfl
    unfold readBigint
    rw [text]
    simp only [digitsValue_toDigits, Option.map_some, Option.some.injEq]
    omega

mutual

/-- Can the value be rebuilt? No property, at any depth, is called `__proto__`, and none of what JSON
has a stand-in for is in it: `undefined`, a negative zero, an invalid date, a driver's own object. -/
def survives : Value → Bool
  | .array items => survivesItems items
  | .object fields => survivesFields fields
  | .number .negativeZero => false
  | .undefined | .invalidDate | .wrapper _ | .jsonable _ => false
  | _ => true

def survivesItems : Items → Bool
  | .nil => true
  | .cons head tail => survives head && survivesItems tail

def survivesFields : Fields → Bool
  | .nil => true
  | .cons name value rest => (name ≠ "__proto__") && survives value && survivesFields rest

end

theorem encodeFields_sole {fields : Fields} (kept : survivesFields fields) {name : String}
    {payload : Json} (h : encodeFields fields = .cons name payload .nil) :
    ∃ value, fields = .cons name value .nil := by
  cases fields with
  | nil => cases h
  | cons field value rest =>
    simp only [survivesFields, Bool.and_eq_true, decide_eq_true_eq] at kept
    simp only [encodeFields, assignJson, if_neg kept.1.1] at h
    obtain ⟨rfl, -, hrest⟩ := JsonFields.cons.inj h
    cases rest with
    | nil => exact ⟨value, rfl⟩
    | cons other _ _ =>
      simp only [survivesFields, Bool.and_eq_true, decide_eq_true_eq] at kept
      simp only [encodeFields, assignJson, if_neg kept.2.1.1] at hrest
      cases hrest

theorem untag_of_not_mem {tag : String} {payload : Json} {inner : Option (Option Fields)}
    (h : tags.contains tag = false) : untag tag payload inner = none := by
  simp only [tags, List.contains_eq_mem, List.mem_cons, List.not_mem_nil, or_false, not_or,
    decide_eq_false_iff_not] at h
  obtain ⟨bytes, date, bigint, literal, unchanged⟩ := h
  cases payload <;> simp [untag, bytes, date, bigint, literal, unchanged]

/-- A genuine object that is not escaped is read as the object it is. -/
theorem soleTag_encodeFields {fields : Fields} (kept : survivesFields fields)
    (genuine : looksLikeTag fields = false) : soleTag (encodeFields fields) = none := by
  cases h : encodeFields fields with
  | nil => rfl
  | cons name payload rest =>
    cases rest with
    | cons _ _ _ => rfl
    | nil =>
      obtain ⟨value, rfl⟩ := encodeFields_sole kept h
      exact untag_of_not_mem genuine

mutual

/-- **What survives comes out as it went in.** -/
theorem decodeValue_encodeValue (v : Value) (kept : survives v) :
    decodeValue (encodeValue v) = some v := by
  cases v with
  | null => rfl
  | bool b => rfl
  | number n =>
    cases n with
    | finite q => rfl
    | negativeZero => cases kept
    | nan => rfl
    | infinity negative => cases negative <;> rfl
  | bigint n =>
    simp [encodeValue, tagged, decodeValue, soleTag, untag, readBigint_bigintText]
  | string s => rfl
  | date iso => rfl
  | bytes data =>
    simp [encodeValue, tagged, decodeValue, soleTag, untag, Lib.Base64.decode_encode]
  | array items =>
    simp [encodeValue, decodeValue, decodeItems_encodeItems items kept]
  | object fields =>
    have hfields := decodeFields_encodeFields fields kept
    cases genuine : looksLikeTag fields with
    | true =>
      simp [encodeValue, genuine, tagged, decodeValue, soleTag, dataFields, untag, hfields]
    | false =>
      simp [encodeValue, genuine, decodeValue, soleTag_encodeFields kept genuine, hfields]
  | unchanged => rfl
  | undefined | invalidDate | wrapper _ | jsonable _ => cases kept

theorem decodeItems_encodeItems (items : Items) (kept : survivesItems items) :
    decodeItems (encodeItems items) = some items := by
  cases items with
  | nil => rfl
  | cons head tail =>
    simp only [survivesItems, Bool.and_eq_true] at kept
    simp [encodeItems, decodeItems, decodeValue_encodeValue head kept.1,
      decodeItems_encodeItems tail kept.2]

theorem decodeFields_encodeFields (fields : Fields) (kept : survivesFields fields) :
    decodeFields (encodeFields fields) = some fields := by
  cases fields with
  | nil => rfl
  | cons name value rest =>
    simp only [survivesFields, Bool.and_eq_true, decide_eq_true_eq] at kept
    simp [encodeFields, assignJson, kept.1.1, decodeFields, assign,
      decodeValue_encodeValue value kept.1.2, decodeFields_encodeFields rest kept.2]

end

/-! ## Nothing else can come out -/

theorem survivesFields_assign {name : String} {value : Value} {rest : Fields}
    (hvalue : survives value) (hrest : survivesFields rest) :
    survivesFields (assign name value rest) := by
  unfold assign
  split
  · exact hrest
  · next genuine => simp [survivesFields, genuine, hvalue, hrest]

theorem survives_untag {tag : String} {payload : Json} {inner : Option (Option Fields)} {v : Value}
    (hinner : ∀ fields, inner = some (some fields) → survivesFields fields)
    (h : untag tag payload inner = some (some v)) : survives v := by
  unfold untag at h
  split at h
  · cases h
    rfl
  · cases payload with
    | string text =>
      -- the values a text stands for have no properties
      simp only at h
      split at h
      · obtain ⟨data, -, rfl⟩ := Option.map_eq_some_iff.mp (Option.some.inj h)
        rfl
      · split at h
        · cases h
          rfl
        · split at h
          · obtain ⟨n, -, rfl⟩ := Option.map_eq_some_iff.mp (Option.some.inj h)
            rfl
          · grind [survives]
    | null | bool _ | number _ | array _ | object _ =>
      simp only at h
      split at h
      · obtain ⟨fields?, hinner', hv⟩ := Option.map_eq_some_iff.mp h
        obtain ⟨fields, rfl, rfl⟩ := Option.map_eq_some_iff.mp hv
        exact hinner fields hinner'
      · cases h

mutual

theorem survives_of_decodeValue (j : Json) {v : Value} (h : decodeValue j = some v) :
    survives v := by
  cases j with
  | null | bool _ | number _ | string _ =>
    simp only [decodeValue, Option.some.injEq] at h
    subst h
    rfl
  | array items =>
    simp only [decodeValue, Option.map_eq_some_iff] at h
    obtain ⟨decoded, hitems, rfl⟩ := h
    exact survivesItems_of_decodeItems items hitems
  | object fields =>
    simp only [decodeValue] at h
    split at h
    · next value hsole => exact survives_of_soleTag fields (hsole.trans (congrArg some h))
    · obtain ⟨decoded, hfields, rfl⟩ := Option.map_eq_some_iff.mp h
      exact survivesFields_of_decodeFields fields hfields

theorem survivesItems_of_decodeItems (items : JsonItems) {out : Items}
    (h : decodeItems items = some out) : survivesItems out := by
  cases items with
  | nil =>
    cases h
    rfl
  | cons head tail =>
    simp only [decodeItems, Option.bind_eq_some_iff, Option.map_eq_some_iff] at h
    obtain ⟨first, hhead, more, htail, rfl⟩ := h
    simp [survivesItems, survives_of_decodeValue head hhead, survivesItems_of_decodeItems tail htail]

theorem survivesFields_of_decodeFields (fields : JsonFields) {out : Fields}
    (h : decodeFields fields = some out) : survivesFields out := by
  cases fields with
  | nil =>
    cases h
    rfl
  | cons name value rest =>
    simp only [decodeFields, Option.bind_eq_some_iff, Option.map_eq_some_iff] at h
    obtain ⟨first, hvalue, more, hrest, rfl⟩ := h
    exact survivesFields_assign (survives_of_decodeValue value hvalue)
      (survivesFields_of_decodeFields rest hrest)

theorem survives_of_soleTag (fields : JsonFields) {v : Value}
    (h : soleTag fields = some (some v)) : survives v := by
  cases fields with
  | nil => cases h
  | cons name payload rest =>
    cases rest with
    | cons _ _ _ => cases h
    | nil => exact survives_untag (fun _ => survivesFields_of_dataFields payload) h

theorem survivesFields_of_dataFields (j : Json) {out : Fields}
    (h : dataFields j = some (some out)) : survivesFields out := by
  cases j with
  | object fields => exact survivesFields_of_decodeFields fields (Option.some.inj h)
  | null | bool _ | number _ | string _ | array _ => cases h

end

/-- **The codec is lossless on exactly the values that survive it.** -/
theorem decodeValue_encodeValue_iff (v : Value) :
    decodeValue (encodeValue v) = some v ↔ survives v :=
  ⟨survives_of_decodeValue _, decodeValue_encodeValue v⟩

/-! ## Rows -/

theorem decodeRow_iff {fields : Fields} {row : Row} :
    decodeRow (encodeValue (.object fields)) = some row ↔
      decodeValue (encodeValue (.object fields)) = some (.object row.columns) ∧ row.origins = [] := by
  obtain ⟨columns, origins⟩ := row
  unfold decodeRow
  constructor
  · intro h
    split at h
    · next read =>
      obtain ⟨rfl, rfl⟩ := Row.mk.inj (Option.some.inj h)
      exact ⟨read, rfl⟩
    · cases h
  · rintro ⟨read, rfl⟩
    rw [read]

/-- A row comes back if and only if each of its values does. -/
theorem decodeRow_encodeValue_iff (fields : Fields) :
    decodeRow (encodeValue (.object fields)) = some { columns := fields } ↔
      survivesFields fields = true := by
  rw [decodeRow_iff, and_iff_left rfl, decodeValue_encodeValue_iff, survives]

/-- **`decodeRows` undoes `encodeRows` on exactly the rows whose values survive.** -/
theorem encodeRows_undone_iff (rows : List Fields) :
    decodeRows (encodeRows (rows.map fun columns => { columns := columns })) =
      some (rows.map fun columns => { columns := columns }) ↔
      ∀ columns ∈ rows, survivesFields columns = true := by
  simp only [encodeRows, decodeRows, List.map_map]
  induction rows with
  | nil => simp [ofList, rowList]
  | cons fields rows ih =>
    rw [List.forall_mem_cons, ← decodeRow_encodeValue_iff, ← ih]
    simp only [List.map_cons, ofList, rowList, Function.comp_apply, Option.bind_eq_some_iff,
      Option.map_eq_some_iff, List.cons.injEq]
    constructor
    · rintro ⟨row, here, rest, more, rfl, rfl⟩
      exact ⟨here, more⟩
    · rintro ⟨here, more⟩
      exact ⟨_, here, _, more, rfl, rfl⟩

/-- A row of one column, whose JSON value has a property of that name. -/
def protoRow : Fields := .cons "settings" (.object (.cons "__proto__" (.bool true) .nil)) .nil

/-- It comes back without the property. -/
theorem proto_left_out :
    decodeRows (encodeRows [{ columns := protoRow }]) =
        some [{ columns := .cons "settings" (.object .nil) .nil }] ∧
      decodeRows (encodeRows [{ columns := protoRow }]) ≠ some [{ columns := protoRow }] := by
  refine ⟨rfl, fun same => ?_⟩
  cases same

end Syncle.Spool
