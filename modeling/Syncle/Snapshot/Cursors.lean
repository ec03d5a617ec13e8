import Mathlib.Logic.Encodable.Lattice
import Mathlib.Logic.Equiv.List
import Mathlib.Order.RelClasses
import Syncle.Spool.RowCodec

/-!
# The cursor of a copied row, as text (`snapshot-provider.ts`)

A copied row's cursor is a text of its own kind: a mark, the row's position in the read, and what a
resume needs besides as base64 of JSON. The stream that follows the copy has the engine's cursors, in
the engine's own format, and `cursorAfter` orders the one before the other.

JSON has no bigint, so one in a key is written as its digits and read back as text.
-/

namespace Syncle.SnapshotCursors

open Js

/-! ## What JSON carries -/

mutual

/-- The replacer of `formatSnapshotCursor`, on every value of a tree: `toJSON` comes before it. -/
def withDigits : Value → Value
  | .bigint n => .string (Spool.bigintText n)
  | .array items => .array (withDigitsItems items)
  | .object fields => .object (withDigitsFields fields)
  | .jsonable json => withDigits json
  | value => value

def withDigitsItems : Items → Items
  | .nil => .nil
  | .cons head tail => .cons (withDigits head) (withDigitsItems tail)

def withDigitsFields : Fields → Fields
  | .nil => .nil
  | .cons name value rest => .cons name (withDigits value) (withDigitsFields rest)

end

mutual

theorem withDigits_hasBigint (v : Value) : (withDigits v).hasBigint = false := by
  cases v with
  | array items => exact withDigitsItems_hasBigint items
  | object fields => exact withDigitsFields_hasBigint fields
  | jsonable json => exact withDigits_hasBigint json
  | _ => rfl

theorem withDigitsItems_hasBigint (items : Items) : (withDigitsItems items).hasBigint = false := by
  cases items with
  | nil => rfl
  | cons head tail =>
    simp [withDigitsItems, Items.hasBigint, withDigits_hasBigint head,
      withDigitsItems_hasBigint tail]

theorem withDigitsFields_hasBigint (fields : Fields) :
    (withDigitsFields fields).hasBigint = false := by
  cases fields with
  | nil => rfl
  | cons name value rest =>
    simp [withDigitsFields, Fields.hasBigint, withDigits_hasBigint value,
      withDigitsFields_hasBigint rest]

end

mutual

/-- There is nothing for the replacer to do in what came from JSON. -/
theorem withDigits_parsed (j : Json) : withDigits (parsed j) = parsed j := by
  cases j with
  | array items => simp [parsed, withDigits, withDigitsItems_parsed items]
  | object fields => simp [parsed, withDigits, withDigitsFields_parsed fields]
  | _ => rfl

theorem withDigitsItems_parsed (items : JsonItems) :
    withDigitsItems (parsedItems items) = parsedItems items := by
  cases items with
  | nil => rfl
  | cons head tail =>
    simp [parsedItems, withDigitsItems, withDigits_parsed head, withDigitsItems_parsed tail]

theorem withDigitsFields_parsed (fields : JsonFields) :
    withDigitsFields (parsedFields fields) = parsedFields fields := by
  cases fields with
  | nil => rfl
  | cons name value rest =>
    simp [parsedFields, withDigitsFields, withDigits_parsed value, withDigitsFields_parsed rest]

end

/-- `JSON.stringify(value, replacer)`: with no bigint left it does not throw
(`stringify_withDigits`). -/
def written (v : Value) : Json := (stringify (withDigits v)).getD .null

theorem stringify_withDigits (v : Value) : stringify (withDigits v) = some (written v) := by
  have isSome : (stringify (withDigits v)).isSome := by
    rw [stringify_isSome, withDigits_hasBigint]
    rfl
  obtain ⟨json, is⟩ := Option.isSome_iff_exists.mp isSome
  simp [written, is]

/-- What is there of a property's value after JSON. -/
def carried (v : Value) : Value :=
  if withDigits v = .unchanged ∨ withDigits v = .undefined then .undefined else parsed (written v)

/-- **A JSON value comes back as it is.** -/
theorem carried_parsed (j : Json) : carried (parsed j) = parsed j := by
  have there : ¬ (parsed j = .unchanged ∨ parsed j = .undefined) := by
    cases j <;> simp [parsed]
  rw [carried, withDigits_parsed, if_neg there, written, withDigits_parsed, stringify_parsed,
    Option.getD_some]

/-- A property that JSON writes. -/
theorem stringifyFields_kept {name : String} {value : Value} {rest : Fields}
    (kept : ¬ (withDigits value = .unchanged ∨ withDigits value = .undefined)) :
    stringifyFields (withDigitsFields (.cons name value rest)) =
      (stringifyFields (withDigitsFields rest)).map (.cons name (written value)) := by
  rw [withDigitsFields, stringifyFields, if_neg kept, stringify_withDigits, Option.bind_some]

/-! ## The text -/

/-- `KeysetCheckpoint` -/
structure Key where
  column : String
  value : Value
  deriving DecidableEq

structure SnapshotCursor where
  index : ℕ
  key : Option Key
  streamFrom : Option String
  done : Bool
  deriving DecidableEq

/-- How the runtime spells JSON, as the bytes of its UTF-8 text, and reads it. -/
structure Runtime where
  body : Json → List (BitVec 8)
  readBody : List (BitVec 8) → Option Json
  readBody_body : ∀ j, readBody (body j) = some j

/-- `PREFIX` -/
def mark : List Char := ['B', ':']

def isSnapshotCursor (cursor : String) : Bool := mark.isPrefixOf cursor.toList

/-- The object that is written. -/
def bodyOf (c : SnapshotCursor) : Fields :=
  let done := if c.done then .cons "d" (.bool true) .nil else .nil
  let start := .cons "f" (c.streamFrom.elim .null .string) done
  match c.key with
  | some k =>
    .cons "k" (.object (.cons "column" (.string k.column) (.cons "value" k.value .nil))) start
  | none => start

def formatSnapshotCursor (rt : Runtime) (c : SnapshotCursor) : String :=
  String.ofList (mark ++ Nat.toDigits 10 c.index ++ ':' ::
    Lib.Base64.encodeUrl (rt.body (written (.object (bodyOf c)))))

/-- `Number(text)`, of the text of an integer; none where it is negative. -/
def indexOf (text : List Char) : Option ℕ :=
  if text = [] then some 0
  else (Spool.readBigint (String.ofList text)).bind fun n => if n < 0 then none else some n.toNat

def keyOf : Option Json → Option Key
  | some (.object fields) =>
    match fields.get "column" with
    | some (.string column) =>
      some { column := column, value := (fields.get "value").elim .undefined parsed }
    | _ => none
  | _ => none

def textOf : Option Json → Option String
  | some (.string s) => some s
  | _ => none

/-- What was written, of any JSON: a property of `null` throws, of a scalar it is `undefined`. -/
def cursorOf (index : ℕ) : Json → Option SnapshotCursor
  | .null => none
  | .object fields =>
    some
      { index := index, key := keyOf (fields.get "k"), streamFrom := textOf (fields.get "f")
        done := decide (fields.get "d" = some (.bool true)) }
  | _ => some { index := index, key := none, streamFrom := none, done := false }

def parseSnapshotCursor (rt : Runtime) (cursor : String) : Option SnapshotCursor :=
  if isSnapshotCursor cursor then
    let rest := cursor.toList.drop 2
    (rest.idxOf? ':').bind fun sep =>
      (indexOf (rest.take sep)).bind fun index =>
        (rt.readBody (Lib.Base64.read (String.ofList (rest.drop (sep + 1))))).bind (cursorOf index)
  else none

/-! ## There and back -/

section Text

variable (rt : Runtime) (c : SnapshotCursor)

theorem indexOf_digits (n : ℕ) : indexOf (Nat.toDigits 10 n) = some n := by
  have text : String.ofList (Nat.toDigits 10 n) = Spool.bigintText n := by
    apply String.toList_inj.mp
    rw [String.toList_ofList, Spool.bigintText, Int.toString_eq_repr, Int.repr_eq_if,
      if_pos (Int.natCast_nonneg n), Nat.toList_repr, Int.toNat_natCast]
  rw [indexOf, if_neg Nat.toDigits_ne_nil, text, Spool.readBigint_bigintText, Option.bind_some,
    if_neg (Int.not_lt.mpr (Int.natCast_nonneg n)), Int.toNat_natCast]

/-- The position ends where the rest begins. -/
theorem colon_not_mem_digits (n : ℕ) : ':' ∉ Nat.toDigits 10 n := by
  intro mem
  have digit := Nat.isDigit_of_mem_toDigits (by decide) (by decide) mem
  exact absurd digit (by decide)

theorem idxOf?_colon (front back : List Char) (h : ':' ∉ front) :
    (front ++ ':' :: back).idxOf? ':' = some front.length := by
  induction front with
  | nil => simp [List.idxOf?_cons]
  | cons x front ih =>
    have other : (x == ':') = false := by
      refine beq_eq_false_iff_ne.mpr ?_
      intro is
      exact h (is ▸ List.mem_cons_self)
    have rest := ih fun mem => h (List.mem_cons_of_mem _ mem)
    simp [List.idxOf?_cons, other, rest]

/-- The object's own two properties, without a key. -/
def startOf (streamFrom : Option String) (done : Bool) : JsonFields :=
  .cons "f" (streamFrom.elim .null .string) (if done then .cons "d" (.bool true) .nil else .nil)

/-- The key, as JSON has it: a value that is nothing JSON writes is left out. -/
def keyJson (k : Key) : Json :=
  .object (.cons "column" (.string k.column)
    (if withDigits k.value = .unchanged ∨ withDigits k.value = .undefined then .nil
      else .cons "value" (written k.value) .nil))

theorem written_body : written (.object (bodyOf c)) = .object
    (match c.key with
      | some k => .cons "k" (keyJson k) (startOf c.streamFrom c.done)
      | none => startOf c.streamFrom c.done) := by
  obtain ⟨index, key, streamFrom, done⟩ := c
  have start : stringifyFields (withDigitsFields (.cons "f" (streamFrom.elim .null .string)
      (if done then .cons "d" (.bool true) .nil else .nil))) = some (startOf streamFrom done) := by
    cases streamFrom with
    | none => cases done <;> rfl
    | some text => cases done <;> rfl
  cases key with
  | none =>
    simp only [written, bodyOf, withDigits, stringify, start]
    rfl
  | some k =>
    have value : stringifyFields (withDigitsFields (.cons "value" k.value .nil)) =
        some (if withDigits k.value = .unchanged ∨ withDigits k.value = .undefined then .nil
          else .cons "value" (written k.value) .nil) := by
      by_cases left : withDigits k.value = .unchanged ∨ withDigits k.value = .undefined
      · simp [withDigitsFields, stringifyFields, left]
      · simp [withDigitsFields, stringifyFields, left, stringify_withDigits]
    have inner : stringify (withDigits (.object (.cons "column" (.string k.column)
        (.cons "value" k.value .nil)))) = some (keyJson k) := by
      rw [withDigits, stringify, stringifyFields_kept (by simp [withDigits]), value]
      rfl
    rw [written, bodyOf, withDigits, stringify]
    simp only
    rw [stringifyFields_kept (by simp [withDigits]), start, written, inner]
    rfl

/-- What comes back from the object: the key as JSON carries it, and the rest as it was. -/
theorem cursorOf_written : cursorOf c.index (written (.object (bodyOf c))) =
    some { c with key := c.key.map fun k => { k with value := carried k.value } } := by
  rw [written_body]
  obtain ⟨index, key, streamFrom, done⟩ := c
  have start : textOf ((startOf streamFrom done).get "f") = streamFrom ∧
      decide ((startOf streamFrom done).get "d" = some (.bool true)) = done ∧
        (startOf streamFrom done).get "k" = none := by
    cases streamFrom with
    | none => cases done <;> exact ⟨rfl, rfl, rfl⟩
    | some text => cases done <;> exact ⟨rfl, rfl, rfl⟩
  obtain ⟨text, end_, none_⟩ := start
  cases key with
  | none =>
    simp only [cursorOf, text, end_, none_]
    rfl
  | some k =>
    have back : keyOf (some (keyJson k)) = some { column := k.column, value := carried k.value } := by
      unfold keyJson carried
      split <;> rfl
    have here : (JsonFields.cons "k" (keyJson k) (startOf streamFrom done)).get "k" =
        some (keyJson k) := rfl
    have past : ∀ name, name ≠ "k" → (JsonFields.cons "k" (keyJson k)
        (startOf streamFrom done)).get name = (startOf streamFrom done).get name := by
      intro name other
      simp [JsonFields.get, other.symm]
    simp only [cursorOf, here, past "f" (by decide), past "d" (by decide), text, end_, back]
    rfl

/-- **Parsing gives back what was formatted.** -/
theorem parse_format : parseSnapshotCursor rt (formatSnapshotCursor rt c) =
    some { c with key := c.key.map fun k => { k with value := carried k.value } } := by
  have snapshot : isSnapshotCursor (formatSnapshotCursor rt c) = true := by
    simp [isSnapshotCursor, formatSnapshotCursor, mark, List.isPrefixOf]
  have rest : (formatSnapshotCursor rt c).toList.drop 2 = Nat.toDigits 10 c.index ++ ':' ::
      Lib.Base64.encodeUrl (rt.body (written (.object (bodyOf c)))) := by
    simp [formatSnapshotCursor, mark]
  have sep := idxOf?_colon _ (Lib.Base64.encodeUrl (rt.body (written (.object (bodyOf c)))))
    (colon_not_mem_digits c.index)
  simp only [parseSnapshotCursor, snapshot, if_true, rest, sep, Option.bind_some]
  rw [List.take_left, indexOf_digits, Option.bind_some, List.drop_length_add_append, List.drop_one,
    List.tail_cons, Lib.Base64.read_encodeUrl, rt.readBody_body, Option.bind_some, cursorOf_written]

end Text

/-! ## The order -/

/-- Two orders, one after the other, are a strict weak order when each of them is. -/
theorem isStrictWeakOrder_lex {α β : Type*} {r : α → α → Prop} {s : β → β → Prop}
    [IsStrictWeakOrder α r] :
    IsStrictWeakOrder (α ⊕ β) (Sum.Lex r s) ↔ IsStrictWeakOrder β s := by
  constructor
  · intro both
    refine { irrefl := fun b h => ?_, trans := fun a b c h h' => ?_, incomp_trans := ?_ }
    · exact irrefl (r := Sum.Lex r s) (Sum.inr b) (Sum.Lex.inr h)
    · have through := IsTrans.trans (r := Sum.Lex r s) (.inr a) (.inr b) (.inr c)
        (Sum.lex_inr_inr.mpr h) (Sum.lex_inr_inr.mpr h')
      exact Sum.lex_inr_inr.mp through
    · intro a b c h h'
      simpa using both.incomp_trans (.inr a) (.inr b) (.inr c) (by simpa using h) (by simpa using h')
  · intro second
    refine { irrefl := ?_, trans := ?_, incomp_trans := ?_ }
    · rintro (a | b) h
      · exact irrefl (r := r) a (Sum.lex_inl_inl.mp h)
      · exact irrefl (r := s) b (Sum.lex_inr_inr.mp h)
    · rintro (a | a) (b | b) (c | c) h h' <;> simp_all
      · exact IsTrans.trans (r := r) a b c h h'
      · exact IsTrans.trans (r := s) a b c h h'
    · rintro (a | a) (b | b) (c | c) h h' <;> simp_all
      · exact IsStrictWeakOrder.incomp_trans a b c h h'
      · exact IsStrictWeakOrder.incomp_trans a b c h h'

/-- `SnapshotCdcProvider.cursorAfter`, over the engine's own. -/
def cursorAfter (rt : Runtime) (inner : String → String → Bool) (a : String) :
    Option String → Bool
  | none => true
  | some b =>
    match parseSnapshotCursor rt a, parseSnapshotCursor rt b with
    | some copyA, some copyB => decide (copyB.index < copyA.index)
    | some _, none => false
    | none, some _ => true
    | none, none => if isSnapshotCursor b then true else inner a b

/-- A cursor of the engine's own: it does not begin like one of the copy's. -/
abbrev StreamCursor := { cursor : String // isSnapshotCursor cursor = false }

inductive Position where
  | snapshot (c : SnapshotCursor)
  | stream (s : StreamCursor)
  deriving DecidableEq

def Position.text (rt : Runtime) : Position → String
  | snapshot c => formatSnapshotCursor rt c
  | stream s => s.val

/-- The later position passes the duplicate test against the earlier one. -/
def before (rt : Runtime) (inner : String → String → Bool) (p q : Position) : Prop :=
  cursorAfter rt inner (q.text rt) (some (p.text rt)) = true

/-- `copyThenFollow`: each read hands its rows over from where the one before it stopped, and behind
the last of them comes the end marker. -/
def handOver (streamFrom : Option String) : ℕ → List (List (Option Key)) → List SnapshotCursor
  | next, [] => [{ index := next, key := none, streamFrom := streamFrom, done := true }]
  | next, read :: reads =>
    (read.mapIdx fun i key =>
      { index := next + i, key := key, streamFrom := streamFrom, done := false }) ++
      handOver streamFrom (next + read.length) reads

/-- What is handed over on the way, with the place that the stream starts from: the one resumed with,
or the one just taken. -/
def copyThenFollow (resume : Option SnapshotCursor) (captured : Option String)
    (reads : List (List (Option Key))) : List SnapshotCursor :=
  match resume with
  | some c => handOver c.streamFrom (c.index + 1) reads
  | none => handOver captured 0 reads

section Order

variable {rt : Runtime} {inner : String → String → Bool} {c d : SnapshotCursor} {s t : StreamCursor}

theorem parse_stream (rt : Runtime) (s : StreamCursor) : parseSnapshotCursor rt s.val = none := by
  rw [parseSnapshotCursor, s.property]
  rfl

@[simp] theorem before_snapshot :
    before rt inner (.snapshot c) (.snapshot d) ↔ c.index < d.index := by
  simp [before, cursorAfter, Position.text, parse_format]

@[simp] theorem before_end : before rt inner (.snapshot c) (.stream s) := by
  simp [before, cursorAfter, Position.text, parse_format, parse_stream]

@[simp] theorem not_before_start : ¬ before rt inner (.stream s) (.snapshot c) := by
  simp [before, cursorAfter, Position.text, parse_format, parse_stream]

@[simp] theorem before_stream :
    before rt inner (.stream s) (.stream t) ↔ inner t.val s.val = true := by
  simp [before, cursorAfter, Position.text, parse_stream, s.property]

/-- Every position of a copy that is handed over lies at or behind the first. -/
theorem index_of_handOver {streamFrom : Option String} {next : ℕ} {reads : List (List (Option Key))}
    (mem : c ∈ handOver streamFrom next reads) : next ≤ c.index := by
  induction reads generalizing next with
  | nil =>
    obtain rfl := List.mem_singleton.mp mem
    exact le_rfl
  | cons read reads ih =>
    rcases List.mem_append.mp mem with row | later
    · obtain ⟨i, _, rfl⟩ := List.mem_mapIdx.mp row
      exact Nat.le_add_right next i
    · exact (Nat.le_add_right next read.length).trans (ih later)

/-- **A copy's positions are in the order they are handed over in**, the end marker last. -/
theorem handOver_sorted (streamFrom : Option String) (next : ℕ) (reads : List (List (Option Key))) :
    (handOver streamFrom next reads).Pairwise fun c d => c.index < d.index := by
  induction reads generalizing next with
  | nil => exact List.pairwise_singleton _ _
  | cons read reads ih =>
    refine List.pairwise_append.mpr ⟨?_, ih _, fun c row d later => ?_⟩
    · rw [List.pairwise_iff_getElem]
      intro i j hi hj lt
      simp only [List.getElem_mapIdx]
      omega
    · obtain ⟨i, hi, rfl⟩ := List.mem_mapIdx.mp row
      have := index_of_handOver later
      simp only
      omega

theorem copyThenFollow_sorted (resume : Option SnapshotCursor) (captured : Option String)
    (reads : List (List (Option Key))) :
    (copyThenFollow resume captured reads).Pairwise fun c d => c.index < d.index := by
  cases resume with
  | none => exact handOver_sorted captured 0 reads
  | some c => exact handOver_sorted c.streamFrom (c.index + 1) reads

/-- The positions of a run whose stream has these cursors. -/
def positionOf {own : Set StreamCursor} : SnapshotCursor ⊕ own → Position
  | .inl c => .snapshot c
  | .inr s => .stream s.val

theorem before_positionOf {own : Set StreamCursor} (p q : SnapshotCursor ⊕ own) :
    before rt inner (positionOf p) (positionOf q) ↔
      Sum.Lex (fun c d : SnapshotCursor => c.index < d.index)
        (fun s t : own => inner t.val.val s.val.val = true) p q := by
  rcases p with c | s
  · rcases q with d | t
    · simp [positionOf]
    · simp [positionOf]
  · rcases q with d | t
    · simp [positionOf]
    · simp [positionOf]

instance : IsStrictWeakOrder SnapshotCursor fun c d => c.index < d.index where
  irrefl c := Nat.lt_irrefl c.index
  trans _ _ _ := Nat.lt_trans
  incomp_trans c d e h h' := by omega

/-- **The positions of a run are a strict weak order just when the engine's own cursors are.** -/
theorem strictWeakOrder_iff (own : Set StreamCursor) :
    IsStrictWeakOrder (SnapshotCursor ⊕ own)
      (fun p q => before rt inner (positionOf p) (positionOf q)) ↔
      IsStrictWeakOrder own fun s t => inner t.val.val s.val.val = true := by
  have same : (fun p q : SnapshotCursor ⊕ own => before rt inner (positionOf p) (positionOf q)) =
      Sum.Lex (fun c d : SnapshotCursor => c.index < d.index)
        (fun s t : own => inner t.val.val s.val.val = true) := by
    funext p q
    exact propext (before_positionOf p q)
  rw [same]
  exact isStrictWeakOrder_lex

end Order

/-- A key's value is a JSON value. -/
def SnapshotCursor.JsonKey (c : SnapshotCursor) : Prop := ∀ k ∈ c.key, ∃ j, k.value = parsed j

theorem parse_format_json (rt : Runtime) {c : SnapshotCursor} (json : c.JsonKey) :
    parseSnapshotCursor rt (formatSnapshotCursor rt c) = some c := by
  rw [parse_format]
  obtain ⟨index, key, streamFrom, done⟩ := c
  cases key with
  | none => rfl
  | some k =>
    obtain ⟨j, is⟩ := json k rfl
    rw [Option.map_some, is, carried_parsed, ← is]

/-- **The cursors of a copy that is followed**: what is written is read back, and the order is that of
the run, as far as the engine has one. -/
theorem cursors_in_order (rt : Runtime) (inner : String → String → Bool) :
    (∀ c : SnapshotCursor, c.JsonKey →
      parseSnapshotCursor rt (formatSnapshotCursor rt c) = some c) ∧
    (∀ c : SnapshotCursor, parseSnapshotCursor rt (formatSnapshotCursor rt c) =
      some { c with key := c.key.map fun k => { k with value := carried k.value } }) ∧
    (∀ resume captured reads,
      ((copyThenFollow resume captured reads).map .snapshot).Pairwise (before rt inner)) ∧
    (∀ c s, before rt inner (.snapshot c) (.stream s) ∧ ¬ before rt inner (.stream s) (.snapshot c)) ∧
    (∀ s t, before rt inner (.stream s) (.stream t) ↔ inner t.val s.val = true) ∧
    ∀ own : Set StreamCursor,
      IsStrictWeakOrder (SnapshotCursor ⊕ own)
        (fun p q => before rt inner (positionOf p) (positionOf q)) ↔
        IsStrictWeakOrder own fun s t => inner t.val.val s.val.val = true := by
  refine ⟨fun c json => parse_format_json rt json, parse_format rt, ?_, fun c s => ?_, ?_, ?_⟩
  · intro resume captured reads
    refine List.pairwise_map.mpr ((copyThenFollow_sorted resume captured reads).imp ?_)
    intro c d lt
    exact before_snapshot.mpr lt
  · exact ⟨before_end, not_before_start⟩
  · intro s t
    exact before_stream
  · exact strictWeakOrder_iff

/-! ## A runtime

Any spelling of JSON that can be read back will do: here a tree is a list of numbers, and the list a
number of bytes. -/

def textCode (s : String) : List ℕ := s.toList.length :: s.toList.map Char.toNat

mutual

def code : Json → List ℕ
  | .null => [0]
  | .bool b => [1, b.toNat]
  | .number q => [2, q.num.toNat, (-q.num).toNat, q.den]
  | .string s => 3 :: textCode s
  | .array items => 4 :: codeItems items
  | .object fields => 5 :: codeFields fields

def codeItems : JsonItems → List ℕ
  | .nil => [0]
  | .cons head tail => 1 :: (code head ++ codeItems tail)

def codeFields : JsonFields → List ℕ
  | .nil => [0]
  | .cons name value rest => 1 :: (textCode name ++ (code value ++ codeFields rest))

end

theorem textCode_inj {s t : String} {a b : List ℕ} (h : textCode s ++ a = textCode t ++ b) :
    s = t ∧ a = b := by
  simp only [textCode, List.cons_append, List.cons.injEq] at h
  obtain ⟨chars, rest⟩ := List.append_inj h.2 (by simpa using h.1)
  have inj : Function.Injective Char.toNat := fun x y same => Char.toNat_inj.mp same
  exact ⟨String.toList_inj.mp (List.map_injective_iff.mpr inj chars), rest⟩

mutual

/-- A tree can be told from its numbers, whatever comes after them. -/
theorem code_inj (j k : Json) {a b : List ℕ} (h : code j ++ a = code k ++ b) : j = k ∧ a = b := by
  cases j with
  | null =>
    cases k with
    | null => exact ⟨rfl, by simpa [code] using h⟩
    | _ => simp [code] at h
  | bool x =>
    cases k with
    | bool y =>
      simp only [code, List.cons_append, List.nil_append, List.cons.injEq, true_and] at h
      have same : x = y := by
        cases x <;> cases y <;> simp_all
      exact ⟨congrArg Json.bool same, h.2⟩
    | _ => simp [code] at h
  | number q =>
    cases k with
    | number r =>
      simp only [code, List.cons_append, List.nil_append, List.cons.injEq, true_and] at h
      have num : q.num = r.num := by omega
      exact ⟨congrArg Json.number (Rat.ext num h.2.2.1), h.2.2.2⟩
    | _ => simp [code] at h
  | string s =>
    cases k with
    | string t =>
      simp only [code, List.cons_append, List.cons.injEq, true_and] at h
      obtain ⟨rfl, rest⟩ := textCode_inj h
      exact ⟨rfl, rest⟩
    | _ => simp [code] at h
  | array items =>
    cases k with
    | array others =>
      simp only [code, List.cons_append, List.cons.injEq, true_and] at h
      obtain ⟨rfl, rest⟩ := codeItems_inj items others h
      exact ⟨rfl, rest⟩
    | _ => simp [code] at h
  | object fields =>
    cases k with
    | object others =>
      simp only [code, List.cons_append, List.cons.injEq, true_and] at h
      obtain ⟨rfl, rest⟩ := codeFields_inj fields others h
      exact ⟨rfl, rest⟩
    | _ => simp [code] at h

theorem codeItems_inj (items others : JsonItems) {a b : List ℕ}
    (h : codeItems items ++ a = codeItems others ++ b) : items = others ∧ a = b := by
  cases items with
  | nil =>
    cases others with
    | nil => exact ⟨rfl, by simpa [codeItems] using h⟩
    | cons _ _ => simp [codeItems] at h
  | cons head tail =>
    cases others with
    | nil => simp [codeItems] at h
    | cons head' tail' =>
      simp only [codeItems, List.cons_append, List.append_assoc, List.cons.injEq, true_and] at h
      obtain ⟨rfl, more⟩ := code_inj head head' h
      obtain ⟨rfl, rest⟩ := codeItems_inj tail tail' more
      exact ⟨rfl, rest⟩

theorem codeFields_inj (fields others : JsonFields) {a b : List ℕ}
    (h : codeFields fields ++ a = codeFields others ++ b) : fields = others ∧ a = b := by
  cases fields with
  | nil =>
    cases others with
    | nil => exact ⟨rfl, by simpa [codeFields] using h⟩
    | cons _ _ _ => simp [codeFields] at h
  | cons name value tail =>
    cases others with
    | nil => simp [codeFields] at h
    | cons name' value' tail' =>
      simp only [codeFields, List.cons_append, List.append_assoc, List.cons.injEq, true_and] at h
      obtain ⟨rfl, first⟩ := textCode_inj h
      obtain ⟨rfl, more⟩ := code_inj value value' first
      obtain ⟨rfl, rest⟩ := codeFields_inj tail tail' more
      exact ⟨rfl, rest⟩

end

def byteBody (j : Json) : List (BitVec 8) := List.replicate (Encodable.encode (code j)) 0

theorem byteBody_injective : Function.Injective byteBody := by
  intro j k same
  have length := congrArg List.length same
  simp only [byteBody, List.length_replicate] at length
  have codes : code j ++ [] = code k ++ [] := by
    rw [Encodable.encode_injective length]
  exact (code_inj j k codes).1

namespace Example

/-- A row with a composite key. -/
def row : SnapshotCursor :=
  { index := 41, streamFrom := some "0/16B3748", done := false
    key := some { column := "a,b", value := .array (.cons (.string "a:b/c") (.cons .null .nil)) } }

/-- How `JSON.stringify` spells the row's body. -/
def rowText : List (BitVec 8) :=
  "\x7b\"k\":\x7b\"column\":\"a,b\",\"value\":[\"a:b/c\",null]\x7d,\"f\":\"0/16B3748\"\x7d".toList.map
    fun c => BitVec.ofNat 8 c.toNat

/-- The row's body as the runtime spells it; of any other JSON, some spelling that can be read back. -/
def body (j : Json) : List (BitVec 8) :=
  if j = written (.object (bodyOf row)) then rowText else byteBody j

theorem body_injective : Function.Injective body := by
  have other (j : Json) : rowText ≠ byteBody j := by
    intro same
    have brace : 0x7b#8 ∈ byteBody j := same ▸ (by decide : 0x7b#8 ∈ rowText)
    exact absurd (List.eq_of_mem_replicate brace) (by decide)
  intro j k same
  unfold body at same
  split at same
  · next isRow =>
    split at same
    · next isRow' => exact isRow.trans isRow'.symm
    · exact absurd same (other k)
  · split at same
    · exact absurd same.symm (other j)
    · exact byteBody_injective same

noncomputable def someRuntime : Runtime where
  body := body
  readBody := Function.partialInv body
  readBody_body := Function.partialInv_left body_injective

theorem row_back : parseSnapshotCursor someRuntime (formatSnapshotCursor someRuntime row) = some row :=
  (cursors_in_order someRuntime fun _ _ => false).1 row (by
    intro k mem
    obtain rfl := Option.some.inj mem
    exact ⟨.array (.cons (.string "a:b/c") (.cons .null .nil)), rfl⟩)

/-- A row whose key is a bigint. -/
def bigRow : SnapshotCursor :=
  { index := 0, streamFrom := none, done := false
    key := some { column := "id", value := .bigint 9007199254740993 } }

/-- A resume token. -/
def token : StreamCursor := ⟨"82663F", rfl⟩

/-- A bigint comes back as its digits; and where the engine's driver resumes exactly, any token is
after any other, itself among them. -/
theorem not_as_formatted :
    parseSnapshotCursor someRuntime (formatSnapshotCursor someRuntime bigRow) ≠ some bigRow ∧
      ¬ IsStrictWeakOrder (SnapshotCursor ⊕ (Set.univ : Set StreamCursor))
        fun p q => before someRuntime (fun _ _ => true) (positionOf p) (positionOf q) := by
  constructor
  · intro back
    rw [parse_format] at back
    cases back
  · intro order
    have engine := (strictWeakOrder_iff Set.univ).mp order
    exact engine.irrefl ⟨token, trivial⟩ rfl

end Example

end Syncle.SnapshotCursors
