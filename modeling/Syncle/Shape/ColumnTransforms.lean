import Mathlib.Logic.Function.Basic
import Syncle.Js.Value

/-!
# Column transforms (`column-transforms.ts`)

What happens to a row between being read and being delivered: steps that run in the order written,
each seeing what the ones before it did.

A row here is its own columns. What the steps take from the JavaScript runtime, how it reads a
number or a date out of a text and how it spells one, is a parameter (`Runtime`), so what is proved
holds whatever those functions make of a text.
-/

namespace Syncle.Shape

open Js

/-- An object by its own properties. -/
abbrev Row := String → Option Value

/-- `row[name] = value`. An assignment to `__proto__` leaves no property behind, where there is
none. -/
def assign (row : Row) (name : String) (value : Value) : Row :=
  if name = "__proto__" ∧ row name = none then row else Function.update row name (some value)

theorem assign_other {row : Row} {name c : String} (v : Value) (h : c ≠ name) :
    assign row name v c = row c := by
  unfold assign
  split
  · rfl
  · exact Function.update_of_ne h _ _

theorem assign_own {row : Row} {name : String} {w : Value} (v : Value)
    (h : row name = some w) : assign row name v name = some v := by
  simp [assign, h]

theorem assign_congr {out out' : Row} {c : String} (v : Value) (same : out c = out' c) :
    assign out c v c = assign out' c v c := by
  unfold assign
  rw [same]
  split_ifs
  · exact same
  · simp

/-- `String(n)` of a whole number. -/
def wholeText : Number → String
  | .finite q => toString q.num
  | .negativeZero => "0"
  | n => n.nonFiniteText.getD ""

/-- How the runtime reads and writes text. -/
structure Runtime where
  /-- `String(n)` -/
  numberText : Number → String
  /-- the text `JSON.stringify` spells -/
  jsonText : Json → String
  /-- `Number(text)` -/
  numberOf : String → Number
  /-- `new Date(text)` by its `toISOString`; none where it is invalid -/
  dateOf : String → Option String
  /-- `new Date(ms)` -/
  dateAt : Number → Option String
  /-- `JSON.parse`; none where it throws -/
  parseJson : String → Option Value
  trim : String → String
  toLowerCase : String → String
  toUpperCase : String → String
  /-- `s.slice(0, n)`, which counts UTF-16 code units -/
  slice : String → ℕ → String
  /-- SHA-256 hex, which the caller passes in -/
  hash : String → String

/-! ## Steps -/

inductive MaskMode where
  | redact | keepEnds | hash | null
  deriving DecidableEq

structure Mask where
  mode : MaskMode
  keepStart : ℕ
  keepEnd : ℕ
  fill : String
  salt : Option String
  deriving DecidableEq

inductive CastTo where
  | string | number | integer | boolean | date | json
  deriving DecidableEq

inductive CastError where
  | fail | null | keep
  deriving DecidableEq

inductive TextOp where
  | trim | lower | upper
  deriving DecidableEq

/-- `columnTransformSchema` -/
inductive ColumnTransform where
  | mask (column : String) (mask : Mask)
  | cast (column : String) (into : CastTo) (onError : CastError)
  | text (column : String) (op : TextOp)
  | default (column : String) (value : Value)
  | set (column : String) (template : String)
  deriving DecidableEq

@[grind =]
def ColumnTransform.column : ColumnTransform → String
  | mask column _ | cast column _ _ | text column _ | default column _ | set column _ => column

/-- Does it compute its column from the others? -/
def ColumnTransform.computes : ColumnTransform → Bool
  | set _ _ => true
  | _ => false

/-- Does it write a column the row need not have? -/
def ColumnTransform.adds : ColumnTransform → Bool
  | default _ _ | set _ _ => true
  | _ => false

/-- `ColumnTransformContext` -/
structure Context where
  table : String
  now : String
  /-- a delete's row is often only its key -/
  keysOnly : Bool
  deriving DecidableEq

/-! ## Values -/

/-- A marker the source uses for "this column was not sent". -/
def isMarker : Value → Bool
  | .unchanged => true
  | _ => false

/-- `text`; none where it throws. -/
def text (rt : Runtime) : Value → Option String
  | .null | .undefined => some ""
  | .string s => some s
  | .date iso => some iso
  | .invalidDate => none
  | .number n => some (rt.numberText n)
  | .bool b => some (if b then "true" else "false")
  | .bigint n => some (toString n)
  | .unchanged => some "Symbol(syncle.unchanged)"
  | value => (stringify value).map rt.jsonText

/-- `fill.repeat(n).slice(0, n)` -/
def filled (rt : Runtime) (fill : String) (n : ℕ) : String :=
  rt.slice (String.join (List.replicate n fill)) n

def mask (rt : Runtime) (t : Mask) (value : Value) : Option Value :=
  match value with
  | .null | .undefined => some value
  | value =>
    match t.mode with
    | .null => some .null
    | .hash => (text rt value).map fun s => .string (rt.hash (t.salt.getD "" ++ s))
    | .redact => (text rt value).map fun _ => .string (filled rt t.fill 8)
    | .keepEnds =>
      (text rt value).map fun s =>
        let chars := s.toList
        let keep := t.keepStart + t.keepEnd
        -- too short to keep anything of without giving most of it away
        if chars.length ≤ keep then .string (filled rt t.fill (max 1 chars.length))
        else .string (String.ofList (chars.take t.keepStart) ++
          filled rt t.fill (chars.length - keep) ++
          String.ofList (chars.drop (chars.length - t.keepEnd)))

/-- `TRUE` -/
def trueTexts : List String := ["true", "t", "yes", "y", "1", "on"]

/-- `FALSE` -/
def falseTexts : List String := ["false", "f", "no", "n", "0", "off", ""]

/-- `Math.trunc` -/
def trunc (q : Rat) : Rat := (q.num.tdiv q.den : Int)

/-- Seconds or milliseconds since the epoch. -/
def epochMs : Number → Number
  | .finite q => if -100000000000 < q ∧ q < 100000000000 then .finite (q * 1000) else .finite q
  | n => n

def castNumber (rt : Runtime) (into : CastTo) (n : Number) (s : String) : Option Value :=
  if rt.trim s = "" then none
  else
    match n with
    | .finite q => some (.number (.finite (if into = .integer then trunc q else q)))
    | .negativeZero => some (.number .negativeZero)
    | .nan | .infinity _ => none

/-- `cast`: none where it throws, and the inner none for `{ ok: false }`. -/
def cast (rt : Runtime) (into : CastTo) (value : Value) : Option (Option Value) :=
  match value with
  | .null | .undefined => some (some value)
  | value =>
    match into with
    | .string => (text rt value).map fun s => some (.string s)
    | .number | .integer =>
      match value with
      | .bool b => some (some (.number (.finite (if b then 1 else 0))))
      | .bigint n => some (some (.bigint n))
      | .number n => (text rt value).map fun s => castNumber rt into n s
      | value => (text rt value).map fun s => castNumber rt into (rt.numberOf (rt.trim s)) s
    | .boolean =>
      match value with
      | .bool b => some (some (.bool b))
      | .number n => some (some (.bool (n ≠ .finite 0 ∧ n ≠ .negativeZero)))
      | value =>
        (text rt value).map fun s =>
          let s := rt.toLowerCase (rt.trim s)
          if trueTexts.contains s then some (.bool true)
          else if falseTexts.contains s then some (.bool false)
          else none
    | .date =>
      match value with
      | .date iso => some (some (.string iso))
      | .invalidDate => some none
      | .number n => some ((rt.dateAt (epochMs n)).map .string)
      | value => (text rt value).map fun s => (rt.dateOf (rt.trim s)).map .string
    | .json =>
      match value with
      | .string s => some (rt.parseJson s)
      | value => some (some value)

/-! ## Templates -/

/-- `[\w$]` -/
def isWord (c : Char) : Bool := c.isAlphanum || c = '_' || c = '$'

/-- `\s` -/
def isSpace (c : Char) : Bool :=
  c = ' ' || c = '\t' || c = '\n' || c = '\r' || c.toNat ∈
    [0x0b, 0x0c, 0xa0, 0x1680, 0x2028, 0x2029, 0x202f, 0x205f, 0x3000, 0xfeff] ||
    (0x2000 ≤ c.toNat && c.toNat ≤ 0x200a)

/-- One match of `TOKEN` at the head: the name in it, and what comes after. -/
def matchToken : List Char → Option (String × List Char)
  | '{' :: '{' :: rest =>
    let rest := rest.dropWhile isSpace
    let name := rest.takeWhile isWord
    match name, (rest.drop name.length).dropWhile isSpace with
    | [], _ => none
    | name, '}' :: '}' :: after => some (String.ofList name, after)
    | _, _ => none
  | _ => none

inductive Piece where
  | char (c : Char)
  | token (name : String)
  deriving DecidableEq

/-- A template, cut at its tokens. `fuel` is its length. -/
def piecesOf : ℕ → List Char → List Piece
  | _, [] => []
  | 0, _ => []
  | fuel + 1, c :: cs =>
    match matchToken (c :: cs) with
    | some (name, after) => .token name :: piecesOf fuel after
    | none => .char c :: piecesOf fuel cs

def pieces (template : String) : List Piece := piecesOf template.length template.toList

/-- The names in a template's tokens. -/
def tokens (template : String) : List String :=
  (pieces template).filterMap fun
    | .token name => some name
    | .char _ => none

/-- The one token a template consists of. -/
def wholeToken (template : String) : Option String :=
  match matchToken template.toList with
  | some (name, []) => some name
  | _ => none

/-! ## `applyColumnTransforms` -/

/-- `ColumnTransformResult` -/
structure Shaped where
  row : Row
  /-- what was worked around -/
  warnings : List String := []
  /-- what must fail the delivery -/
  errors : List String := []

/-- Keys that would reparent or pollute the row object if assigned. -/
def forbidden : List String := ["__proto__", "constructor", "prototype"]

/-- `{ ...out, $now, $table }` -/
def scope (ctx : Context) (row : Row) : Row :=
  Function.update (Function.update row "$now" (some (.string ctx.now))) "$table"
    (some (.string ctx.table))

/-- A value a template may use: there, and no marker. -/
def scopeValue (ctx : Context) (row : Row) (name : String) : Option Value :=
  (scope ctx row name).filter fun v => !isMarker v

/-- `template.replace(TOKEN, …)`: the text, and the names there is no column for. -/
def renderPieces (rt : Runtime) (value : String → Option Value) :
    List Piece → Option (String × List String)
  | [] => some ("", [])
  | .char c :: rest =>
    (renderPieces rt value rest).map fun r => (String.singleton c ++ r.1, r.2)
  | .token name :: rest =>
    match value name with
    | some v =>
      (text rt v).bind fun s => (renderPieces rt value rest).map fun r => (s ++ r.1, r.2)
    | none => (renderPieces rt value rest).map fun r => (r.1, name :: r.2)

/-- What `set` writes, and its warnings. -/
def computed (rt : Runtime) (ctx : Context) (row : Row) (template : String) :
    Option (Value × List String) :=
  match (wholeToken template).bind (scopeValue ctx row) with
  -- a template that IS one token keeps the value's type
  | some v => some (v, [])
  | none =>
    (renderPieces rt (scopeValue ctx row) (pieces template)).map fun r => (.string r.1, r.2)

def castToText : CastTo → String
  | .string => "string"
  | .number => "number"
  | .integer => "integer"
  | .boolean => "boolean"
  | .date => "date"
  | .json => "json"

/-- `cast ${t.column}: … is not a ${t.to}` -/
def castProblem (rt : Runtime) (column : String) (into : CastTo) (value : Value) : Option String :=
  (text rt value).map fun s =>
    "cast " ++ column ++ ": " ++ rt.jsonText (.string (rt.slice s 40)) ++ " is not a " ++
      castToText into

def applyCast (rt : Runtime) (s : Shaped) (column : String) (into : CastTo) (onError : CastError)
    (value : Value) : Option Shaped :=
  (cast rt into value).bind fun
    | some cast => some { s with row := assign s.row column cast }
    | none =>
      (castProblem rt column into value).map fun problem =>
        match onError with
        | .fail => { s with errors := s.errors ++ [problem] }
        | .null =>
          { s with
            row := assign s.row column .null
            warnings := s.warnings ++ [problem ++ "; written as NULL"] }
        | .keep => { s with warnings := s.warnings ++ [problem ++ "; left as it was"] }

def applyText (rt : Runtime) : TextOp → String → String
  | .trim => rt.trim
  | .lower => rt.toLowerCase
  | .upper => rt.toUpperCase

/-- One turn of the loop; none where it throws. -/
def applyTransform (rt : Runtime) (ctx : Context) (s : Shaped) (t : ColumnTransform) :
    Option Shaped :=
  match s.row t.column with
  | some .unchanged => some s
  | own =>
    match t, own with
    | .mask column m, some v => (mask rt m v).map fun v => { s with row := assign s.row column v }
    | .text column op, some (.string v) =>
      some { s with row := assign s.row column (.string (applyText rt op v)) }
    | .cast column into onError, some v => applyCast rt s column into onError v
    | .default column value, own =>
      if ctx.keysOnly then some s
      else
        match own with
        | none | some .null | some .undefined => some { s with row := assign s.row column value }
        | some _ => some s
    | .set column template, _ =>
      if ctx.keysOnly || forbidden.contains column then some s
      else
        (computed rt ctx s.row template).map fun r =>
          { s with
            row := assign s.row column r.1
            warnings := s.warnings ++
              r.2.map fun name => "set " ++ column ++ ": no column \"" ++ name ++ "\"" }
    | _, _ => some s

/-- `applyColumnTransforms` -/
def applyColumnTransforms (rt : Runtime) (ctx : Context) (row : Row)
    (transforms : List ColumnTransform) : Option Shaped :=
  transforms.foldlM (applyTransform rt ctx) { row := row }

/-- `columnsRead` -/
def columnsRead (transforms : List ColumnTransform) : List String :=
  transforms.flatMap fun
    | .set _ template => (tokens template).filter fun name => !name.startsWith "$"
    | t => [t.column]

/-! ## One step -/

section Step

variable {rt : Runtime} {ctx : Context} {s : Shaped} {column : String} {v : Value}

/-- A column that was not sent is left to itself, whatever the step. -/
theorem applyTransform_unsent {t : ColumnTransform} (h : s.row t.column = some .unchanged) :
    applyTransform rt ctx s t = some s := by
  simp [applyTransform, h]

theorem applyTransform_mask (m : Mask) (h : s.row column = some v) (sent : v ≠ .unchanged) :
    applyTransform rt ctx s (.mask column m) =
      (mask rt m v).map fun w => { s with row := assign s.row column w } := by
  cases v <;> simp_all [applyTransform, ColumnTransform.column]

theorem applyTransform_cast (into : CastTo) (onError : CastError) (h : s.row column = some v)
    (sent : v ≠ .unchanged) :
    applyTransform rt ctx s (.cast column into onError) = applyCast rt s column into onError v := by
  cases v <;> simp_all [applyTransform, ColumnTransform.column]

theorem applyTransform_text (op : TextOp) {text : String}
    (h : s.row column = some (.string text)) :
    applyTransform rt ctx s (.text column op) =
      some { s with row := assign s.row column (.string (applyText rt op text)) } := by
  simp [applyTransform, ColumnTransform.column, h]

theorem applyTransform_text_other (op : TextOp) (h : s.row column = some v)
    (other : ∀ text, v ≠ .string text) : applyTransform rt ctx s (.text column op) = some s := by
  cases v <;> simp_all [applyTransform, ColumnTransform.column]

/-- Where the row has no such column, only a `default` and a `set` have something to do. -/
theorem applyTransform_missing {t : ColumnTransform} (h : s.row t.column = none)
    (idle : t.adds = false ∨ ctx.keysOnly = true) : applyTransform rt ctx s t = some s := by
  cases t <;> simp only [ColumnTransform.column] at h <;>
    simp_all [applyTransform, ColumnTransform.column, ColumnTransform.adds]

theorem applyTransform_default (value : Value) (h : s.row column = some v)
    (given : v ≠ .null ∧ v ≠ .undefined) :
    applyTransform rt ctx s (.default column value) = some s := by
  cases v <;> simp_all [applyTransform, ColumnTransform.column]

theorem applyTransform_default_blank (value : Value)
    (blank : s.row column = none ∨ s.row column = some .null ∨ s.row column = some .undefined) :
    applyTransform rt ctx s (.default column value) =
      if ctx.keysOnly then some s else some { s with row := assign s.row column value } := by
  rcases blank with h | h | h <;> simp [applyTransform, ColumnTransform.column, h]

theorem applyTransform_set (template : String) (sent : s.row column ≠ some .unchanged) :
    applyTransform rt ctx s (.set column template) =
      if ctx.keysOnly || forbidden.contains column then some s
      else (computed rt ctx s.row template).map fun r =>
        { s with
          row := assign s.row column r.1
          warnings := s.warnings ++
            r.2.map fun name => "set " ++ column ++ ": no column \"" ++ name ++ "\"" } := by
  unfold applyTransform
  split
  case h_1 unsent => exact absurd unsent sent
  case h_2 => rfl

theorem applyCast_other {rt : Runtime} {s s' : Shaped} {column c : String} {into : CastTo}
    {onError : CastError} {v : Value} (hne : c ≠ column)
    (h : applyCast rt s column into onError v = some s') : s'.row c = s.row c := by
  obtain ⟨result, _, h⟩ := Option.bind_eq_some_iff.mp h
  cases result with
  | some cast =>
    obtain rfl := Option.some.inj h
    exact assign_other cast hne
  | none =>
    obtain ⟨problem, _, rfl⟩ := Option.map_eq_some_iff.mp h
    cases onError with
    | fail => rfl
    | null => exact assign_other .null hne
    | keep => rfl

/-- A step leaves every other column as it is. -/
theorem applyTransform_other {rt : Runtime} {ctx : Context} {s s' : Shaped} {t : ColumnTransform}
    {c : String} (hne : c ≠ t.column) (h : applyTransform rt ctx s t = some s') :
    s'.row c = s.row c := by
  unfold applyTransform at h
  split at h
  case h_1 => rw [Option.some.inj h]
  case h_2 own _ =>
    split at h
    case h_1 column m v _ _ =>
      obtain ⟨w, _, rfl⟩ := Option.map_eq_some_iff.mp h
      exact assign_other w hne
    case h_2 column op v _ _ =>
      obtain rfl := Option.some.inj h
      exact assign_other _ hne
    case h_3 => exact applyCast_other hne h
    case h_4 column value _ _ =>
      split_ifs at h
      · rw [Option.some.inj h]
      · split at h
        case h_4 => rw [Option.some.inj h]
        all_goals
          obtain rfl := Option.some.inj h
          exact assign_other _ hne
    case h_5 column template _ _ =>
      split_ifs at h
      · rw [Option.some.inj h]
      · obtain ⟨r, _, rfl⟩ := Option.map_eq_some_iff.mp h
        exact assign_other r.1 hne
    case h_6 => rw [Option.some.inj h]

end Step

/-! ## What a step takes from a row -/

section Congr

variable {rt : Runtime} {ctx ctx' : Context} {s u : Shaped}

/-- What two rows make of a step: they have the same in its column, and the same to complain of. -/
def SameEffect (column : String) (s u s' u' : Shaped) : Prop :=
  s'.row column = u'.row column ∧ ∃ e, s'.errors = s.errors ++ e ∧ u'.errors = u.errors ++ e

theorem SameEffect.idle {column : String} (own : s.row column = u.row column) :
    SameEffect column s u s u :=
  ⟨own, [], by simp⟩

theorem applyCast_congr {column : String} {into : CastTo} {onError : CastError} {v : Value}
    (own : s.row column = u.row column) :
    Option.Rel (SameEffect column s u) (applyCast rt s column into onError v)
      (applyCast rt u column into onError v) := by
  unfold applyCast
  cases cast rt into v with
  | none => exact .none
  | some result =>
    cases result with
    | some cast => exact .some ⟨assign_congr cast own, [], by simp⟩
    | none =>
      cases castProblem rt column into v with
      | none => exact .none
      | some problem =>
        cases onError with
        | fail => exact .some ⟨own, [problem], rfl, rfl⟩
        | null => exact .some ⟨assign_congr .null own, [], by simp⟩
        | keep => exact .some ⟨own, [], by simp⟩

/-- A step takes what it needs from its own column, and from what a `set` computes. -/
theorem applyTransform_congr {t : ColumnTransform} (keysOnly : ctx.keysOnly = ctx'.keysOnly)
    (own : s.row t.column = u.row t.column)
    (compute : ∀ column template, t = .set column template → forbidden.contains column = false →
      computed rt ctx s.row template = computed rt ctx' u.row template) :
    Option.Rel (SameEffect t.column s u) (applyTransform rt ctx s t)
      (applyTransform rt ctx' u t) := by
  have idle : Option.Rel (SameEffect t.column s u) (some s) (some u) :=
    .some (SameEffect.idle own)
  by_cases unsent : s.row t.column = some .unchanged
  · rw [applyTransform_unsent unsent, applyTransform_unsent (own.symm.trans unsent)]
    exact idle
  cases t with
  | mask column m =>
    simp only [ColumnTransform.column] at own unsent idle ⊢
    cases hs : s.row column with
    | none =>
      rw [applyTransform_missing hs (Or.inl rfl),
        applyTransform_missing (own.symm.trans hs) (Or.inl rfl)]
      exact idle
    | some v =>
      have sent : v ≠ .unchanged := by simpa [hs] using unsent
      rw [applyTransform_mask m hs sent, applyTransform_mask m (own.symm.trans hs) sent]
      cases mask rt m v with
      | none => exact .none
      | some w => exact .some ⟨assign_congr w own, [], by simp⟩
  | cast column into onError =>
    simp only [ColumnTransform.column] at own unsent idle ⊢
    cases hs : s.row column with
    | none =>
      rw [applyTransform_missing hs (Or.inl rfl),
        applyTransform_missing (own.symm.trans hs) (Or.inl rfl)]
      exact idle
    | some v =>
      have sent : v ≠ .unchanged := by simpa [hs] using unsent
      rw [applyTransform_cast into onError hs sent,
        applyTransform_cast into onError (own.symm.trans hs) sent]
      exact applyCast_congr own
  | text column op =>
    simp only [ColumnTransform.column] at own unsent idle ⊢
    cases hs : s.row column with
    | none =>
      rw [applyTransform_missing hs (Or.inl rfl),
        applyTransform_missing (own.symm.trans hs) (Or.inl rfl)]
      exact idle
    | some v =>
      by_cases string : ∃ text, v = .string text
      · obtain ⟨text, rfl⟩ := string
        rw [applyTransform_text op hs, applyTransform_text op (own.symm.trans hs)]
        exact .some ⟨assign_congr _ own, [], by simp⟩
      · rw [applyTransform_text_other op hs (not_exists.mp string),
          applyTransform_text_other op (own.symm.trans hs) (not_exists.mp string)]
        exact idle
  | default column value =>
    simp only [ColumnTransform.column] at own unsent idle ⊢
    by_cases blank : s.row column = none ∨ s.row column = some .null ∨ s.row column = some .undefined
    · rw [applyTransform_default_blank value blank,
        applyTransform_default_blank value (by rwa [← own]), keysOnly]
      split_ifs
      · exact idle
      · exact .some ⟨assign_congr value own, [], by simp⟩
    · obtain ⟨v, hs⟩ : ∃ v, s.row column = some v := by
        cases hs : s.row column with
        | none => exact absurd (Or.inl hs) blank
        | some v => exact ⟨v, rfl⟩
      have given : v ≠ .null ∧ v ≠ .undefined := by
        simp only [hs, reduceCtorEq, Option.some.injEq, false_or, not_or] at blank
        exact blank
      rw [applyTransform_default value hs given,
        applyTransform_default value (own.symm.trans hs) given]
      exact idle
  | set column template =>
    simp only [ColumnTransform.column] at own unsent idle ⊢
    rw [applyTransform_set template unsent, applyTransform_set template (by rwa [← own]),
      keysOnly]
    split_ifs with skipped
    · exact idle
    · have here : forbidden.contains column = false := by
        by_contra yes
        rw [Bool.not_eq_false] at yes
        exact skipped (by rw [yes, Bool.or_true])
      rw [compute column template rfl here]
      cases computed rt ctx' u.row template with
      | none => exact .none
      | some r => exact .some ⟨assign_congr r.1 own, [], by simp⟩

theorem renderPieces_congr {value value' : String → Option Value} {pieces : List Piece}
    (same : ∀ name, .token name ∈ pieces → value name = value' name) :
    renderPieces rt value pieces = renderPieces rt value' pieces := by
  induction pieces with
  | nil => rfl
  | cons piece rest ih =>
    have others := ih fun name h => same name (List.mem_cons_of_mem _ h)
    cases piece with
    | char c => simp only [renderPieces, others]
    | token name => simp only [renderPieces, others, same name List.mem_cons_self]

theorem wholeToken_mem {template name : String} (h : wholeToken template = some name) :
    name ∈ tokens template := by
  unfold wholeToken at h
  split at h
  case h_1 found hmatch =>
    obtain rfl := Option.some.inj h
    refine List.mem_filterMap.mpr ⟨.token found, ?_, rfl⟩
    cases hlist : template.toList with
    | nil => simp [hlist, matchToken] at hmatch
    | cons c cs =>
      rw [hlist] at hmatch
      have length : template.length = cs.length + 1 := by
        rw [← String.length_toList, hlist, List.length_cons]
      unfold pieces
      rw [hlist, length, piecesOf, hmatch]
      exact List.mem_cons_self
  case h_2 => cases h

/-- A template takes from the row what its tokens name. -/
theorem computed_congr {row row' : Row} {template : String}
    (same : ∀ name ∈ tokens template, scopeValue ctx row name = scopeValue ctx row' name) :
    computed rt ctx row template = computed rt ctx row' template := by
  have pieces : renderPieces rt (scopeValue ctx row) (pieces template) =
      renderPieces rt (scopeValue ctx row') (pieces template) :=
    renderPieces_congr fun name h => same name (List.mem_filterMap.mpr ⟨_, h, rfl⟩)
  have whole : (wholeToken template).bind (scopeValue ctx row) =
      (wholeToken template).bind (scopeValue ctx row') := by
    cases h : wholeToken template with
    | none => rfl
    | some name => exact same name (wholeToken_mem h)
  unfold computed
  rw [pieces, whole]

theorem scopeValue_congr {row row' : Row} {name : String}
    (same : name = "$now" ∨ name = "$table" ∨ row name = row' name) :
    scopeValue ctx row name = scopeValue ctx row' name := by
  unfold scopeValue scope
  rcases same with rfl | rfl | same
  · simp
  · simp
  · simp [Function.update_apply, same]

end Congr

end Syncle.Shape
