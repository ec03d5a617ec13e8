import Syncle.Http.Send
import Syncle.Lib.OrderedMap
import Syncle.Shape.ColumnTransforms

/-!
# Payload templates (`transform.ts`)

A template is a JSON document with `{{token}}` placeholders. It is parsed once, and tokens are
substituted in the parsed tree: a string that is one token becomes the token's value, a token inside
other text, or inside a key, its text.

Objects are their own properties, in the order they were made; JavaScript lists names that look like
an array's index first.
-/

namespace Syncle.Payload

open Js Lib Shape

/-- An object by its own properties. -/
abbrev Row := OrderedMap String Value

def toFields : List (String × Value) → Fields
  | [] => .nil
  | (name, value) :: rest => .cons name value (toFields rest)

def toItems : List Value → Items
  | [] => .nil
  | head :: tail => .cons head (toItems tail)

/-- The object itself. -/
def objectOf (row : Row) : Value := .object (toFields row.entries)

structure TransformContext where
  /-- resolves `{{$table}}` -/
  table : String
  /-- resolves `{{$now}}`, captured once per delivery -/
  now : String
  /-- resolves `{{$index}}`, 0-based row index across the job -/
  index : ℕ

structure TransformConfig where
  /-- JSON template with `{{token}}` placeholders -/
  template : String
  /-- whitelist of source columns kept in `{{$row}}` (default: all) -/
  fields : Option (List String) := none
  /-- map of source column → output key, applied to `{{$row}}` -/
  rename : Option (OrderedMap String String) := none
  /-- when set, the final body is wrapped as `{ [wrapKey]: body }` -/
  wrapKey : Option String := none

structure RenderResult where
  body : Value
  /-- tokens that didn't resolve, surfaced for preview, never fatal -/
  warnings : List String

mutual

/-- Is it a value `JSON.parse` may give? -/
def isTree : Value → Bool
  | .null | .bool _ | .number _ | .string _ => true
  | .array items => isTreeItems items
  | .object fields => isTreeFields fields
  | _ => false

def isTreeItems : Items → Bool
  | .nil => true
  | .cons head tail => isTree head && isTreeItems tail

def isTreeFields : Fields → Bool
  | .nil => true
  | .cons _ value rest => isTree value && isTreeFields rest

end

/-- What is taken from the runtime. -/
structure Runtime where
  /-- `String(n)` -/
  numberText : Number → String
  /-- the text `JSON.stringify` spells -/
  jsonText : Json → String
  trim : String → String
  /-- `JSON.parse`, or the message it throws -/
  parse : String → Except String Value
  parse_isTree : ∀ text tree, parse text = .ok tree → isTree tree = true

/-- What may throw, and collects warnings. -/
abbrev Render := StateT (List String) (Except String)

/-- `warnings.add(name)` -/
def warn (name : String) : Render Unit :=
  modify fun warnings => if name ∈ warnings then warnings else warnings ++ [name]

/-! ## The scope -/

/-- What `object[name]` finds on the prototype of a plain object, as the text of a key. -/
def inherited (name : String) : Option String :=
  if name = "constructor" then some "function Object() { [native code] }"
  else if name = "__proto__" then some "[object Object]"
  else if name ∈ ["toString", "toLocaleString", "valueOf", "hasOwnProperty", "isPrototypeOf",
      "propertyIsEnumerable", "__defineGetter__", "__defineSetter__", "__lookupGetter__",
      "__lookupSetter__"] then some ("function " ++ name ++ "() { [native code] }")
  else none

/-- `cfg.fields && cfg.fields.length > 0`: is the column kept? -/
def keeps (cfg : TransformConfig) (column : String) : Bool :=
  match cfg.fields with
  | none | some [] => true
  | some fields => fields.contains column

/-- `cfg.rename[k] ?? k` -/
def outputKey (cfg : TransformConfig) (column : String) : String :=
  match cfg.rename with
  | none => column
  | some rename => ((rename.get? column).or (inherited column)).getD column

/-- Apply the `fields` whitelist and `rename` map to produce `{{$row}}`. -/
def projectRow (row : Row) (cfg : TransformConfig) : Row :=
  OrderedMap.empty.setAll
    ((row.entries.filter fun e => keeps cfg e.1).map fun e => (outputKey cfg e.1, e.2))

def buildScope (row : Row) (cfg : TransformConfig) (ctx : TransformContext) : Row :=
  (((row.set "$row" (objectOf (projectRow row cfg))).set "$table" (.string ctx.table)).set
    "$now" (.string ctx.now)).set "$index" (.number (.finite ctx.index))

/-! ## Substitution -/

section Substitution

variable (rt : Runtime)

/-- `JSON.stringify` of an object. -/
def spelled (value : Value) : Except String String :=
  match Js.stringify value with
  | some json => .ok (rt.jsonText json)
  | none => .error "Do not know how to serialize a BigInt"

/-- Coerce a resolved value to its string form for in-string interpolation. -/
def stringify : Value → Except String String
  | .null | .undefined => .ok ""
  | .string s => .ok s
  | .number n => .ok (rt.numberText n)
  | .bool b => .ok (if b then "true" else "false")
  | .bigint n => .ok (toString n)
  | .unchanged => .ok "Symbol(syncle.unchanged)"
  -- `JSON.stringify` is `undefined` here, and `replace` spells that
  | .jsonable .undefined | .jsonable .unchanged => .ok "undefined"
  | value => spelled rt value

variable (scope : Row)

/-- The value a token inside a text is replaced by. -/
def tokenText (name : String) : Render String :=
  match scope.get? name with
  | some value => StateT.lift (stringify rt value)
  | none => do
    warn name
    return ""

/-- `text.replace(ANY_TOKEN, …)` -/
def interpolate : List Piece → Render String
  | [] => return ""
  | .char c :: rest => do
    let after ← interpolate rest
    return String.singleton c ++ after
  | .token name :: rest => do
    let text ← tokenText rt scope name
    let after ← interpolate rest
    return text ++ after

/-- A string that is entirely one token. -/
def tokenValue (name : String) : Render Value :=
  match scope.get? name with
  | some value => return value
  | none => do
    warn name
    return .null

mutual

/-- Recursively substitute tokens in a parsed JSON node. -/
def substitute : Value → Render Value
  | .string s =>
    match wholeToken s with
    | some name => tokenValue scope name
    | none => do
      let text ← interpolate rt scope (pieces s)
      return .string text
  | .array items => do
    let items ← substituteItems items
    return .array items
  | .object fields => do
    let out ← substituteFields fields OrderedMap.empty
    return objectOf out
  | node => return node

def substituteItems : Items → Render Items
  | .nil => return .nil
  | .cons head tail => do
    let head ← substitute head
    let tail ← substituteItems tail
    return .cons head tail

/-- The loop over an object's entries; `out` is what it has made. -/
def substituteFields : Fields → Row → Render Row
  | .nil, out => return out
  | .cons key value rest, out => do
    -- keys are interpolated (string-only), values are fully substituted
    let renderedKey ← interpolate rt scope (pieces key)
    -- a rendered "__proto__" would reparent `out` instead of adding a property
    if renderedKey ∈ forbidden then substituteFields rest out
    else
      let value ← substitute value
      substituteFields rest (out.set renderedKey value)

end

end Substitution

/-! ## Rendering -/

section Rendering

variable (rt : Runtime)

def parseTemplate (template : String) : Except String Value :=
  let trimmed := rt.trim template
  if (wholeToken trimmed).isSome then .ok (.string trimmed)
  else
    match rt.parse template with
    | .ok tree => .ok tree
    | .error message => .error ("Payload template is not valid JSON: " ++ message)

def wrap (body : Value) (cfg : TransformConfig) : Value :=
  match cfg.wrapKey with
  | none | some "" => body
  | some wrapKey => .object (.cons wrapKey body .nil)

/-- Render a single row to a request body. -/
def renderRow (row : Row) (cfg : TransformConfig) (ctx : TransformContext) :
    Except String RenderResult := do
  let tree ← parseTemplate rt cfg.template
  let (rendered, warnings) ← (substitute rt (buildScope row cfg ctx) tree).run []
  return { body := wrap rendered cfg, warnings }

/-- The rows of a batch from the `index`th on. -/
def renderItems (cfg : TransformConfig) (table now : String) (tree : Value) :
    ℕ → List Row → Render (List Value)
  | _, [] => return []
  | index, row :: rest => do
    let item ← substitute rt (buildScope row cfg { table, now, index }) tree
    let items ← renderItems cfg table now tree (index + 1) rest
    return item :: items

/-- Render N rows into a single array body (used when `batchSize > 1`). -/
def renderBatch (rows : List Row) (cfg : TransformConfig) (startIndex : ℕ) (table now : String) :
    Except String RenderResult := do
  let tree ← parseTemplate rt cfg.template
  let (items, warnings) ← (renderItems rt cfg table now tree startIndex rows).run []
  return { body := wrap (.array (toItems items)) cfg, warnings }

end Rendering

end Syncle.Payload
