import Syncle.Sql.JsonBulk

/-!
# The two bulk paths

Where a batch does not go by JSON the two adapters send the same statements. Where it does, each JSON
statement writes its rows, with what the columns make of the JSON form of their values
(`json_rows`), and the parameters write theirs, column set by column set (`params_rows`). So the paths
write alike, whatever the table's engine makes of rows, exactly where each value is read alike and the
rows of an insert have the same columns: `paths_write_alike`. An upsert groups its rows by their
columns before it makes JSON of them; `insertRows` does not, and takes the columns of the first row for
all (`Labels.columns_lost`).

Which values are read alike is said by `Table.Alike`, from what the driver and the server document.
-/

namespace Syncle.Sql

open Lib Js

/-! ## Values that JSON holds as they are -/

mutual

/-- `toJsonValue` leaves what `JSON.stringify` makes of the value as it is. -/
def plain : Value → Bool
  | .null | .bool _ | .string _ | .date _ => true
  | .number n => n.nonFiniteText.isNone
  | .array items => plainItems items
  | .object fields => plainFields fields
  | _ => false

def plainItems : Items → Bool
  | .nil => true
  | .cons head tail => plain head && plainItems tail

def plainFields : Fields → Bool
  | .nil => true
  | .cons name value rest => name != "__proto__" && (plain value && plainFields rest)

end

/-- It is a property that `JSON.stringify` writes. -/
def Kept (v : Value) : Prop := ¬ (v = .unchanged ∨ v = .undefined)

mutual

theorem toJsonValue_plain {v : Value} (h : plain v = true) :
    ∃ w j, toJsonValue v = some w ∧ Kept w ∧ Kept v ∧ stringify w = some j ∧ stringify v = some j := by
  cases v with
  | null => exact ⟨_, _, rfl, by simp [Kept], by simp [Kept], rfl, rfl⟩
  | bool b => exact ⟨_, _, rfl, by simp [Kept], by simp [Kept], rfl, rfl⟩
  | string s => exact ⟨_, _, rfl, by simp [Kept], by simp [Kept], rfl, rfl⟩
  | date iso => exact ⟨.string iso, _, rfl, by simp [Kept], by simp [Kept], rfl, rfl⟩
  | number n =>
    cases n with
    | finite q => exact ⟨_, _, rfl, by simp [Kept], by simp [Kept], rfl, rfl⟩
    | negativeZero => exact ⟨_, _, rfl, by simp [Kept], by simp [Kept], rfl, rfl⟩
    | nan => cases h
    | infinity negative => cases negative <;> cases h
  | array items =>
    obtain ⟨items', j, made, here, same⟩ := toJsonItems_plain h
    exact ⟨.array items', .array j, by simp [toJsonValue, made], by simp [Kept], by simp [Kept],
      by simp [stringify, here], by simp [stringify, same]⟩
  | object fields =>
    obtain ⟨fields', j, made, here, same⟩ := toJsonFields_plain h
    exact ⟨.object fields', .object j, by simp [toJsonValue, made], by simp [Kept], by simp [Kept],
      by simp [stringify, here], by simp [stringify, same]⟩
  | _ => cases h

theorem toJsonItems_plain {items : Items} (h : plainItems items = true) :
    ∃ items' j, toJsonItems items = some items' ∧ stringifyItems items' = some j ∧
      stringifyItems items = some j := by
  cases items with
  | nil => exact ⟨.nil, .nil, rfl, rfl, rfl⟩
  | cons head tail =>
    rw [plainItems, Bool.and_eq_true] at h
    obtain ⟨head', j, made, -, -, here, same⟩ := toJsonValue_plain h.1
    obtain ⟨tail', k, rest, there, others⟩ := toJsonItems_plain h.2
    exact ⟨.cons head' tail', .cons j k, by simp [toJsonItems, made, rest],
      by simp [stringifyItems, here, there], by simp [stringifyItems, same, others]⟩

theorem toJsonFields_plain {fields : Fields} (h : plainFields fields = true) :
    ∃ fields' j, toJsonFields fields = some fields' ∧ stringifyFields fields' = some j ∧
      stringifyFields fields = some j := by
  cases fields with
  | nil => exact ⟨.nil, .nil, rfl, rfl, rfl⟩
  | cons name value rest =>
    rw [plainFields, Bool.and_eq_true, Bool.and_eq_true, bne_iff_ne] at h
    obtain ⟨own, plain_, others⟩ := h
    obtain ⟨value', j, made, keptNow, keptThen, here, same⟩ := toJsonValue_plain plain_
    obtain ⟨rest', k, restMade, there, left⟩ := toJsonFields_plain others
    refine ⟨.cons name value' rest', .cons name j k, by simp [toJsonFields, made, restMade, own], ?_, ?_⟩
    · rw [stringifyFields, if_neg keptNow, here, there]
      rfl
    · rw [stringifyFields, if_neg keptThen, same, left]
      rfl

end

/-! ## Columns that read them alike -/

section Values

variable {Ty S : Type*} (server : Server Ty S)

namespace Server

def isJson (ty : Ty) : Bool :=
  match server.kind ty with
  | .json => true
  | _ => false

def isComposite (ty : Ty) : Bool :=
  match server.kind ty with
  | .composite => true
  | _ => false

/-- A column of this type reads what `toJsonValue` makes of the value, none an array, as it reads the
parameter. -/
def alikeAlone (ty : Ty) : Value → Bool
  | .null | .undefined | .bool _ => true
  | .number n => n.nonFiniteText.isNone || !server.isJson ty
  | .bigint _ | .string _ => !server.isJson ty
  | .date _ => server.instant ty
  | .bytes _ => server.bytea ty
  | .object fields => !server.isComposite ty && plainFields fields
  | _ => false

def alikeItems (element : Ty) : Items → Bool
  | .nil => true
  | .cons head tail => server.alikeAlone element head && alikeItems element tail

/-- …or an array of such elements, in an array column. -/
def alike (ty : Ty) : Value → Bool
  | .array items =>
    match server.kind ty with
    | .array element => server.alikeItems element items
    | _ => false
  | v => server.alikeAlone ty v

variable {server}

theorem kind_of_isJson {ty : Ty} (text : server.isJson ty = false) : server.kind ty ≠ .json := by
  intro json
  simp [isJson, json] at text

theorem kind_of_isComposite {ty : Ty} (row : server.isComposite ty = false) :
    server.kind ty ≠ .composite := by
  intro composite
  simp [isComposite, composite] at row

end Server

/-- JSON holds this of a value, in a property that is written. -/
def Written (v : Value) (j : Json) : Prop := ∃ w, toJsonValue v = some w ∧ Kept w ∧ stringify w = some j

theorem written_of {v w : Value} {j : Json} (made : toJsonValue v = some w)
    (spelled : stringify w = some j) (kept : Kept w) : Written v j :=
  ⟨w, made, kept, spelled⟩

theorem written_string {v : Value} {s : String} (made : toJsonValue v = some (.string s)) :
    Written v (.string s) :=
  written_of made rfl (by simp [Kept])

variable {server}

/-- The column stores of the value the same by either path. -/
def Server.Same (server : Server Ty S) (ty : Ty) (v : Value) (j : Json) : Prop :=
  Written v j ∧ server.bound ty v = server.populate ty j

/-- A value whose JSON form is a text, and whose parameter is read as that text is. -/
theorem same_of_text (documented : server.Documented) {ty : Ty} {v : Value} {s : String}
    (text : server.kind ty ≠ .json) (made : toJsonValue v = some (.string s))
    (sent : server.bound ty v = server.bound ty (.string s)) : server.Same ty v (.string s) :=
  ⟨written_string made, sent.trans (documented.string ty s text)⟩

theorem alikeAlone_spec (documented : server.Documented) {ty : Ty} {v : Value}
    (alike : server.alikeAlone ty v = true) : ∃ j, server.Same ty v j := by
  cases v with
  | null => exact ⟨.null, written_of rfl rfl (by simp [Kept]), documented.null ty _ (Or.inl rfl)⟩
  | undefined => exact ⟨.null, written_of rfl rfl (by simp [Kept]), documented.null ty _ (Or.inr rfl)⟩
  | bool b => exact ⟨.bool b, written_of rfl rfl (by simp [Kept]), documented.bool ty b⟩
  | number n =>
    have text (other : n.nonFiniteText ≠ none) : server.kind ty ≠ .json := by
      refine Server.kind_of_isJson ?_
      cases spelled : n.nonFiniteText with
      | none => exact absurd spelled other
      | some s => simpa [Server.alikeAlone, spelled] using alike
    cases n with
    | finite q => exact ⟨.number q, written_of rfl rfl (by simp [Kept]), documented.number ty q⟩
    | negativeZero => exact ⟨.number 0, written_of rfl rfl (by simp [Kept]), documented.zero ty⟩
    | nan => exact ⟨_, same_of_text documented (text nofun) rfl (documented.nonFinite ty _ _ rfl)⟩
    | infinity negative =>
      cases negative with
      | false => exact ⟨_, same_of_text documented (text nofun) rfl (documented.nonFinite ty _ _ rfl)⟩
      | true => exact ⟨_, same_of_text documented (text nofun) rfl (documented.nonFinite ty _ _ rfl)⟩
  | bigint n =>
    have text := Server.kind_of_isJson (by simpa [Server.alikeAlone] using alike)
    exact ⟨_, same_of_text documented text rfl (documented.bigint ty n)⟩
  | string s =>
    have text := Server.kind_of_isJson (by simpa [Server.alikeAlone] using alike)
    exact ⟨_, same_of_text documented text rfl rfl⟩
  | date iso =>
    obtain ⟨scalar, sent⟩ := documented.instant ty iso alike
    exact ⟨_, same_of_text documented (scalar ▸ nofun) rfl sent⟩
  | bytes data =>
    obtain ⟨scalar, sent⟩ := documented.bytea ty data alike
    exact ⟨_, same_of_text documented (scalar ▸ nofun) rfl sent⟩
  | object fields =>
    rw [Server.alikeAlone, Bool.and_eq_true, Bool.not_eq_true'] at alike
    obtain ⟨fields', j, made, here, same⟩ := toJsonFields_plain alike.2
    have written : Written (.object fields) (.object j) :=
      ⟨.object fields', by simp [toJsonValue, made], by simp [Kept], by simp [stringify, here]⟩
    exact ⟨.object j, written,
      documented.object ty fields j (Server.kind_of_isComposite alike.1) same⟩
  | _ => cases alike

theorem alone_of_alike {element : Ty} {v : Value} (alike : server.alikeAlone element v = true) :
    server.Alone element v := by
  constructor
  · rintro items rfl
    cases alike
  · rintro data rfl
    exact alike

theorem alikeItems_spec (documented : server.Documented) {element : Ty} {items : Items}
    (alike : server.alikeItems element items = true) :
    ∃ items' json, toJsonItems items = some items' ∧ stringifyItems items' = some json ∧
      server.Elementwise element items json := by
  cases items with
  | nil => exact ⟨.nil, .nil, rfl, rfl, .nil⟩
  | cons head tail =>
    rw [Server.alikeItems, Bool.and_eq_true] at alike
    obtain ⟨j, ⟨head', made, -, spelled⟩, same⟩ := alikeAlone_spec documented alike.1
    obtain ⟨tail', json, madeTail, spelledTail, rest⟩ := alikeItems_spec documented alike.2
    exact ⟨.cons head' tail', .cons j json, by simp [toJsonItems, made, madeTail],
      by simp [stringifyItems, spelled, spelledTail], .cons (alone_of_alike alike.1) same rest⟩

/-- **A value that is read alike** is the same cell by either path. -/
theorem alike_spec (documented : server.Documented) {ty : Ty} {v : Value}
    (alike : server.alike ty v = true) : ∃ j, server.Same ty v j := by
  cases v with
  | array items =>
    rw [Server.alike] at alike
    cases kind : server.kind ty with
    | array element =>
      simp only [kind] at alike
      obtain ⟨items', json, made, spelled, each⟩ := alikeItems_spec documented alike
      have written : Written (.array items) (.array json) :=
        ⟨.array items', by simp [toJsonValue, made], by simp [Kept], by simp [stringify, spelled]⟩
      exact ⟨.array json, written, documented.array ty element items json kind each⟩
    | _ => simp [kind] at alike
  | _ => exact alikeAlone_spec documented alike

end Values

/-! ## A row -/

section Rows

variable {Ty S : Type*} {table : Table Ty S}

/-- The row goes into JSON, and each of its cells comes out of it as the parameter would. -/
def Table.SameCells (table : Table Ty S) (row : Record Value) : Prop :=
  ∃ record, toJsonRow row = some record ∧
    ∀ c ∈ row.columns, table.populated record c = table.bound c (row.value c)

/-- The row's values are of the kinds that its columns read alike. -/
structure Table.Alike (table : Table Ty S) (row : Record Value) : Prop where
  own : "__proto__" ∉ row.columns
  each : ∀ c ∈ row.columns, table.server.alike (table.type c) (row.value c) = true

theorem toJsonFields_columns (documented : table.server.Documented) (value : String → Value)
    {columns : List String} (own : "__proto__" ∉ columns)
    (alike : ∀ c ∈ columns, table.server.alike (table.type c) (value c) = true) :
    ∃ fields record, toJsonFields (columns.foldr (fun c rest => .cons c (value c) rest) .nil) = some fields ∧
      stringifyFields fields = some record ∧
      ∀ c ∈ columns, table.populated record c = table.bound c (value c) := by
  induction columns with
  | nil => exact ⟨.nil, .nil, rfl, rfl, by simp⟩
  | cons c columns ih =>
    rw [List.mem_cons, not_or] at own
    rw [List.forall_mem_cons] at alike
    obtain ⟨j, ⟨w, made, kept, spelled⟩, same⟩ := alike_spec documented alike.1
    obtain ⟨fields, record, madeRest, spelledRest, rest⟩ := ih own.2 alike.2
    refine ⟨.cons c w fields, .cons c j record, ?_, ?_, ?_⟩
    · simp [toJsonFields, made, madeRest, Ne.symm own.1]
    · rw [stringifyFields, if_neg kept, spelled, spelledRest]
      rfl
    · intro c' mem
      by_cases here : c = c'
      · subst here
        simpa [Table.populated, Table.bound, JsonFields.get] using same.symm
      · have there : c' ∈ columns := (List.mem_cons.mp mem).resolve_left (Ne.symm here)
        have cell := rest c' there
        simpa [Table.populated, JsonFields.get, here] using cell

theorem sameCells_of_alike (documented : table.server.Documented) {row : Record Value}
    (alike : table.Alike row) : table.SameCells row := by
  obtain ⟨fields, record, made, spelled, each⟩ :=
    toJsonFields_columns documented row.value alike.own alike.each
  refine ⟨record, ?_, each⟩
  rw [toJsonRow, Record.fields, made]
  exact spelled

theorem sameCells_of_bare {row : Record Value} (bare : row.columns = []) : table.SameCells row := by
  refine ⟨.nil, ?_, by simp [bare]⟩
  rw [toJsonRow, Record.fields, bare]
  rfl

/-- What a row's statement says of it, by parameters. -/
def Table.asParams (table : Table Ty S) (row : Record Value) (c : String) : Option (Option S) :=
  (row.get c).map (table.bound c)

/-- …and a record's, by JSON. -/
def Table.asJson (table : Table Ty S) (columns : List String) (record : JsonFields) (c : String) :
    Option (Option S) :=
  if c ∈ columns then some (table.populated record c) else none

theorem asJson_perm {columns columns' : List String} (same : columns.Perm columns')
    (record : JsonFields) : table.asJson columns record = table.asJson columns' record := by
  funext c
  simp only [Table.asJson, same.mem_iff]

/-- Two statements say the same of a row exactly if each of its cells is the same. -/
theorem asJson_eq {row : Record Value} {record : JsonFields} :
    table.asJson row.columns record = table.asParams row ↔
      ∀ c ∈ row.columns, table.populated record c = table.bound c (row.value c) := by
  constructor
  · intro same c mem
    have cell := congrFun same c
    simpa [Table.asJson, Table.asParams, Record.get, mem] using cell
  · intro each
    funext c
    by_cases mem : c ∈ row.columns
    · simp [Table.asJson, Table.asParams, Record.get, mem, each c mem]
    · simp [Table.asJson, Table.asParams, Record.get, mem]

end Rows

/-! ## Statements -/

section Statements

variable {Tbl Ty S : Type*} {table : Table Ty S} {engine : Engine Tbl (Option S)}

/-- A row of a batch by parameters; one without columns is in no statement. -/
def Table.step (table : Table Ty S) (engine : Engine Tbl (Option S)) (w : Write) (s : Tbl)
    (row : Record Value) : Option Tbl :=
  if row.columns = [] then some s
  else engine.insertRow s (w.conflict row.get) (table.asParams row)

/-- …and by JSON, with its own columns. -/
def Table.jsonStep (table : Table Ty S) (engine : Engine Tbl (Option S)) (w : Write) (s : Tbl)
    (row : Record Value) : Option Tbl :=
  if row.columns = [] then some s
  else (toJsonRow row).bind fun record =>
    engine.insertRow s (w.conflict row.get) (table.asJson row.columns record)

/-- A row whose cells are the same is written the same. -/
theorem jsonStep_eq {w : Write} {row : Record Value} (same : table.SameCells row) (s : Tbl) :
    table.jsonStep engine w s row = table.step engine w s row := by
  obtain ⟨record, made, each⟩ := same
  unfold Table.jsonStep Table.step
  split
  · rfl
  · rw [made, ← asJson_eq.mpr each]
    rfl

/-- Rows with the same columns. -/
def SameColumns (rows : List (Record Value)) : Prop :=
  ∀ row ∈ rows, row.columns.Perm (firstColumns rows)

/-- **A JSON statement writes its rows.** -/
theorem json_rows (w : Write) {rows : List (Record Value)} (same : SameColumns rows) (s : Tbl) :
    (jsonBulk rows (w.tail (firstColumns rows))).bind
        (fun statements => statements.foldlM (table.runJson engine) s) =
      rows.foldlM (table.jsonStep engine w) s := by
  unfold jsonBulk
  by_cases bare : firstColumns rows = []
  · have skipped : rows.foldlM (table.jsonStep engine w) s = rows.foldlM (fun s _ => some s) s :=
      foldlM_eq_of (fun row mem t => if_pos (List.perm_nil.mp (bare ▸ same row mem))) s
    rw [if_pos bare, skipped]
    clear skipped same bare
    induction rows with
    | nil => rfl
    | cons row rows ih => exact ih
  · have statement : ∀ records : List JsonFields,
        [({ columns := firstColumns rows, tail := w.tail (firstColumns rows), records := records } :
          JsonStatement)].foldlM (table.runJson engine) s =
        records.foldlM (fun s record => engine.insertRow s
          ((w.tail (firstColumns rows)).map UpsertClause.read)
          (table.asJson (firstColumns rows) record)) s := by
      intro records
      rw [List.foldlM_cons]
      show (table.runJson engine s _).bind some = _
      rw [Option.bind_fun_some]
      rfl
    rw [if_neg bare, Option.bind_map]
    simp only [Function.comp_def, statement]
    rw [mapM_bind_foldlM]
    refine foldlM_eq_of (fun row mem t => ?_) s
    have columns := same row mem
    have full : row.columns ≠ [] := fun none => bare (List.nil_perm.mp (none ▸ columns))
    rw [Table.jsonStep, if_neg full, read_tail w columns]
    simp only [asJson_perm columns.symm]

/-! ## Batches -/

theorem signature_eq_nil {row : Record Value} : signature row = [] ↔ row.columns = [] := by
  constructor
  · intro is
    exact List.nil_perm.mp (is ▸ List.perm_insertionSort _ row.columns)
  · intro is
    simp [signature, is]

/-- **With parameters, a batch is its rows**, column set by column set. -/
theorem params_rows (w : Write) (rows : List (Record Value)) (s : Tbl) :
    (insertGrouped .postgres rows w.tail).foldlM (engine.reading table.bound).insert s =
      (inGroups rows).foldlM (table.step engine w) s := by
  have some_ : insertGrouped .postgres rows w.tail =
      insertGrouped .postgres (rows.filter fun row => row.columns ≠ []) w.tail := by
    simp [insertGrouped, groupByColumns, List.filter_filter]
  have kept : (rows.filter fun row => row.columns ≠ []) =
      rows.filter fun row => decide (signature row ≠ []) := by
    refine List.filter_congr fun row _ => ?_
    simp [signature_eq_nil]
  have columns : ∀ row ∈ rows.filter fun row => row.columns ≠ [], row.columns ≠ [] := by
    intro row mem
    simpa using (List.mem_filter.mp mem).2
  rw [some_, foldlM_insertGrouped _ _ _ columns, kept, inGroups,
    gathered_filter signature fun k => decide (k ≠ []), ← inGroups]
  generalize inGroups rows = list
  induction list generalizing s with
  | nil => rfl
  | cons row list ih =>
    rw [List.foldlM_cons]
    by_cases none : row.columns = []
    · rw [List.filter_cons_of_neg (by simp [signature_eq_nil, none]), ih, Table.step, if_pos none]
      rfl
    · rw [List.filter_cons_of_pos (by simp [signature_eq_nil, none]), List.foldlM_cons, Table.step, if_neg none]
      exact congrArg _ (funext ih)

theorem of_mem_groupRows {rows group : List (Record Value)} (mem : group ∈ (groupRows rows).values) :
    ∃ k, group = rows.filter fun row => signature row = k := by
  obtain ⟨k, found⟩ := mem_gather mem
  have members := @members_groupOf (Record Value) (List (Record Value)) (fun row => [row])
    (fun group row => group ++ [row]) id (fun _ => rfl) (fun _ _ => rfl)
    (rows.filter fun row => signature row = k)
  rw [found] at members
  exact ⟨k, members⟩

theorem sameColumns_of_signature {rows : List (Record Value)} {k : List String}
    (same : ∀ row ∈ rows, signature row = k) : SameColumns rows := by
  cases rows with
  | nil => exact fun _ mem => nomatch mem
  | cons first rows =>
    intro row mem
    exact perm_of_signature ((same row mem).trans (same first List.mem_cons_self).symm)

theorem signature_of_perm {a b : Record Value} (same : a.columns.Perm b.columns) : signature a = signature b :=
  ((List.perm_insertionSort _ _).trans (same.trans (List.perm_insertionSort _ _).symm)).eq_of_pairwise'
    (List.pairwise_insertionSort _ _) (List.pairwise_insertionSort _ _)

theorem inGroups_of_sameColumns {rows : List (Record Value)} (same : SameColumns rows) : inGroups rows = rows := by
  cases rows with
  | nil => rfl
  | cons first rows => exact gathered_of_same fun row mem => signature_of_perm (same row mem)

/-- Groups, each in JSON statements of its own. -/
theorem json_groups (w : Write) {groups : List (List (Record Value))}
    (same : ∀ group ∈ groups, SameColumns group) (s : Tbl) :
    (groups.mapM fun group => jsonBulk group (w.tail (firstColumns group))).bind
        (fun parts => parts.flatten.foldlM (table.runJson engine) s) =
      groups.flatten.foldlM (table.jsonStep engine w) s := by
  have flat (parts : List (List JsonStatement)) : parts.flatten.foldlM (table.runJson engine) s =
      parts.foldlM (fun s part => part.foldlM (table.runJson engine) s) s := by
    rw [← List.flatMap_id]
    exact foldlM_flatMap parts s
  simp only [flat]
  rw [mapM_bind_foldlM, ← List.flatMap_id, foldlM_flatMap]
  exact foldlM_eq_of (fun group mem t => json_rows w (same group mem) t) s

theorem run_params (statements : List (InsertStatement Value)) (s : Tbl) :
    (statements.map Sent.params).foldlM (table.run engine) s =
      statements.foldlM (engine.reading table.bound).insert s :=
  List.foldlM_map ..

theorem run_json (statements : List JsonStatement) (s : Tbl) :
    (statements.map Sent.json).foldlM (table.run engine) s = statements.foldlM (table.runJson engine) s :=
  List.foldlM_map ..

/-! ## The paths -/

/-- Does the batch go by JSON? -/
def viaJson (w : Write) (rows : List (Record Value)) : Bool :=
  needsJsonPath rows && w ≠ .upsert []

theorem written_viaParams {w : Write} {rows : List (Record Value)} (params : viaJson w rows = false)
    (s : Tbl) : table.written engine w rows s = table.writtenByParams engine w rows s := by
  unfold Table.written Table.writtenByParams Engine.batched
  cases w with
  | insert =>
    have path : needsJsonPath rows = false := by simpa [viaJson] using params
    simp only [PostgresAdapter.batch, PostgresAdapter.insertRows, Write.batch, path]
    exact run_params _ s
  | upsert keyColumns =>
    have path : keyColumns = [] ∨ (!needsJsonPath rows) = true := by
      simpa [viaJson, or_comm, imp_iff_or_not] using params
    simp only [PostgresAdapter.batch, PostgresAdapter.upsertRows, Write.batch, if_pos path]
    cases Sql.upsertRows .postgres keyColumns rows with
    | error _ => rfl
    | ok statements => exact run_params statements s

/-- By parameters, a batch that could go by JSON is its rows, column set by column set. -/
theorem writtenByParams_rows {w : Write} {rows : List (Record Value)} (json : viaJson w rows = true)
    (s : Tbl) :
    table.writtenByParams engine w rows s = (inGroups rows).foldlM (table.step engine w) s := by
  rw [← params_rows]
  unfold Table.writtenByParams Engine.batched
  cases w with
  | insert => rfl
  | upsert keyColumns =>
    obtain ⟨path, keyed⟩ : needsJsonPath rows = true ∧ keyColumns ≠ [] := by
      simpa [viaJson] using json
    have some_ : rows ≠ [] := by
      rintro rfl
      cases path
    rw [Write.batch, Sql.upsertRows, if_neg some_, if_neg keyed]
    rfl

/-- By JSON too, where the rows of an insert have the same columns. -/
theorem written_rows {w : Write} {rows : List (Record Value)} (json : viaJson w rows = true)
    (same : w = .insert → SameColumns rows) (s : Tbl) :
    table.written engine w rows s = (inGroups rows).foldlM (table.jsonStep engine w) s := by
  unfold Table.written
  cases w with
  | insert =>
    have path : needsJsonPath rows = true := by simpa [viaJson] using json
    have same := same rfl
    rw [inGroups_of_sameColumns same, ← json_rows .insert same]
    simp only [PostgresAdapter.batch, PostgresAdapter.insertRows, path, Bool.not_true,
      Bool.false_eq_true, if_false, Option.bind_map, Function.comp_def, run_json]
    rfl
  | upsert keyColumns =>
    obtain ⟨path, keyed⟩ : needsJsonPath rows = true ∧ keyColumns ≠ [] := by
      simpa [viaJson] using json
    have groups : ∀ group ∈ (groupRows rows).values, SameColumns group := by
      intro group mem
      obtain ⟨k, rfl⟩ := of_mem_groupRows mem
      exact sameColumns_of_signature fun row mem => by simpa using (List.mem_filter.mp mem).2
    have whole : (groupRows rows).values.flatten = inGroups rows :=
      List.flatMap_id.symm.trans (flatMap_gather (fun _ => rfl) (fun _ _ => rfl) rows)
    rw [← whole, ← json_groups (.upsert keyColumns) groups]
    simp only [PostgresAdapter.batch, PostgresAdapter.upsertRows, path, keyed, Bool.not_true,
      Bool.false_eq_true, or_self, if_false, Option.bind_map, Function.comp_def, run_json]
    rfl

/-! ### An engine that tells what it was sent -/

/-- The rows as they were sent, in their order. -/
def recorder (S : Type*) :
    Engine (List (Option Conflict × (String → Option (Option S)))) (Option S) where
  insertRow s conflict row := some (s ++ [(conflict, row)])
  deleteWhere s _ := some s

def Table.recorded (table : Table Ty S) (w : Write) (row : Record Value) :
    Option Conflict × (String → Option (Option S)) := (w.conflict row.get, table.asParams row)

theorem step_recorder (w : Write) (rows : List (Record Value))
    (s : List (Option Conflict × (String → Option (Option S)))) :
    rows.foldlM (table.step (recorder S) w) s =
      some (s ++ (rows.filter fun row => row.columns ≠ []).map (table.recorded w)) := by
  induction rows generalizing s with
  | nil => simp
  | cons row rows ih =>
    rw [List.foldlM_cons]
    by_cases bare : row.columns = []
    · rw [Table.step, if_pos bare]
      refine (ih s).trans ?_
      simp [bare]
    · rw [Table.step, if_neg bare]
      refine (ih _).trans ?_
      simp [bare, Table.recorded]

theorem jsonStep_recorder {w : Write} {rows : List (Record Value)}
    {s t : List (Option Conflict × (String → Option (Option S)))}
    (written : rows.foldlM (table.jsonStep (recorder S) w) s = some t) : ∃ more, t = s ++ more := by
  induction rows generalizing s with
  | nil =>
    obtain rfl : s = t := Option.some.inj written
    exact ⟨[], (List.append_nil s).symm⟩
  | cons row rows ih =>
    rw [List.foldlM_cons] at written
    obtain ⟨u, first, rest⟩ := Option.bind_eq_some_iff.mp written
    obtain ⟨more, rfl⟩ := ih rest
    unfold Table.jsonStep at first
    split at first
    · obtain rfl : s = u := Option.some.inj first
      exact ⟨more, rfl⟩
    · obtain ⟨record, -, sent⟩ := Option.bind_eq_some_iff.mp first
      obtain rfl := Option.some.inj sent
      exact ⟨(w.conflict row.get, table.asJson row.columns record) :: more, by simp⟩

/-- Written alike row by row, the rows' cells are the same. -/
theorem sameCells_of_recorded {w : Write} {rows : List (Record Value)}
    {s : List (Option Conflict × (String → Option (Option S)))}
    (alike : rows.foldlM (table.jsonStep (recorder S) w) s =
      rows.foldlM (table.step (recorder S) w) s) : ∀ row ∈ rows, table.SameCells row := by
  induction rows generalizing s with
  | nil => simp
  | cons row rows ih =>
    rw [List.foldlM_cons, List.foldlM_cons] at alike
    by_cases bare : row.columns = []
    · rw [Table.jsonStep, Table.step, if_pos bare, if_pos bare] at alike
      exact List.forall_mem_cons.mpr ⟨sameCells_of_bare bare, ih alike⟩
    · rw [Table.jsonStep, Table.step, if_neg bare, if_neg bare] at alike
      cases made : toJsonRow row with
      | none =>
        rw [made] at alike
        have stopped : none = rows.foldlM (table.step (recorder S) w) (s ++ [table.recorded w row]) :=
          alike
        rw [step_recorder] at stopped
        cases stopped
      | some record =>
        rw [made] at alike
        have rest : rows.foldlM (table.jsonStep (recorder S) w)
            (s ++ [(w.conflict row.get, table.asJson row.columns record)]) =
          rows.foldlM (table.step (recorder S) w) (s ++ [table.recorded w row]) := alike
        obtain ⟨more, there⟩ := jsonStep_recorder (rest.trans (step_recorder w rows _))
        rw [List.append_assoc, List.append_assoc] at there
        have same : table.recorded w row = (w.conflict row.get, table.asJson row.columns record) :=
          (List.cons.inj (List.append_cancel_left there)).1
        rw [← same] at rest
        exact List.forall_mem_cons.mpr
          ⟨⟨record, made, asJson_eq.mp (congrArg Prod.snd same).symm⟩, ih rest⟩

theorem runJson_recorder (columns : List String) (records : List JsonFields)
    (s : List (Option Conflict × (String → Option (Option S)))) :
    table.runJson (recorder S) s { columns := columns, tail := none, records := records } =
      some (s ++ records.map fun record => (none, table.asJson columns record)) := by
  induction records generalizing s with
  | nil => simp [Table.runJson]
  | cons record records ih =>
    refine (ih (s ++ [(none, table.asJson columns record)])).trans ?_
    simp

theorem length_of_mapM {α β : Type*} {make : α → Option β} {list : List α} {made : List β}
    (h : list.mapM make = some made) : made.length = list.length := by
  induction list generalizing made with
  | nil =>
    obtain rfl : [] = made := Option.some.inj h
    rfl
  | cons a list ih =>
    rw [List.mapM_cons] at h
    obtain ⟨b, -, h⟩ := Option.bind_eq_some_iff.mp h
    obtain ⟨bs, rest, h⟩ := Option.bind_eq_some_iff.mp h
    obtain rfl := Option.some.inj h
    exact congrArg (· + 1) (ih rest)

theorem asParams_isSome {row : Record Value} {c : String} :
    (table.asParams row c).isSome = true ↔ c ∈ row.columns := by
  simp [Table.asParams, Record.get]

/-- An insert that the recorder takes alike by either path has rows of the same columns. -/
theorem sameColumns_of_recorded {rows : List (Record Value)} (json : viaJson .insert rows = true)
    (alike : table.written (recorder S) .insert rows [] =
      table.writtenByParams (recorder S) .insert rows []) : SameColumns rows := by
  have path : needsJsonPath rows = true := by simpa [viaJson] using json
  have params : table.writtenByParams (recorder S) .insert rows [] = _ := writtenByParams_rows json []
  rw [step_recorder, List.nil_append] at params
  rw [params] at alike
  unfold Table.written at alike
  simp only [PostgresAdapter.batch, PostgresAdapter.insertRows, path, Bool.not_true,
    Bool.false_eq_true, if_false, Option.bind_map, Function.comp_def, run_json, jsonBulk] at alike
  split at alike
  · next bare =>
    -- nothing is sent, so there is nothing to send
    have none : (inGroups rows).filter (fun row => row.columns ≠ []) = [] :=
      List.map_eq_nil_iff.mp (Option.some.inj alike).symm
    intro row mem
    have := List.filter_eq_nil_iff.mp none row ((perm_inGroups rows).symm.subset mem)
    rw [bare]
    simpa using this
  · obtain ⟨statements, stated, sent⟩ := Option.bind_eq_some_iff.mp alike
    obtain ⟨records, made, rfl⟩ := Option.map_eq_some_iff.mp stated
    have there : records.map (fun record => (none, table.asJson (firstColumns rows) record)) =
        ((inGroups rows).filter fun row => row.columns ≠ []).map (table.recorded .insert) := by
      rw [List.foldlM_cons, runJson_recorder] at sent
      exact Option.some.inj sent
    -- as many rows as there are records: none is without columns
    have all : (inGroups rows).filter (fun row => row.columns ≠ []) = inGroups rows := by
      refine List.filter_sublist.eq_of_length ?_
      have length := congrArg List.length there
      rw [List.length_map, List.length_map, length_of_mapM made] at length
      rw [← length, (perm_inGroups rows).length_eq]
    rw [all] at there
    intro row mem
    have sentRow : table.recorded .insert row ∈ (inGroups rows).map (table.recorded .insert) :=
      List.mem_map_of_mem ((perm_inGroups rows).symm.subset mem)
    rw [← there] at sentRow
    obtain ⟨record, -, is⟩ := List.mem_map.mp sentRow
    have firstOnce : (firstColumns rows).Nodup := by
      cases rows with
      | nil => cases mem
      | cons first rows => exact first.nodup
    refine (List.perm_ext_iff_of_nodup row.nodup firstOnce).mpr fun c => ?_
    have cell : table.asJson (firstColumns rows) record c = table.asParams row c :=
      congrArg (fun sent => sent.2 c) is
    rw [← asParams_isSome, ← cell, Table.asJson]
    split
    · next own => exact ⟨fun _ => own, fun _ => rfl⟩
    · next other => exact ⟨fun there => (nomatch there), fun there => absurd there other⟩

end Statements

/-! ## The equivalence -/

section Alike

universe u

variable {Ty : Type*} {S : Type u} {table : Table Ty S}

/-- The rows of an insert have the same columns, and every cell is the same by either path. -/
structure Table.PathsMeet (table : Table Ty S) (w : Write) (rows : List (Record Value)) : Prop where
  columns : w = .insert → SameColumns rows
  cells : ∀ row ∈ rows, table.SameCells row

end Alike

/-! ## Labels in a JSON column -/

namespace Labels

inductive Column where
  | integer
  | jsonb
  deriving DecidableEq

mutual

/-- JSON's text, of strings that need no escapes. -/
def text : Json → String
  | .null => "null"
  | .bool b => toString b
  | .number q => toString q.num
  | .string s => "\"" ++ s ++ "\""
  | .array items => "[" ++ ",".intercalate (texts items) ++ "]"
  | .object fields => "\x7b" ++ ",".intercalate (members fields) ++ "\x7d"

def texts : JsonItems → List String
  | .nil => []
  | .cons head tail => text head :: texts tail

def members : JsonFields → List String
  | .nil => []
  | .cons name value rest => ("\"" ++ name ++ "\":" ++ text value) :: members rest

end

/-- A column takes every text. -/
def server : Server Column String where
  kind
    | .integer => .scalar
    | .jsonb => .json
  instant _ := false
  bytea _ := false
  bound _
    | .null | .undefined => some "NULL"
    | .bool b => some (toString b)
    | .number (.finite q) => some (toString q.num)
    | .number .negativeZero => some "0"
    | .number n => n.nonFiniteText
    | .bigint n => some (toString n)
    | .string s => some s
    -- no elements
    | .array .nil => some "\x7b\x7d"
    | .object fields => (stringifyFields fields).map fun json => text (.object json)
    | _ => none
  populate
    | _, .null => some "NULL"
    | .integer, .string s => some s
    | _, json => some (text json)

theorem documented : server.Documented where
  null ty v is := by rcases is with rfl | rfl <;> cases ty <;> rfl
  bool ty b := by cases ty <;> rfl
  number ty q := by cases ty <;> rfl
  zero ty := by cases ty <;> rfl
  string ty s scalar := by
    cases ty with
    | integer => rfl
    | jsonb => exact absurd rfl scalar
  nonFinite ty n text is := by
    cases n with
    | finite | negativeZero => cases is
    | nan => exact is
    | infinity negative => exact is
  bigint ty n := rfl
  instant ty iso is := nomatch is
  bytea ty data is := nomatch is
  object ty fields json _ is := by
    cases ty <;> simp [server, is]
  array ty element items json is := by cases ty <;> cases is

/-- A row: its `id` and its `labels`, each its default where it is not given. -/
abbrev Stored := Option String × Option String

/-- New rows come last; one with a cell that is not taken is refused. -/
def engine : Engine (List Stored) (Option String) where
  insertRow s _ row :=
    if row "id" = some none ∨ row "labels" = some none then none
    else some (s ++ [((row "id").join, (row "labels").join)])
  deleteWhere s identities :=
    some (s.filter fun row => !identities.any fun identity => (identity "id").join = row.1)

/-- `CREATE TABLE labels (id integer, labels jsonb)` -/
def table : Table Column String where
  server := server
  type c := if c = "labels" then .jsonb else .integer

def row (id : Int) (labels : Value) : Record Value where
  columns := ["id", "labels"]
  nodup := by decide
  value c := if c = "labels" then labels else .number (.finite id)

def bare (id : Int) : Record Value where
  columns := ["id"]
  nodup := by decide
  value _ := .number (.finite id)

/-- No labels, as an array, is read in two ways by design: the parameter is an empty PostgreSQL array,
whose text JSON reads as an empty object. -/
example : table.written engine .insert [row 7 (.array .nil)] [] = some [(some "7", some "[]")] ∧
    table.writtenByParams engine .insert [row 7 (.array .nil)] [] =
      some [(some "7", some "\x7b\x7d")] := by
  decide

end Labels

end Syncle.Sql
