import Syncle.Payload.ByPosition

/-!
# What is sent of a row

`renderRow` and `renderBatch` fill the template with what a row's scope names: its own columns, and
the built-ins, which win where a column is called like one.
-/

namespace Syncle.Payload

open Js Lib Shape Http

section Scope

variable (row : Row) (cfg : TransformConfig) (ctx : TransformContext)

/-- What a token names. -/
def named (name : String) : Option Value :=
  if name = "$row" then some (objectOf (projectRow row cfg))
  else if name = "$table" then some (.string ctx.table)
  else if name = "$now" then some (.string ctx.now)
  else if name = "$index" then some (.number (.finite ctx.index))
  else row.get? name

/-- The name a column has in `$row`. -/
def outputName (column : String) : String := (cfg.rename.bind fun rename => rename.get? column).getD column

/-- No column is called like something every object has, unless `rename` lists it. -/
def OwnNames : Prop :=
  ∀ rename, cfg.rename = some rename → ∀ column ∈ row.keys,
    inherited column = none ∨ (rename.get? column).isSome

variable {row cfg ctx}

theorem get?_buildScope : (buildScope row cfg ctx).get? = named row cfg ctx := by
  funext name
  unfold buildScope named
  simp only [OrderedMap.get?_set]
  by_cases row_ : name = "$row"
  · subst row_
    simp
  by_cases table : name = "$table"
  · subst table
    simp
  by_cases now : name = "$now"
  · subst now
    simp
  simp [row_, table, now]

theorem outputKey_eq (own : OwnNames row cfg) {column : String} (mem : column ∈ row.keys) :
    outputKey cfg column = outputName cfg column := by
  unfold outputKey outputName
  cases is : cfg.rename with
  | none => rfl
  | some rename =>
    rcases own rename is column mem with none_ | listed
    · simp [none_]
    · obtain ⟨output, at_⟩ := Option.isSome_iff_exists.mp listed
      simp [at_]

theorem get?_setAll_empty {V : Type*} (entries : List (String × V)) (name : String) :
    (OrderedMap.empty.setAll entries).get? name =
      ((entries.filter fun e => e.1 = name).getLast?).map Prod.snd := by
  induction entries using List.reverseRecOn with
  | nil => rfl
  | append_singleton before last ih =>
    have step : OrderedMap.empty.setAll (before ++ [last]) =
        (OrderedMap.empty.setAll before).set last.1 last.2 := by
      simp [OrderedMap.setAll]
    rw [step, OrderedMap.get?_set, List.filter_append]
    by_cases same : last.1 = name
    · subst same
      simp
    · rw [if_neg (Ne.symm same), ih]
      simp [same]

/-- **`$row` has each kept column under its output name**, and nothing else: under a name that two
columns come to, the later one. -/
theorem get?_projectRow (own : OwnNames row cfg) (name : String) :
    (projectRow row cfg).get? name =
      ((row.entries.filter fun e => keeps cfg e.1 && outputName cfg e.1 = name).getLast?).map
        Prod.snd := by
  have keys : ∀ e ∈ row.entries, outputKey cfg e.1 = outputName cfg e.1 := by
    intro e mem
    exact outputKey_eq own (List.mem_map_of_mem mem)
  rw [projectRow, get?_setAll_empty, List.filter_map, List.getLast?_map, Option.map_map,
    List.filter_filter]
  have same : (row.entries.filter fun e => (decide ((outputKey cfg e.1, e.2).1 = name)) &&
      keeps cfg e.1) = row.entries.filter fun e => keeps cfg e.1 && outputName cfg e.1 = name := by
    apply List.filter_congr
    intro e mem
    rw [keys e mem, Bool.and_comm]
  rw [← same]
  rfl

theorem AllReturned.project (all : AllReturned row) : AllReturned (projectRow row cfg) := by
  intro name v is
  rw [projectRow, get?_setAll_empty] at is
  obtain ⟨e, last, rfl⟩ := Option.map_eq_some_iff.mp is
  obtain ⟨renamed, -⟩ := List.mem_filter.mp (List.mem_of_getLast? last)
  obtain ⟨column, kept, rfl⟩ := List.mem_map.mp renamed
  obtain ⟨own, -⟩ := List.mem_filter.mp kept
  exact all column.1 column.2 (OrderedMap.get?_eq_some.mpr own)

theorem AllReturned.scope (all : AllReturned row) : AllReturned (buildScope row cfg ctx) := by
  have number : Returned (.number (.finite (ctx.index : Rat))) := ⟨rfl, by simp, by simp⟩
  unfold buildScope
  exact (((all.set _ all.project.object).set _ (.string _)).set _ (.string _)).set _ number

theorem Apart.named {row' : Row} {c : String} (same : ∀ name, name ≠ c → row.get? name = row'.get? name) :
    Apart c (named row cfg ctx) (named row' cfg ctx) := by
  intro name other notRow
  unfold Payload.named
  rw [if_neg notRow, if_neg notRow, same name other]

end Scope

/-! ## Rows -/

section Rows

variable {rt : Runtime} {cfg : TransformConfig} {tree : Value}

theorem isTree_parseTemplate (parses : parseTemplate rt cfg.template = .ok tree) :
    isTree tree = true := by
  unfold parseTemplate at parses
  dsimp only at parses
  split at parses
  · cases parses
    rfl
  · split at parses
    · next is =>
      cases parses
      exact rt.parse_isTree _ _ is
    · cases parses

theorem returned_wrap {body : Value} (returned : Returned body) : Returned (wrap body cfg) := by
  unfold wrap
  split
  · exact returned
  · exact returned
  · refine ⟨?_, by simp, by simp⟩
    rw [Value.hasBigint, Fields.hasBigint, returned.noBigint]
    rfl

/-- One body for a row, of which `renderRow` and `renderBatch` are made. -/
theorem rendered (parses : parseTemplate rt cfg.template = .ok tree) {row : Row}
    (all : AllReturned row) (ctx : TransformContext) :
    ∃ body, Gives (substitute rt (buildScope row cfg ctx) tree) body ∧
      Fills rt (named row cfg ctx) tree body ∧ Returned body := by
  have scope : AllReturned (buildScope row cfg ctx) := all.scope
  obtain ⟨body, gives, fills, returned⟩ :=
    @gives_substitute rt _ scope tree (isTree_parseTemplate parses)
  rw [get?_buildScope] at fills
  exact ⟨body, gives, fills, returned⟩

theorem renderRow_of_gives (parses : parseTemplate rt cfg.template = .ok tree) {row : Row}
    {ctx : TransformContext} {body : Value}
    (gives : Gives (substitute rt (buildScope row cfg ctx) tree) body) :
    ∃ warnings, renderRow rt row cfg ctx = .ok { body := wrap body cfg, warnings } := by
  obtain ⟨warnings, ran⟩ := gives []
  refine ⟨warnings, ?_⟩
  unfold renderRow
  rw [parses]
  show ((substitute rt (buildScope row cfg ctx) tree).run [] >>= _) = _
  rw [ran]
  rfl

/-- The bodies of a batch, and that each is what its row alone would have been sent as. -/
theorem gives_renderItems (parses : parseTemplate rt cfg.template = .ok tree) (table now : String)
    {rows : List Row} (all : ∀ row ∈ rows, AllReturned row) (index : ℕ) :
    ∃ bodies, Gives (renderItems rt cfg table now tree index rows) bodies ∧
      bodies.length = rows.length ∧ (∀ body ∈ bodies, Returned body) ∧
      ∀ i row, rows[i]? = some row → ∃ body warnings, bodies[i]? = some body ∧
        renderRow rt row { cfg with wrapKey := none } { table, now, index := index + i } =
          .ok { body, warnings } := by
  induction rows generalizing index with
  | nil => exact ⟨[], Gives.pure _, rfl, by simp, by simp⟩
  | cons row rest ih =>
    obtain ⟨body, gives, -, returned⟩ :=
      rendered parses (all row List.mem_cons_self) { table, now, index }
    obtain ⟨bodies, gives', length, returned', each⟩ :=
      ih (fun row mem => all row (List.mem_cons_of_mem _ mem)) (index + 1)
    refine ⟨body :: bodies, ?_, by rw [List.length_cons, List.length_cons, length], ?_, ?_⟩
    · rw [renderItems]
      exact gives.bind (gives'.bind (Gives.pure _))
    · intro b mem
      rcases List.mem_cons.mp mem with rfl | mem
      · exact returned
      · exact returned' b mem
    · intro i r at_
      cases i with
      | zero =>
        obtain rfl : row = r := Option.some.inj at_
        have unwrapped : parseTemplate rt ({ cfg with wrapKey := none } : TransformConfig).template =
            .ok tree := parses
        obtain ⟨warnings, alone⟩ := renderRow_of_gives unwrapped gives
        exact ⟨body, warnings, rfl, alone⟩
      | succ i =>
        obtain ⟨b, warnings, there, alone⟩ := each i r at_
        refine ⟨b, warnings, there, ?_⟩
        rw [← alone, Nat.add_assoc, Nat.add_comm 1 i]

theorem hasBigint_toItems {bodies : List Value} (returned : ∀ body ∈ bodies, Returned body) :
    (toItems bodies).hasBigint = false := by
  induction bodies with
  | nil => rfl
  | cons body rest ih =>
    rw [toItems, Items.hasBigint, (returned body List.mem_cons_self).noBigint,
      ih fun b mem => returned b (List.mem_cons_of_mem _ mem), Bool.false_or]

/-- **What is sent of a row.** Every node of the template is filled with what the row's scope names,
two rows that differ in one column are sent alike where the template does not name it, `$row` has
each kept column under its output name, a batch is its rows one by one, and what comes of it can be
serialised. An entry whose key comes to a name that no body may have is dropped. -/
theorem rendered_by_position (parses : parseTemplate rt cfg.template = .ok tree) :
    (∀ row ctx, AllReturned row → ∃ body warnings,
      renderRow rt row cfg ctx = .ok { body := wrap body cfg, warnings } ∧
        Fills rt (named row cfg ctx) tree body ∧ (payloadOf (wrap body cfg)).isSome) ∧
    (∀ c row row' ctx, AllReturned row → AllReturned row' →
      (∀ name, name ≠ c → row.get? name = row'.get? name) → ∃ body warnings body' warnings',
        renderRow rt row cfg ctx = .ok { body := wrap body cfg, warnings } ∧
          renderRow rt row' cfg ctx = .ok { body := wrap body' cfg, warnings := warnings' } ∧
          SameBut rt c (named row cfg ctx) (named row' cfg ctx) tree body body') ∧
    (∀ row, OwnNames row cfg → ∀ name, (projectRow row cfg).get? name =
      ((row.entries.filter fun e => keeps cfg e.1 && outputName cfg e.1 = name).getLast?).map
        Prod.snd) ∧
    (∀ rows start table now, (∀ row ∈ rows, AllReturned row) → ∃ bodies warnings,
      renderBatch rt rows cfg start table now =
          .ok { body := wrap (.array (toItems bodies)) cfg, warnings } ∧
        bodies.length = rows.length ∧
        (∀ i row, rows[i]? = some row → ∃ body warnings, bodies[i]? = some body ∧
          renderRow rt row { cfg with wrapKey := none } { table, now, index := start + i } =
            .ok { body, warnings }) ∧
        (payloadOf (wrap (.array (toItems bodies)) cfg)).isSome) := by
  refine ⟨?_, ?_, ?_, ?_⟩
  · intro row ctx all
    obtain ⟨body, gives, fills, returned⟩ := rendered parses all ctx
    obtain ⟨warnings, ran⟩ := renderRow_of_gives parses gives
    exact ⟨body, warnings, ran, fills, (returned_wrap returned).payload⟩
  · intro c row row' ctx all all' same
    obtain ⟨body, gives, fills, -⟩ := rendered parses all ctx
    obtain ⟨body', gives', fills', -⟩ := rendered parses all' ctx
    obtain ⟨warnings, ran⟩ := renderRow_of_gives parses gives
    obtain ⟨warnings', ran'⟩ := renderRow_of_gives parses gives'
    exact ⟨body, warnings, body', warnings', ran, ran', fills.sameBut (Apart.named same) tree fills'⟩
  · intro row own name
    exact get?_projectRow own name
  · intro rows start table now all
    obtain ⟨bodies, gives, length, returned, each⟩ := gives_renderItems parses table now all start
    obtain ⟨warnings, ran⟩ := gives []
    have whole : Returned (.array (toItems bodies)) :=
      ⟨hasBigint_toItems returned, by simp, by simp⟩
    refine ⟨bodies, warnings, ?_, length, each, (returned_wrap whole).payload⟩
    unfold renderBatch
    rw [parses]
    show ((renderItems rt cfg table now tree start rows).run [] >>= _) = _
    rw [ran]
    rfl

end Rows

/-! ## Two templates -/

/-- A runtime, on a template that is JSON of that tree. -/
def reading (text : String) (tree : Value) (is : isTree tree = true) : Runtime where
  numberText n := if n = .finite 5 then "5" else "NaN"
  jsonText _ := "{}"
  trim := id
  parse s := if s = text then .ok tree else .error "Unexpected end of JSON input"
  parse_isTree s tree' parsed := by
    split at parsed
    · cases parsed
      exact is
    · cases parsed

namespace Reference

/-- `{"ref":"order-{{id}}","{{kind}}":"{{$row}}"}` -/
def tree : Value :=
  .object (.cons "ref" (.string "order-{{id}}") (.cons "{{kind}}" (.string "{{$row}}") .nil))

def text : String :=
  "\x7b\"ref\":\"order-\x7b\x7bid\x7d\x7d\",\"\x7b\x7bkind\x7d\x7d\":\"\x7b\x7b$row\x7d\x7d\"\x7d"

def config : TransformConfig where
  template := text
  rename := some (OrderedMap.empty.set "id" "order_id")
  wrapKey := some "data"

def context : TransformContext := ⟨"orders", "2026-06-03T00:00:00.000Z", 7⟩

def row : Row := OrderedMap.empty.setAll [("id", .number (.finite 5)), ("kind", .string "order")]

theorem returned : AllReturned row := by
  intro name v is
  have mem : (name, v) ∈ [("id", Value.number (.finite 5)), ("kind", .string "order")] :=
    OrderedMap.get?_eq_some.mp is
  simp only [List.mem_cons, Prod.mk.injEq, List.not_mem_nil, or_false] at mem
  rcases mem with ⟨-, rfl⟩ | ⟨-, rfl⟩
  · exact ⟨rfl, by simp, by simp⟩
  · exact Returned.string _

theorem filled : ∃ body warnings,
    renderRow (reading text tree rfl) row config context =
        .ok { body := wrap body config, warnings } ∧
      Fills (reading text tree rfl) (named row config context) tree body ∧
      (payloadOf (wrap body config)).isSome :=
  (rendered_by_position (show parseTemplate (reading text tree rfl) config.template = .ok tree from rfl)).1
    row context returned

end Reference

namespace Barred

/-- `{"constructor":1,"x":3}` -/
def fields : Fields :=
  .cons "constructor" (.number (.finite 1)) (.cons "x" (.number (.finite 3)) .nil)

def text : String := "\x7b\"constructor\":1,\"x\":3\x7d"

def config : TransformConfig where
  template := text

/-- **An entry called `constructor` is in the template and in no body.** -/
theorem constructor_dropped : ∃ out warnings,
    parseTemplate (reading text (.object fields) rfl) config.template = .ok (.object fields) ∧
      fields.get "constructor" = some (.number (.finite 1)) ∧
      renderRow (reading text (.object fields) rfl) OrderedMap.empty config Reference.context =
        .ok { body := .object out, warnings } ∧
      out.get "constructor" = none :=
  ⟨.cons "x" (.number (.finite 3)) .nil, [], rfl, rfl, rfl, rfl⟩

end Barred

end Syncle.Payload
