import Syncle.Shape.Unchanged

/-!
# The columns a bridge cannot do without (`columnsUsed` in `schema-drift.ts`)

A bridge is stopped when a column it uses is gone from its source. Which columns those are is read
off the configuration: what is mapped, filtered, sorted and polled by, and what the steps read;
without the columns that a `set` or a `default` adds.

What a delivery takes from a row is told here from the other end (`neededBy`): a column is needed
before a step if it is needed after it and the step does not write it anew, or if the step reads it.
Two rows that agree there are delivered alike (`outcome_eq`), whatever they have in other columns.
The one is not always within the other: a `default` over a column of the source reads what it has.
-/

namespace Syncle.Shape

open Js

/-! ## The configuration -/

/-- A filter of the source, on one column. -/
structure SourceFilter where
  column : String
  accepts : Option Value → Bool

inductive Destination where
  | database (targets : List DatabaseTarget)
  | http (fields : List String) (template : String)

/-- `bridgeInputSchema`, as far as it names columns. -/
structure BridgeInput where
  table : String
  filters : List SourceFilter
  sort : List String
  transforms : List ColumnTransform
  destination : Destination
  /-- of a polling strategy that has one -/
  pollColumn : Option String
  /-- a default is a text, a number, a boolean or null -/
  defaults_sent : ∀ column value, .default column value ∈ transforms → value ≠ .unchanged

/-- `templateColumns` -/
def templateColumns (template : String) : List String :=
  (tokens template).filter fun name => !name.startsWith "$"

namespace BridgeInput

variable (b : BridgeInput)

/-- The columns a step adds, as `columnsUsed` has it. -/
def produced : List String :=
  (b.transforms.filter ColumnTransform.adds).map ColumnTransform.column

def named : List String :=
  b.filters.map (·.column) ++ b.sort ++ columnsRead b.transforms ++
    (match b.destination with
      | .database targets => targets.flatMap fun target =>
        target.mapping.map (·.source) ++ if target.mapping.isEmpty then target.keyColumns else []
      | .http fields template => fields ++ templateColumns template) ++
    b.pollColumn.toList

def columnsUsed : List String :=
  ((b.named.filter fun name => !b.produced.contains name).eraseDups).mergeSort (· ≤ ·)

@[simp] theorem mem_columnsUsed {name : String} :
    name ∈ b.columnsUsed ↔ name ∈ b.named ∧ name ∉ b.produced := by
  simp [columnsUsed]

end BridgeInput

/-! ## What is taken from a row -/

/-- The columns a template looks up in the row. -/
def lookedUp (template : String) : List String :=
  (tokens template).filter fun name => name ≠ "$now" ∧ name ≠ "$table"

/-- What is needed before a step, where `live` is needed after it. A mask or a cast may fail over its
column, needed or not. -/
def stepNeeds (keysOnly : Bool) (t : ColumnTransform) (live : List String) : List String :=
  match t with
  | .mask column _ | .cast column _ _ => column :: live
  | .text _ _ | .default _ _ => live
  | .set column template =>
    if keysOnly || forbidden.contains column then live
    else live.filter (· ≠ column) ++ lookedUp template

def neededBy (keysOnly : Bool) (transforms : List ColumnTransform) (live : List String) :
    List String :=
  transforms.foldr (stepNeeds keysOnly) live

/-- The columns the target's own are filled from: of a delete, the ones of its key. -/
def DatabaseTarget.taken (target : DatabaseTarget) : Op → List String
  | .write => target.mapping.map (·.source)
  | .delete => target.keyNames.flatMap (sourcesOf target.mapping)

/-- **What a delivery to the target needs of a source row.** -/
def BridgeInput.needed (b : BridgeInput) (target : DatabaseTarget) (op : Op) : List String :=
  b.filters.map (·.column) ++ neededBy (op = .delete) b.transforms (target.taken op)

/-- What becomes of a row at one of the targets. -/
inductive RowOutcome where
  | filtered
  | failed (failure : Failure)
  | writes (rows : List Mapped)
  | removes (identities : List Identity)

/-- What a value of a column becomes for the target's engine. A converter of `value-map.ts` does not
throw. -/
structure Conversion where
  name : String
  convert : Value → Value

def Conversion.converter (c : Conversion) : Converter :=
  { name := c.name, convert := fun v => some (c.convert v) }

/-- A row of the source, filtered, shaped, converted and mapped. -/
def BridgeInput.outcome (rt : RedisRuntime) (b : BridgeInput) (conversions : List Conversion)
    (target : DatabaseTarget) (now : String) (op : Op) (row : Row) : RowOutcome :=
  let d : Delivery :=
    { table := b.table, transforms := b.transforms
      converters := conversions.map Conversion.converter, target := target }
  if b.filters.all fun f => f.accepts (row f.column) then
    match d.shape rt now op [row] with
    | .error failure => .failed failure
    | .ok rows =>
      match d.fit rt op rows with
      | none => .failed .thrown
      | some mapped =>
        match op with
        | .write => .writes mapped
        | .delete => .removes (mapped.map (identityOf target))
  else .filtered

/-! ## The steps -/

section Steps

variable {rt : Runtime} {ctx : Context}

/-- Two rows have the same in these columns. -/
def Agree (columns : List String) (row row' : Row) : Prop := ∀ c ∈ columns, row c = row' c

/-- Both rows were sent the columns that a `set` writes, or neither was. -/
def SentAlike (transforms : List ColumnTransform) (row row' : Row) : Prop :=
  ∀ column template, .set column template ∈ transforms →
    (row column = some .unchanged ↔ row' column = some .unchanged)

theorem Agree.append {a b : List String} {row row' : Row} :
    Agree (a ++ b) row row' ↔ Agree a row row' ∧ Agree b row row' := by
  simp [Agree, or_imp, forall_and]

/-- Two rows on their way through the steps: the same in what is needed of them yet, and the same to
complain of. -/
structure Level (live : List String) (rest : List ColumnTransform) (s u : Shaped) : Prop where
  agree : Agree live s.row u.row
  sent : SentAlike rest s.row u.row
  errors : s.errors = u.errors

variable {s u : Shaped} {live : List String} {t : ColumnTransform} {rest : List ColumnTransform}

/-- A step that has the same effect on both. -/
theorem Level.of_effect (others : ∀ c ∈ live, c ≠ t.column → s.row c = u.row c)
    (sent : SentAlike (t :: rest) s.row u.row) (errors : s.errors = u.errors)
    (effect : Option.Rel (SameEffect t.column s u) (applyTransform rt ctx s t)
      (applyTransform rt ctx u t)) :
    Option.Rel (Level live rest) (applyTransform rt ctx s t) (applyTransform rt ctx u t) := by
  cases hs : applyTransform rt ctx s t with
  | none =>
    rw [hs] at effect
    cases hu : applyTransform rt ctx u t with
    | none => exact .none
    | some u' => rw [hu] at effect; cases effect
  | some s' =>
    rw [hs] at effect
    cases hu : applyTransform rt ctx u t with
    | none => rw [hu] at effect; cases effect
    | some u' =>
      rw [hu] at effect
      cases effect with
      | some same =>
        obtain ⟨own, e, hse, hue⟩ := same
        refine .some { agree := ?_, sent := ?_, errors := by rw [hse, hue, errors] }
        · intro c hc
          by_cases here : c = t.column
          · rw [here]
            exact own
          · rw [applyTransform_other here hs, applyTransform_other here hu]
            exact others c hc here
        · intro column template mem
          by_cases here : column = t.column
          · rw [here, own]
          · rw [applyTransform_other here hs, applyTransform_other here hu]
            exact sent column template (List.mem_cons_of_mem _ mem)

/-- A step that never fails and leaves a marker a marker. -/
def Quiet (rt : Runtime) (ctx : Context) (t : ColumnTransform) : Prop :=
  ∀ s : Shaped, ∃ s', applyTransform rt ctx s t = some s' ∧ s'.errors = s.errors ∧
    (s'.row t.column = some .unchanged ↔ s.row t.column = some .unchanged)

theorem quiet_text (column : String) (op : TextOp) : Quiet rt ctx (.text column op) := by
  intro s
  by_cases string : ∃ text, s.row column = some (.string text)
  · obtain ⟨text, here⟩ := string
    refine ⟨_, applyTransform_text op here, rfl, ?_⟩
    simp [ColumnTransform.column, assign_own _ here, here]
  · refine ⟨s, ?_, rfl, Iff.rfl⟩
    cases here : s.row column with
    | none => exact applyTransform_missing here (Or.inl rfl)
    | some v =>
      refine applyTransform_text_other op here fun text is => string ⟨text, ?_⟩
      rw [here, is]

theorem quiet_default {column : String} {value : Value} (given : value ≠ .unchanged) :
    Quiet rt ctx (.default column value) := by
  intro s
  by_cases blank : s.row column = none ∨ s.row column = some .null ∨ s.row column = some .undefined
  · rw [applyTransform_default_blank value blank]
    split
    · exact ⟨s, rfl, rfl, Iff.rfl⟩
    · refine ⟨_, rfl, rfl, ?_⟩
      have before : s.row column ≠ some .unchanged := by
        rcases blank with h | h | h <;> simp [h]
      have after : assign s.row column value column ≠ some .unchanged := by
        unfold assign
        split
        · exact before
        · simpa using given
      exact iff_of_false after before
  · refine ⟨s, ?_, rfl, Iff.rfl⟩
    cases here : s.row column with
    | none => exact absurd (Or.inl here) blank
    | some v =>
      refine applyTransform_default value here ⟨?_, ?_⟩
      · intro null
        exact blank (Or.inr (Or.inl (here.trans (congrArg some null))))
      · intro undefined
        exact blank (Or.inr (Or.inr (here.trans (congrArg some undefined))))

/-- A quiet step takes nothing from a row that its own column does not need. -/
theorem Level.of_quiet (quiet : Quiet rt ctx t) (never : ∀ column template, t ≠ .set column template)
    (level : Level live (t :: rest) s u) :
    Option.Rel (Level live rest) (applyTransform rt ctx s t) (applyTransform rt ctx u t) := by
  by_cases own : s.row t.column = u.row t.column
  · exact Level.of_effect (fun c hc _ => level.agree c hc) level.sent level.errors
      (applyTransform_congr rfl own fun column template is => absurd is (never column template))
  · obtain ⟨s', hs, es, ms⟩ := quiet s
    obtain ⟨u', hu, eu, mu⟩ := quiet u
    rw [hs, hu]
    refine .some { agree := ?_, sent := ?_, errors := by rw [es, eu, level.errors] }
    · intro c hc
      have here : c ≠ t.column := by
        intro is
        exact own (is ▸ level.agree c hc)
      rw [applyTransform_other here hs, applyTransform_other here hu]
      exact level.agree c hc
    · intro column template mem
      have before := level.sent column template (List.mem_cons_of_mem _ mem)
      by_cases here : column = t.column
      · subst here
        rw [ms, mu]
        exact before
      · rw [applyTransform_other here hs, applyTransform_other here hu]
        exact before

/-- A `set` writes the same over whatever the two rows had. -/
theorem Level.of_set {column template : String} (run : ¬ (ctx.keysOnly || forbidden.contains column) = true)
    (same : computed rt ctx s.row template = computed rt ctx u.row template)
    (others : ∀ c ∈ live, c ≠ column → s.row c = u.row c)
    (sent : SentAlike (.set column template :: rest) s.row u.row) (errors : s.errors = u.errors) :
    Option.Rel (Level live rest) (applyTransform rt ctx s (.set column template))
      (applyTransform rt ctx u (.set column template)) := by
  have alike := sent column template List.mem_cons_self
  refine Level.of_effect others sent errors ?_
  by_cases unsent : s.row column = some .unchanged
  · have unsent' := alike.mp unsent
    rw [applyTransform_unsent (t := .set column template) unsent,
      applyTransform_unsent (t := .set column template) unsent']
    exact .some (SameEffect.idle (unsent.trans unsent'.symm))
  · have plain : column ≠ "__proto__" := by
      rintro rfl
      exact run (by simp [forbidden])
    rw [applyTransform_set template unsent, applyTransform_set template (fun h => unsent (alike.mpr h)),
      if_neg run, if_neg run, same]
    cases computed rt ctx u.row template with
    | none => exact .none
    | some r => exact .some ⟨by simp [ColumnTransform.column, assign, plain], [], by simp⟩

/-- **One step**: rows that agree in what is needed before it agree in what is needed after it. -/
theorem Level.step (given : ∀ column value, t = .default column value → value ≠ .unchanged)
    (level : Level (stepNeeds ctx.keysOnly t live) (t :: rest) s u) :
    Option.Rel (Level live rest) (applyTransform rt ctx s t) (applyTransform rt ctx u t) := by
  obtain ⟨agree, sent, errors⟩ := level
  cases t with
  | mask column m =>
    have own : s.row column = u.row column := agree column List.mem_cons_self
    exact Level.of_effect (fun c hc _ => agree c (List.mem_cons_of_mem _ hc)) sent errors
      (applyTransform_congr rfl own (by simp))
  | cast column into onError =>
    have own : s.row column = u.row column := agree column List.mem_cons_self
    exact Level.of_effect (fun c hc _ => agree c (List.mem_cons_of_mem _ hc)) sent errors
      (applyTransform_congr rfl own (by simp))
  | text column op => exact Level.of_quiet (quiet_text column op) (by simp) ⟨agree, sent, errors⟩
  | default column value =>
    exact Level.of_quiet (quiet_default (given column value rfl)) (by simp) ⟨agree, sent, errors⟩
  | set column template =>
    simp only [stepNeeds] at agree
    split at agree
    case isTrue skipped =>
      -- nothing is computed: both rows stay as they are
      have idle : ∀ s : Shaped, applyTransform rt ctx s (.set column template) = some s := by
        intro s
        by_cases unsent : s.row column = some .unchanged
        · exact applyTransform_unsent (t := .set column template) unsent
        · rw [applyTransform_set template unsent, if_pos skipped]
      rw [idle, idle]
      exact .some
        { agree := agree
          sent := fun column template mem => sent column template (List.mem_cons_of_mem _ mem)
          errors := errors }
    case isFalse run =>
      obtain ⟨kept, read⟩ := Agree.append.mp agree
      refine Level.of_set run (computed_congr fun name mem => scopeValue_congr ?_) ?_ sent errors
      · by_cases now : name = "$now"
        · exact Or.inl now
        · by_cases table : name = "$table"
          · exact Or.inr (Or.inl table)
          · refine Or.inr (Or.inr (read name (List.mem_filter.mpr ⟨mem, ?_⟩)))
            simp [now, table]
      · intro c hc other
        exact kept c (List.mem_filter.mpr ⟨hc, by simpa using other⟩)

/-- **All steps.** -/
theorem Level.run {transforms : List ColumnTransform}
    (given : ∀ column value, .default column value ∈ transforms → value ≠ .unchanged)
    (level : Level (neededBy ctx.keysOnly transforms live) transforms s u) :
    Option.Rel (Level live []) (transforms.foldlM (applyTransform rt ctx) s)
      (transforms.foldlM (applyTransform rt ctx) u) := by
  induction transforms generalizing s u with
  | nil => exact .some level
  | cons t rest ih =>
    have here : Option.Rel (Level _ rest) (applyTransform rt ctx s t) (applyTransform rt ctx u t) :=
      Level.step (fun column value is => given column value (is ▸ List.mem_cons_self)) level
    simp only [List.foldlM_cons]
    cases hs : applyTransform rt ctx s t with
    | none =>
      rw [hs] at here
      cases hu : applyTransform rt ctx u t with
      | none => exact .none
      | some u' => rw [hu] at here; cases here
    | some s' =>
      rw [hs] at here
      cases hu : applyTransform rt ctx u t with
      | none => rw [hu] at here; cases here
      | some u' =>
        rw [hu] at here
        cases here with
        | some next => exact ih (fun c v mem => given c v (List.mem_cons_of_mem _ mem)) next

end Steps

/-! ## The delivery -/

section Deliver

variable {rt : RedisRuntime} {d : Delivery} {now : String} {op : Op} {row row' : Row}
  {live : List String}

/-- One row, shaped. -/
theorem shape_one : d.shape rt now op [row] =
    match applyColumnTransforms rt.toRuntime
        { table := d.table, now := now, keysOnly := op = .delete } row d.transforms with
    | none => .error .thrown
    | some s =>
      if s.errors.eraseDups.isEmpty then .ok [s.row] else .error (.shaping s.errors.eraseDups) := by
  unfold Delivery.shape shapeRows
  by_cases none : d.transforms.isEmpty = true
  · have empty : d.transforms = [] := List.isEmpty_iff.mp none
    simp [empty, applyColumnTransforms]
  · simp only [none, Bool.false_eq_true, if_false, List.mapM_cons, List.mapM_nil]
    cases applyColumnTransforms rt.toRuntime
        { table := d.table, now := now, keysOnly := op = .delete } row d.transforms with
    | none => rfl
    | some s => simp

theorem convertRow_total (conversions : List Conversion) (row : Row) :
    ∃ out, convertRow (conversions.map Conversion.converter) row = some out := by
  have fold : ∀ out : Row, ∃ out',
      (conversions.map Conversion.converter).foldlM (convertColumn row) out = some out' := by
    induction conversions with
    | nil => exact fun out => ⟨out, rfl⟩
    | cons c rest ih =>
      intro out
      obtain ⟨next, step⟩ : ∃ next, convertColumn row out c.converter = some next := by
        by_cases skip : isBlank (read row c.converter.name) = true ∨
            read row c.converter.name = .unchanged
        · exact ⟨out, convertColumn_skip skip⟩
        · rw [convertColumn_value skip]
          exact ⟨_, rfl⟩
      obtain ⟨out', more⟩ := ih next
      refine ⟨out', ?_⟩
      rw [List.map_cons, List.foldlM_cons, step]
      exact more
  exact fold row

/-- A key has in it what its tokens name. -/
theorem renderRedisKey_congr {template : String}
    (same : ∀ k ∈ keyTokens template, row k = row' k) :
    renderRedisKey rt template row = renderRedisKey rt template row' := by
  have pieces : ∀ l : List Piece, (∀ name, .token name ∈ l → row name = row' name) →
      l.mapM (renderKeyPiece rt row) = l.mapM (renderKeyPiece rt row') := by
    intro l
    induction l with
    | nil => exact fun _ => rfl
    | cons piece rest ih =>
      intro here
      have first : renderKeyPiece rt row piece = renderKeyPiece rt row' piece := by
        cases piece with
        | char c => rfl
        | token name => simp only [renderKeyPiece, read_congr (here name List.mem_cons_self)]
      rw [List.mapM_cons, List.mapM_cons, first, ih fun name mem => here name (List.mem_cons_of_mem _ mem)]
  unfold renderRedisKey
  rw [pieces]
  intro name mem
  exact same name (List.mem_filterMap.mpr ⟨_, mem, rfl⟩)

/-- The target takes from a row what its columns are filled from: all of them for a write, those of
its key for a delete. -/
theorem mapForTarget_congr {target : DatabaseTarget} (mapped : target.mapping ≠ [])
    (agree : Agree (target.taken op) row row') :
    match op with
    | .write => mapForTarget rt target .write row = mapForTarget rt target .write row'
    | .delete => (mapForTarget rt target .delete row).map (identityOf target) =
        (mapForTarget rt target .delete row').map (identityOf target) := by
  cases op with
  | write =>
    have same : mapRow row target.mapping = mapRow row' target.mapping := by
      funext k
      refine mapRow_congr fun c mem => agree c ?_
      unfold sourcesOf at mem
      rw [if_neg (by simpa using mapped)] at mem
      obtain ⟨m, hm, rfl⟩ := List.mem_map.mp mem
      exact List.mem_map_of_mem (List.mem_filter.mp hm).1
    simp only [mapForTarget, same]
  | delete =>
    have same : ∀ k ∈ target.keyNames, mapRow row target.mapping k = mapRow row' target.mapping k := by
      intro k hk
      refine mapRow_congr fun c mem => agree c ?_
      exact List.mem_flatMap.mpr ⟨k, hk, mem⟩
    unfold DatabaseTarget.keyNames at same
    cases redis : target.redis with
    | some r =>
      simp only [redis] at same
      simp only [mapForTarget, redis, renderRedisKey_congr same, Option.map_map]
      rfl
    | none =>
      simp only [redis] at same
      have plain : ∀ row, mapForTarget rt target .delete row =
          some (.columns (mapRow row target.mapping)) := by
        intro row
        simp only [mapForTarget, redis]
        cases target.soft with
        | none => rfl
        | some soft => rfl
      rw [plain, plain, Option.map_some, Option.map_some, identityOf, identityOf]
      refine congrArg some (congrArg Identity.columns (List.map_congr_left fun k hk => ?_))
      rw [read_congr (same k hk)]

/-- **Rows that agree in what is needed of them are delivered alike.** -/
theorem outcome_eq (rt : RedisRuntime) (b : BridgeInput) (conversions : List Conversion)
    {target : DatabaseTarget} (mapped : target.mapping ≠ []) (now : String) {op : Op} {row row' : Row}
    (agree : Agree (b.needed target op) row row') (sent : SentAlike b.transforms row row') :
    b.outcome rt conversions target now op row = b.outcome rt conversions target now op row' := by
  obtain ⟨filtered, needed⟩ := Agree.append.mp agree
  have filters : (b.filters.all fun f => f.accepts (row f.column)) =
      b.filters.all fun f => f.accepts (row' f.column) := by
    rw [Bool.eq_iff_iff, List.all_eq_true, List.all_eq_true]
    refine forall₂_congr fun f mem => ?_
    rw [filtered f.column (List.mem_map_of_mem mem)]
  unfold BridgeInput.outcome
  simp only [filters]
  split
  case isFalse => rfl
  case isTrue =>
    let ctx : Context := { table := b.table, now := now, keysOnly := op = .delete }
    have level : Level (neededBy ctx.keysOnly b.transforms (target.taken op)) b.transforms
        { row := row } { row := row' } := { agree := needed, sent := sent, errors := rfl }
    have shaped : Option.Rel (Level _ []) (b.transforms.foldlM (applyTransform rt.toRuntime ctx) _)
      (b.transforms.foldlM (applyTransform rt.toRuntime ctx) _) := level.run b.defaults_sent
    simp only [shape_one, applyColumnTransforms]
    generalize b.transforms.foldlM (applyTransform rt.toRuntime
      { table := b.table, now := now, keysOnly := op = .delete }) { row := row } = first at shaped
    generalize b.transforms.foldlM (applyTransform rt.toRuntime
      { table := b.table, now := now, keysOnly := op = .delete }) { row := row' } = second at shaped
    cases shaped with
    | none => rfl
    | @some s u level =>
      simp only [level.errors]
      by_cases clean : u.errors.eraseDups.isEmpty = true
      · simp only [clean, if_true]
        obtain ⟨out, converted⟩ := convertRow_total conversions s.row
        obtain ⟨out', converted'⟩ := convertRow_total conversions u.row
        have same : Agree (target.taken op) out out' := fun c mem =>
          convertRow_same (level.agree c mem) converted converted'
        have given := @mapForTarget_congr rt op out out' target mapped same
        simp only [Delivery.fit, List.mapM_cons, List.mapM_nil, converted, converted',
          Option.bind_eq_bind, Option.bind_some, Option.pure_def]
        cases op with
        | write => simp only [given]
        | delete =>
          simp only at given ⊢
          cases here : mapForTarget rt target .delete out with
          | none =>
            rw [here] at given
            rw [Option.map_eq_none_iff.mp given.symm]
          | some m =>
            rw [here] at given
            obtain ⟨m', there, id⟩ := Option.map_eq_some_iff.mp given.symm
            rw [there]
            simp [id]
      · simp only [clean, Bool.false_eq_true, if_false]

end Deliver

/-! ## What is reported -/

section Reported

variable {b : BridgeInput} {target : DatabaseTarget} {op : Op} {live : List String}

/-- What the steps need is what is needed of their result, or is read by them, or is one of the `$`
names of a template. -/
theorem neededBy_read {keysOnly : Bool} {transforms : List ColumnTransform} {c : String}
    (h : c ∈ neededBy keysOnly transforms live) :
    c ∈ live ∨ c ∈ columnsRead transforms ∨ c.startsWith "$" = true := by
  induction transforms with
  | nil => exact Or.inl h
  | cons t rest ih =>
    have later : c ∈ neededBy keysOnly rest live →
        c ∈ live ∨ c ∈ columnsRead (t :: rest) ∨ c.startsWith "$" = true := by
      intro mem
      rcases ih mem with here | read | dollar
      · exact Or.inl here
      · exact Or.inr (Or.inl (List.mem_append_right _ read))
      · exact Or.inr (Or.inr dollar)
    simp only [neededBy, List.foldr_cons] at h later
    cases t with
    | mask column m =>
      rcases List.mem_cons.mp h with rfl | mem
      · exact Or.inr (Or.inl (List.mem_append_left _ List.mem_cons_self))
      · exact later mem
    | cast column into onError =>
      rcases List.mem_cons.mp h with rfl | mem
      · exact Or.inr (Or.inl (List.mem_append_left _ List.mem_cons_self))
      · exact later mem
    | text column op => exact later h
    | default column value => exact later h
    | set column template =>
      simp only [stepNeeds] at h
      split at h
      case isTrue => exact later h
      case isFalse =>
        rcases List.mem_append.mp h with kept | read
        · exact later (List.mem_filter.mp kept).1
        · by_cases dollar : c.startsWith "$" = true
          · exact Or.inr (Or.inr dollar)
          · refine Or.inr (Or.inl (List.mem_append_left _ ?_))
            exact List.mem_filter.mpr ⟨(List.mem_filter.mp read).1, by simpa using dollar⟩

/-- **Everything a delivery to a mapped target needs is named in the configuration**, but for a
column whose name begins with `$`. -/
theorem needed_named {targets : List DatabaseTarget} (database : b.destination = .database targets)
    (mem : target ∈ targets) (mapped : target.mapping ≠ []) {c : String}
    (h : c ∈ b.needed target op) : c ∈ b.named ∨ c.startsWith "$" = true := by
  have sources : ∀ c ∈ target.taken op, c ∈ b.named := by
    intro c taken
    have source : c ∈ target.mapping.map (·.source) := by
      cases op with
      | write => exact taken
      | delete =>
        obtain ⟨k, _, hc⟩ := List.mem_flatMap.mp taken
        unfold sourcesOf at hc
        rw [if_neg (by simpa using mapped)] at hc
        obtain ⟨m, hm, rfl⟩ := List.mem_map.mp hc
        exact List.mem_map_of_mem (List.mem_filter.mp hm).1
    have listed : c ∈ targets.flatMap fun target =>
        target.mapping.map (·.source) ++ if target.mapping.isEmpty then target.keyColumns else [] :=
      List.mem_flatMap.mpr ⟨target, mem, List.mem_append_left _ source⟩
    simp only [BridgeInput.named, database, List.mem_append]
    exact Or.inl (Or.inr listed)
  rcases List.mem_append.mp h with filter | needed
  · refine Or.inl ?_
    simp only [BridgeInput.named, List.mem_append]
    exact Or.inl (Or.inl (Or.inl (Or.inl filter)))
  · rcases neededBy_read needed with taken | read | dollar
    · exact Or.inl (sources c taken)
    · refine Or.inl ?_
      simp only [BridgeInput.named, List.mem_append]
      exact Or.inl (Or.inl (Or.inr read))
    · exact Or.inr dollar

/-- **The columns a bridge is said to use are enough**, where no step adds a column that is needed of
the source, and no template names one with a `$`. -/
theorem columnsUsed_enough (rt : RedisRuntime) (conversions : List Conversion) (now : String)
    {targets : List DatabaseTarget} (database : b.destination = .database targets)
    (mem : target ∈ targets) (mapped : target.mapping ≠ [])
    (source : ∀ c ∈ b.needed target op, c ∉ b.produced ∧ (c.startsWith "$" = true → c ∈ b.named))
    {row row' : Row} (sent : SentAlike b.transforms row row') (agree : Agree b.columnsUsed row row') :
    b.outcome rt conversions target now op row = b.outcome rt conversions target now op row' := by
  refine outcome_eq rt b conversions mapped now (fun c needed => agree c ?_) sent
  obtain ⟨kept, dollar⟩ := source c needed
  refine b.mem_columnsUsed.mpr ⟨?_, kept⟩
  rcases needed_named database mem mapped needed with named | begins
  · exact named
  · exact dollar begins

end Reported

namespace Orders

/-- Upserted by `id`, and mapped. -/
def orders : DatabaseTarget :=
  { ComputedKey.target with
    table := "orders"
    mapping := [{ source := "id", target := "id" }, { source := "state", target := "status" }] }

def bridge (target : DatabaseTarget) (steps : List ColumnTransform)
    (given : ∀ column value, .default column value ∈ steps → value ≠ .unchanged) : BridgeInput :=
  { table := "orders", filters := [], sort := [], transforms := steps
    destination := .database [target], pollColumn := none, defaults_sent := given }

def row (state : Option Value) : Row :=
  Function.update (Function.update (fun _ => none) "id" (some (.string "7"))) "state" state

/-- `state`, or `open` where there is none. -/
def withDefault : BridgeInput := bridge orders [.default "state" (.string "open")] (by simp)

/-- What is written in `status`. -/
def statusOf : RowOutcome → Option Value
  | .writes [.columns out] => out "status"
  | _ => none

/-- The default is over a column of the source, which is not reported: when it goes, what was written
in it is written over. -/
theorem default_not_enough :
    withDefault.columnsUsed = ["id"] ∧
      Agree withDefault.columnsUsed (row (some (.string "paid"))) (row none) ∧
      withDefault.outcome ComputedKey.runtime [] orders "" .write (row (some (.string "paid"))) ≠
        withDefault.outcome ComputedKey.runtime [] orders "" .write (row none) := by
  have used : withDefault.columnsUsed = ["id"] := by decide +kernel
  refine ⟨used, ?_, fun same => ?_⟩
  · rw [used]
    intro c mem
    rw [List.mem_singleton.mp mem]
    rfl
  · have status := congrArg statusOf same
    revert status
    decide

/-- …with a label of its own, that no column of the source has. -/
def labelled : DatabaseTarget :=
  { orders with mapping := orders.mapping ++ [{ source := "label", target := "label" }] }

/-- `state` in lower case, and a label made of it, or `none` where that is empty. -/
def labelling : BridgeInput :=
  bridge labelled
    [.text "state" .lower, .set "label" "\x7b\x7bid\x7d\x7d \x7b\x7bstate\x7d\x7d",
      .default "label" (.string "none")] (by simp)

theorem labelling_enough :
    labelling.outcome ComputedKey.runtime [] labelled "" .write (row (some (.string "paid"))) =
      labelling.outcome ComputedKey.runtime [] labelled "" .write
        (Function.update (row (some (.string "paid"))) "note" (some (.string "urgent"))) := by
  refine columnsUsed_enough ComputedKey.runtime [] "" rfl List.mem_cons_self (by decide) ?_ ?_ ?_
  · decide +kernel
  · -- neither row was sent a label
    intro column template mem
    simp only [labelling, bridge, List.mem_cons, reduceCtorEq, ColumnTransform.set.injEq,
      List.not_mem_nil, or_false, false_or] at mem
    obtain ⟨rfl, -⟩ := mem
    simp [row]
  · intro c mem
    have other : c ≠ "note" := by
      rintro rfl
      exact absurd (labelling.mem_columnsUsed.mp mem).1 (by decide +kernel)
    exact (Function.update_of_ne other _ _).symm

end Orders

end Syncle.Shape
