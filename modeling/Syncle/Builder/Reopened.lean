import Syncle.Builder.Filters

/-!
# A bridge opened in the builder, and saved

What is saved of a bridge that was only opened (`reopened_eq`) does what the stored one does exactly
where the form has a place for each of its parts (`reopened_iff`).
-/

namespace Syncle.Builder

open Lib Js
open Shape (ColumnTransform ColumnMapping objectPrototype)

/-! ## What is saved -/

section Resaved

variable (rt : FormRuntime) (ctx : BuildInputContext)

/-- The columns a bridge pins, of those the table has. -/
def pinned (fields : Option (List String)) : List String :=
  match fields with
  | some (field :: fields) => ctx.columns.filter fun name => name ∈ field :: fields
  | _ => ctx.columns

/-- The columns a bridge sends, and those its steps add. -/
def projected (h : Bridge) : List String :=
  pinned ctx h.transform.fields ++ columnsAdded (h.transform.columns.getD []) ctx.columns

def resavedTrigger : Trigger → Trigger
  | .replay schedule => .replay (schedule.map fun s =>
      { cron := oneSpelling s.cron, timezone := trim s.timezone, enabled := s.enabled })
  | .watch strategy ms startFrom maxPerPoll =>
    .watch strategy (max 1000 ((ms + 500) / 1000 * 1000)) startFrom maxPerPoll
  | .cdc operations startFrom slot =>
    .cdc operations.eraseDups startFrom (if ctx.sourceEngine = some "postgres" then slot else .own)

def resavedDestination (h : Bridge) : Option Destination :=
  match h.destination with
  | .http endpoint => some (.http (buildEndpoint (loadEndpoint endpoint)))
  | .database targets =>
    (targets.mapM fun t => buildTarget (projected ctx h) (loadTarget t)).map .database

/-- Every column is sent, and no other. -/
def sendsAll (h : Bridge) : Bool :=
  (ctx.columns.all fun n => n ∈ pinned ctx h.transform.fields) &&
    columnsAdded (h.transform.columns.getD []) ctx.columns = []

def resaved (h : Bridge) (destination : Destination) : Bridge where
  name := if trim h.name = "" then ctx.fallbackName else trim h.name
  source :=
    { connectionId := h.source.connectionId
      database := givenText (h.source.database.getD "")
      schema := givenText (h.source.schema.getD "")
      table := h.source.table
      filters := given (refiledFilters rt ctx (h.source.filters.getD []))
      sort := ctx.singlePk.map fun pk => [{ column := pk, direction := .asc }] }
  destination := destination
  transform :=
    { template := if h.transform.template = "" then "\x7b\x7b$row\x7d\x7d" else h.transform.template
      fields := if sendsAll ctx h then none else some (projected ctx h)
      rename := h.transform.rename
      wrapKey := givenText (h.transform.wrapKey.getD "")
      columns := given (draftTransforms rt ctx (h.transform.columns.getD [])) }
  delivery := { h.delivery with backoffMs := 500, backoffMaxMs := 30000, pageSize := 200 }
  trigger := resavedTrigger ctx h.trigger
  enabled := h.enabled

theorem adds_draftTransforms (transforms : List ColumnTransform) :
    (draftTransforms rt ctx transforms).map (fun t => (t.adds, t.column)) =
      transforms.map fun t => (t.adds, t.column) := by
  rw [draftTransforms, List.map_map]
  refine List.map_congr_left fun t _ => ?_
  cases t with
  | default column value => cases value <;> rfl
  | _ => rfl

/-- Coerced or not, the steps add the same columns. -/
theorem columnsAdded_draftTransforms (transforms : List ColumnTransform) (columns : List String) :
    columnsAdded (draftTransforms rt ctx transforms) columns = columnsAdded transforms columns := by
  have adding (ts : List ColumnTransform) : columnsAdded ts columns =
      (ts.map fun t => (t.adds, t.column)).foldl (fun added (t : Bool × String) =>
        if t.1 && !(columns ++ added).contains t.2 then added ++ [t.2] else added) [] := by
    rw [List.foldl_map]
    rfl
  rw [adding, adding, adds_draftTransforms]

/-- What is ticked is what is pinned. -/
theorem filter_pinned (fields : Option (List String)) :
    (ctx.columns.filter fun name => name ∈ pinned ctx fields) = pinned ctx fields := by
  have ticked (p : String → Bool) :
      (ctx.columns.filter fun name => name ∈ ctx.columns.filter p) = ctx.columns.filter p := by
    refine List.filter_congr fun name mem => ?_
    simp [List.mem_filter, mem]
  unfold pinned
  split
  · exact ticked _
  · exact List.filter_eq_self.mpr fun name mem => decide_eq_true mem

theorem buildFilters_eq (filters : List FilterSpec) {d : BuilderDraft}
    (mode : d.mode = if (loadKeys rt filters).isSome then .selected else .all)
    (keys : d.selectedKeys = (loadKeys rt filters).getD .empty)
    (rows : d.filters = ((filters.eraseP isIn).filter editable).map (loadFilter rt))
    (extra : d.extraFilters = (filters.eraseP isIn).filter fun f => !editable f) :
    buildFilters rt ctx d = refiledFilters rt ctx filters := by
  have selected : buildSelection ctx d = selection rt ctx filters := by
    unfold buildSelection selection
    rw [mode, keys]
    cases loadKeys rt filters with
    | none => rfl
    | some keys => cases ctx.singlePk <;> rfl
  have built : d.filters.filterMap (buildFilter rt ctx) =
      ((filters.eraseP isIn).filter editable).filterMap (saved rt ctx) := by
    rw [rows, List.filterMap_map]
    rfl
  rw [buildFilters, refiledFilters, selected, built, extra]

/-- The trigger and the destination of a draft leave the rest as it is. -/
structure SameForm (d d' : BuilderDraft) : Prop where
  name : d.name = d'.name
  connectionId : d.connectionId = d'.connectionId
  database : d.database = d'.database
  schema : d.schema = d'.schema
  table : d.table = d'.table
  mode : d.mode = d'.mode
  selectedKeys : d.selectedKeys = d'.selectedKeys
  fieldsPref : d.fieldsPref = d'.fieldsPref
  filters : d.filters = d'.filters
  extraFilters : d.extraFilters = d'.extraFilters
  transforms : d.transforms = d'.transforms
  template : d.template = d'.template
  rename : d.rename = d'.rename
  wrapKey : d.wrapKey = d'.wrapKey

theorem sameForm (d : BuilderDraft) (trigger : Trigger) (destination : Destination) :
    SameForm (loadDestination (loadTrigger d trigger) destination) d := by
  cases trigger <;> cases destination <;> exact ⟨rfl, rfl, rfl, rfl, rfl, rfl, rfl, rfl, rfl, rfl, rfl, rfl, rfl, rfl⟩

theorem buildTrigger_eq (h : Bridge) :
    buildTrigger ctx (applyColumns ctx (loadBridge rt h)) = resavedTrigger ctx h.trigger := by
  obtain ⟨name, source, destination, transform, delivery, trigger, enabled⟩ := h
  cases destination <;> cases trigger with
  | replay schedule => rfl
  | watch strategy ms startFrom maxPerPoll => cases strategy <;> rfl
  | cdc operations startFrom slot => rfl

theorem buildDestination_eq (h : Bridge) (included : List String) :
    buildDestination (applyColumns ctx (loadBridge rt h)) included =
      match h.destination with
      | .http endpoint => some (.http (buildEndpoint (loadEndpoint endpoint)))
      | .database targets =>
        (targets.mapM fun t => buildTarget included (loadTarget t)).map .database := by
  obtain ⟨name, source, destination, transform, delivery, trigger, enabled⟩ := h
  have mapped (targets : List DatabaseTarget) : (targets.map loadTarget).mapM (buildTarget included) =
      targets.mapM fun t => buildTarget included (loadTarget t) := List.mapM_map ..
  cases trigger <;> cases destination with
  | http endpoint => rfl
  | database targets => exact congrArg (Option.map Destination.database) (mapped targets)

/-- **What is saved** of a bridge that was only opened. -/
theorem reopened_eq (h : Bridge) :
    reopened rt ctx h = (resavedDestination ctx h).map (resaved rt ctx h) := by
  have form := sameForm (loadForm rt h) h.trigger h.destination
  have steps : (applyColumns ctx (loadBridge rt h)).transforms = h.transform.columns.getD [] := form.transforms
  have ticked : (applyColumns ctx (loadBridge rt h)).included = pinned ctx h.transform.fields := by
    have pref : (loadBridge rt h).fieldsPref = h.transform.fields := form.fieldsPref
    rw [applyColumns, pref]
    rfl
  have sent : includedList ctx (applyColumns ctx (loadBridge rt h))
      (draftTransforms rt ctx (h.transform.columns.getD [])) = projected ctx h := by
    rw [includedList, ticked, filter_pinned, columnsAdded_draftTransforms, projected]
  have filters : buildFilters rt ctx (applyColumns ctx (loadBridge rt h)) =
      refiledFilters rt ctx (h.source.filters.getD []) :=
    buildFilters_eq rt ctx _ form.mode form.selectedKeys form.filters form.extraFilters
  have name : (applyColumns ctx (loadBridge rt h)).name = h.name := form.name
  have connectionId : (applyColumns ctx (loadBridge rt h)).connectionId = h.source.connectionId :=
    form.connectionId
  have database : (applyColumns ctx (loadBridge rt h)).database = h.source.database.getD "" := form.database
  have schema : (applyColumns ctx (loadBridge rt h)).schema = h.source.schema.getD "" := form.schema
  have table : (applyColumns ctx (loadBridge rt h)).table = h.source.table := form.table
  have template : (applyColumns ctx (loadBridge rt h)).template = h.transform.template := form.template
  have rename_ : (applyColumns ctx (loadBridge rt h)).rename = h.transform.rename := form.rename
  have wrapKey : (applyColumns ctx (loadBridge rt h)).wrapKey = h.transform.wrapKey.getD "" := form.wrapKey
  unfold reopened buildInput
  simp only [steps, sent, filters, ticked, columnsAdded_draftTransforms, buildTrigger_eq, buildDestination_eq,
    name, connectionId, database, schema, table, template, rename_, wrapKey]
  rfl

end Resaved

end Syncle.Builder
