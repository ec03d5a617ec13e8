import Syncle.Builder.Survives

/-!
# Opened and saved, a bridge is what it was

Opening a bridge in the builder and saving it leaves a configuration that does the same
(`Equivalent`) exactly where the form has a place for each of its parts (`Survives`, `reopened_iff`).
Of two conditions on the key the form keeps one for its row selection, for instance, and an order of
its own it has no place for at all (`Orders.newest_first_lost`).
-/

namespace Syncle.Builder

open Lib Js
open Shape (ColumnTransform ColumnMapping)
open Cdc (CdcOperation)

/-! ## The same configuration -/

variable (rt : FormRuntime) (ctx : BuildInputContext)

/-- The order a table is read in: a bridge's own, or else that of its key. -/
def rowOrder (sort : Option (List SortSpec)) : List SortSpec :=
  match sort.getD [] with
  | [] => (ctx.singlePk.map fun pk => (⟨pk, .asc⟩ : SortSpec)).toList
  | order => order

/-- The two destinations receive the same. -/
def SameDestination : Destination → Destination → Prop
  | .http a, .http b => SameEndpoint a b
  | .database a, .database b => List.Forall₂ SameTarget a b
  | _, _ => False

def ReplaySchedule.line (s : ReplaySchedule) : String × String × Bool :=
  (oneSpelling s.cron, trim s.timezone, s.enabled)

/-- Only PostgreSQL has slots. -/
def SameTrigger : Trigger → Trigger → Prop
  | .replay a, .replay b => a.map ReplaySchedule.line = b.map ReplaySchedule.line
  | .watch strategy ms startFrom maxPerPoll, .watch strategy' ms' startFrom' maxPerPoll' =>
    strategy = strategy' ∧ ms = ms' ∧ startFrom = startFrom' ∧ maxPerPoll = maxPerPoll'
  | .cdc operations startFrom slot, .cdc operations' startFrom' slot' =>
    (∀ op, op ∈ operations ↔ op ∈ operations') ∧ startFrom = startFrom' ∧
      (ctx.sourceEngine = some "postgres" → slot = slot')
  | _, _ => False

/-- The two bridges read the same rows in the same order, make the same of them, and send them to the
same places in the same way, also once the source table has other columns. -/
structure Equivalent (a b : Bridge) : Prop where
  name : trim a.name = trim b.name
  connectionId : a.source.connectionId = b.source.connectionId
  database : a.source.database.getD "" = b.source.database.getD ""
  schema : a.source.schema.getD "" = b.source.schema.getD ""
  table : a.source.table = b.source.table
  filters : SameConditions rt (a.source.filters.getD []) (b.source.filters.getD [])
  order : rowOrder ctx a.source.sort = rowOrder ctx b.source.sort
  destination : SameDestination a.destination b.destination
  template : a.transform.template = b.transform.template
  /-- of a payload: a table has a mapping -/
  fields : ∀ endpoint, a.destination = .http endpoint →
    keptFields a.transform.fields = keptFields b.transform.fields
  rename : a.transform.rename = b.transform.rename
  wrapKey : a.transform.wrapKey.getD "" = b.transform.wrapKey.getD ""
  steps : a.transform.columns.getD [] = b.transform.columns.getD []
  delivery : a.delivery = b.delivery
  trigger : SameTrigger ctx a.trigger b.trigger
  enabled : a.enabled = b.enabled

/-! ## What the form has a place for -/

/-- No order of its own, or that of the key. -/
def OrderKept (sort : Option (List SortSpec)) : Prop :=
  sort.getD [] = [] ∨ ∃ pk, ctx.singlePk = some pk ∧ sort.getD [] = [⟨pk, .asc⟩]

def DestinationKept (h : Bridge) : Prop :=
  match h.destination with
  | .http endpoint => HeadersKept endpoint ∧ FieldsKept ctx h
  | .database targets => ∀ t ∈ targets, trim t.table = t.table ∧ MappingKept (projected ctx h) t.mapping

structure Survives (h : Bridge) : Prop where
  name : trim h.name ≠ "" ∨ trim ctx.fallbackName = ""
  selection : SelectionKept rt ctx (h.source.filters.getD [])
  /-- every filter but the first `in` -/
  filters : ∀ f ∈ (h.source.filters.getD []).eraseP isIn, editable f = true → FilterKept rt ctx f
  order : OrderKept ctx h.source.sort
  destination : DestinationKept ctx h
  /-- a default that is a text is one in its column -/
  defaults : ∀ column text, .default column (.string text) ∈ h.transform.columns.getD [] →
    coerceFilterValue rt text (ctx.columnTypes column) = .string text
  backoff : h.delivery.backoffMs = 500 ∧ h.delivery.backoffMaxMs = 30000
  pageSize : h.delivery.pageSize = 200
  /-- a whole number of seconds -/
  poll : ∀ strategy ms startFrom maxPerPoll,
    h.trigger = .watch strategy ms startFrom maxPerPoll → 1000 ∣ ms

/-! ## Part by part -/

variable {rt ctx}

theorem getD_given {α : Type*} (list : List α) : (given list).getD [] = list := by
  cases list <;> rfl

theorem name_kept_iff (name : String) :
    trim name = trim (if trim name = "" then ctx.fallbackName else trim name) ↔
      trim name ≠ "" ∨ trim ctx.fallbackName = "" := by
  by_cases blank : trim name = ""
  · rw [if_pos blank, blank]
    constructor
    · intro same
      exact Or.inr same.symm
    · rintro (some_ | fallback)
      · exact absurd rfl some_
      · exact fallback.symm
  · rw [if_neg blank, trim_trim]
    simp [blank]

theorem order_kept_iff (sort : Option (List SortSpec)) :
    rowOrder ctx sort = rowOrder ctx (ctx.singlePk.map fun pk => [⟨pk, .asc⟩]) ↔ OrderKept ctx sort := by
  have key : rowOrder ctx (ctx.singlePk.map fun pk => [(⟨pk, .asc⟩ : SortSpec)]) =
      (ctx.singlePk.map fun pk => (⟨pk, .asc⟩ : SortSpec)).toList := by
    unfold rowOrder
    cases ctx.singlePk <;> rfl
  rw [key]
  unfold rowOrder OrderKept
  cases sort.getD [] with
  | nil => simp
  | cons first rest => cases ctx.singlePk <;> simp

theorem steps_kept_iff (transforms : List ColumnTransform) :
    transforms = draftTransforms rt ctx transforms ↔
      ∀ column text, .default column (.string text) ∈ transforms →
        coerceFilterValue rt text (ctx.columnTypes column) = .string text := by
  unfold draftTransforms
  induction transforms with
  | nil => simp
  | cons t transforms ih =>
    rw [List.map_cons, List.cons.injEq, ih]
    constructor
    · rintro ⟨here, there⟩ column text mem
      rcases List.mem_cons.mp mem with rfl | mem
      · exact (ColumnTransform.default.inj here).2.symm
      · exact there column text mem
    · intro kept
      refine ⟨?_, fun column text mem => kept column text (List.mem_cons_of_mem _ mem)⟩
      cases t with
      | default column value =>
        cases value with
        | string text => exact congrArg (ColumnTransform.default column) (kept column text List.mem_cons_self).symm
        | _ => rfl
      | _ => rfl

theorem delivery_kept_iff (d : DeliveryConfig) :
    d = { d with backoffMs := 500, backoffMaxMs := 30000, pageSize := 200 } ↔
      (d.backoffMs = 500 ∧ d.backoffMaxMs = 30000) ∧ d.pageSize = 200 := by
  obtain ⟨batchSize, maxAttempts, backoffMs, backoffMaxMs, minDelayMs, timeoutMs, pageSize, onError,
    onSchemaChange⟩ := d
  simp [and_assoc]

theorem trigger_kept_iff {h : Bridge} (accepted : h.Accepted) :
    SameTrigger ctx h.trigger (resavedTrigger ctx h.trigger) ↔
      ∀ strategy ms startFrom maxPerPoll, h.trigger = .watch strategy ms startFrom maxPerPoll → 1000 ∣ ms := by
  have poll := accepted.poll
  cases trigger : h.trigger with
  | replay schedule =>
    have same : schedule.map ReplaySchedule.line = (schedule.map fun s =>
        ({ cron := oneSpelling s.cron, timezone := trim s.timezone, enabled := s.enabled } : ReplaySchedule)).map
          ReplaySchedule.line := by
      cases schedule with
      | none => rfl
      | some s => simp [ReplaySchedule.line, oneSpelling_oneSpelling, trim_trim]
    simpa [SameTrigger, resavedTrigger] using same
  | watch strategy ms startFrom maxPerPoll =>
    have enough := poll strategy ms startFrom maxPerPoll trigger
    have whole : ms = max 1000 ((ms + 500) / 1000 * 1000) ↔ 1000 ∣ ms := by omega
    simp only [SameTrigger, resavedTrigger, true_and, and_true, whole]
    constructor
    · rintro seconds _ _ _ _ ⟨⟩
      exact seconds
    · intro seconds
      exact seconds strategy ms startFrom maxPerPoll rfl
  | cdc operations startFrom slot =>
    simp only [SameTrigger, resavedTrigger, List.mem_eraseDups, implies_true, true_and]
    constructor
    · intro _ _ _ _ _ wrong
      cases wrong
    · intro _ postgres
      rw [if_pos postgres]

/-! ## The whole -/

theorem destination_kept_iff {h : Bridge} (accepted : h.Accepted) :
    (∃ destination, resavedDestination ctx h = some destination ∧ SameDestination h.destination destination ∧
        ∀ endpoint, h.destination = .http endpoint →
          keptFields h.transform.fields = keptFields (if sendsAll ctx h then none else some (projected ctx h))) ↔
      DestinationKept ctx h := by
  have fields := @fields_kept_iff ctx h
  have targets := accepted.targets
  unfold resavedDestination DestinationKept
  cases destination : h.destination with
  | http endpoint =>
    simp only [Option.some.injEq, exists_eq_left', Destination.http.injEq, forall_eq']
    rw [fields]
    exact and_congr_left fun _ => endpoint_kept_iff endpoint
  | database list =>
    show _ ↔ ∀ t ∈ list, trim t.table = t.table ∧ MappingKept (projected ctx h) t.mapping
    rw [← targets_kept_iff (nodup_projected h) (targets list destination)]
    constructor
    · rintro ⟨_, made, same, -⟩
      obtain ⟨list', built, rfl⟩ := Option.map_eq_some_iff.mp made
      exact ⟨list', built, same⟩
    · rintro ⟨list', built, same⟩
      exact ⟨.database list', by simp [built], same, fun _ wrong => nomatch wrong⟩

/-- **A bridge that is opened and saved** is equivalent to what it was, exactly where the form has a
place for each of its parts. -/
theorem reopened_iff (rt : FormRuntime) (ctx : BuildInputContext) {h : Bridge} (accepted : h.Accepted) :
    (∃ input, reopened rt ctx h = some input ∧ Equivalent rt ctx h input) ↔ Survives rt ctx h := by
  have template : h.transform.template =
      if h.transform.template = "" then "\x7b\x7b$row\x7d\x7d" else h.transform.template :=
    (if_neg accepted.template).symm
  rw [reopened_eq]
  constructor
  · rintro ⟨_, made, same⟩
    obtain ⟨destination, is, rfl⟩ := Option.map_eq_some_iff.mp made
    have filters := same.filters
    have steps := same.steps
    simp only [resaved, getD_given] at filters steps
    obtain ⟨selection, rows⟩ := (conditions_kept_iff _).mp filters
    obtain ⟨backoff, pageSize⟩ := (delivery_kept_iff h.delivery).mp same.delivery
    exact {
      name := (name_kept_iff h.name).mp same.name
      selection := selection
      filters := rows
      order := (order_kept_iff h.source.sort).mp same.order
      destination := (destination_kept_iff accepted).mp ⟨destination, is, same.destination, same.fields⟩
      defaults := (steps_kept_iff _).mp steps
      backoff := backoff
      pageSize := pageSize
      poll := (trigger_kept_iff accepted).mp same.trigger }
  · intro survives
    obtain ⟨destination, is, same, fields⟩ := (destination_kept_iff accepted).mpr survives.destination
    refine ⟨_, congrArg (Option.map _) is, ?_⟩
    exact {
      name := (name_kept_iff h.name).mpr survives.name
      connectionId := rfl
      database := (getD_givenText _).symm
      schema := (getD_givenText _).symm
      table := rfl
      filters := by
        simp only [resaved, getD_given]
        exact (conditions_kept_iff _).mpr ⟨survives.selection, survives.filters⟩
      order := (order_kept_iff h.source.sort).mpr survives.order
      destination := same
      template := template
      fields := fields
      rename := rfl
      wrapKey := (getD_givenText _).symm
      steps := by
        simp only [resaved, getD_given]
        exact (steps_kept_iff _).mpr survives.defaults
      delivery := (delivery_kept_iff h.delivery).mpr ⟨survives.backoff, survives.pageSize⟩
      trigger := (trigger_kept_iff accepted).mpr survives.poll
      enabled := rfl }

namespace Orders

def runtime : FormRuntime where
  numberText
    | .finite _ | .negativeZero => "0"
    | .nan => "NaN"
    | .infinity negative => if negative then "-Infinity" else "Infinity"
  numberOf text := if text = "0" then .finite 0 else .nan
  otherText _ := "[object Object]"
  numberText_trim := by
    rintro (q | _ | _ | negative)
    · show trim "0" = "0"
      decide
    · decide
    · decide
    · cases negative <;> decide
  numberText_ne := by
    rintro (q | _ | _ | negative)
    · show "0" ≠ ""
      decide
    · decide
    · decide
    · cases negative <;> decide
  numberText_zero := rfl
  numberOf_zero := rfl
  numberOf_numberText := by
    intro text q is
    split at is
    · exact is
    · cases is

def context : BuildInputContext where
  columns := ["id", "customer", "created_at"]
  nodup := by decide
  singlePk := some "id"
  fallbackName := "orders bridge"
  columnTypes
    | "id" => some "number"
    | "created_at" => some "datetime"
    | _ => some "string"
  sourceEngine := some "postgres"

/-- The orders of one customer, in some order. -/
def bridge (sort : Option (List SortSpec)) : Bridge where
  name := "Orders"
  source :=
    { connectionId := "shop"
      database := none
      schema := some "public"
      table := "orders"
      filters := some [⟨"customer", .eq, .string "Ada"⟩]
      sort := sort }
  destination := .http
    { url := "https://hooks.test/orders"
      method := .POST
      headers := none
      auth := .none
      idempotency := true }
  transform :=
    { template := "\x7b\x7b$row\x7d\x7d", fields := none, rename := none, wrapKey := none, columns := none }
  delivery :=
    { batchSize := 1
      maxAttempts := 3
      backoffMs := 500
      backoffMaxMs := 30000
      minDelayMs := 0
      timeoutMs := 15000
      pageSize := 200
      onError := .continue_
      onSchemaChange := .stop }
  trigger := .replay none
  enabled := true

theorem accepted (sort : Option (List SortSpec)) : (bridge sort).Accepted where
  template := by
    show "\x7b\x7b$row\x7d\x7d" ≠ ""
    decide
  targets := by
    intro _ wrong
    cases wrong
  poll := by
    intro _ _ _ _ wrong
    cases wrong

theorem opened_and_saved : (bridge none).Accepted ∧
    ∃ input, reopened runtime context (bridge none) = some input ∧ Equivalent runtime context (bridge none) input :=
  ⟨accepted none, (reopened_iff runtime context (accepted none)).mpr {
    name := by decide
    selection := by
      intro f wrong
      cases wrong
    filters := by
      intro f mem _
      obtain rfl := List.mem_singleton.mp mem
      exact ⟨by decide, fun _ => by decide, rfl⟩
    order := Or.inl rfl
    destination := ⟨by simp [HeadersKept], rfl⟩
    defaults := by
      intro _ _ mem
      cases mem
    backoff := ⟨rfl, rfl⟩
    pageSize := rfl
    poll := by
      intro _ _ _ _ wrong
      cases wrong }⟩

/-- The newest orders are read first, and after the bridge was saved the ones of the lowest key. -/
theorem newest_first_lost : ¬ ∀ (rt : FormRuntime) (ctx : BuildInputContext) (h : Bridge), h.Accepted →
    ∃ input, reopened rt ctx h = some input ∧ Equivalent rt ctx h input := by
  intro all
  obtain ⟨input, made, same⟩ := all runtime context _ (accepted (some [⟨"created_at", .desc⟩]))
  rw [reopened_eq] at made
  obtain ⟨destination, -, rfl⟩ := Option.map_eq_some_iff.mp made
  rcases (order_kept_iff _).mp same.order with none_ | ⟨pk, -, key⟩
  · exact List.cons_ne_nil _ _ none_
  · exact absurd (congrArg SortSpec.direction (List.cons.inj key).1) Direction.noConfusion

end Orders

end Syncle.Builder
