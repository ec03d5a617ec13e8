import Syncle.Builder.Reopened

/-!
# What survives the builder

Each part of a configuration, and exactly when it comes back from the form as it went in.
-/

namespace Syncle.Builder

open Lib Js
open Shape (ColumnTransform ColumnMapping objectPrototype)

/-! ## The columns that are sent -/

section Columns

/-- No step adds a column twice, or one that is there. -/
theorem nodup_columnsAdded (transforms : List ColumnTransform) {columns : List String} (nodup : columns.Nodup) :
    (columns ++ columnsAdded transforms columns).Nodup := by
  have from_ (added : List String) (apart : (columns ++ added).Nodup) :
      (columns ++ transforms.foldl (fun added t =>
        if t.adds && !(columns ++ added).contains t.column then added ++ [t.column] else added) added).Nodup := by
    induction transforms generalizing added with
    | nil => exact apart
    | cons t transforms ih =>
      rw [List.foldl_cons]
      refine ih _ ?_
      split
      · rename_i new
        rw [Bool.and_eq_true, Bool.not_eq_true', List.contains_eq_mem, decide_eq_false_iff_not] at new
        rw [← List.append_assoc]
        exact List.Nodup.append apart (List.nodup_singleton _) (by simpa using new.2)
      · exact apart
  exact from_ [] (by simpa using nodup)

variable {ctx : BuildInputContext}

theorem mem_pinned {fields : Option (List String)} {name : String} :
    name ∈ pinned ctx fields ↔ name ∈ ctx.columns ∧ (fields.getD [] = [] ∨ name ∈ fields.getD []) := by
  unfold pinned
  split
  · simp
  · rename_i none
    have empty : fields.getD [] = [] := by
      cases fields with
      | none => rfl
      | some fields =>
        cases fields with
        | nil => rfl
        | cons field fields => exact absurd rfl (none field fields)
    simp [empty]

theorem pinned_sublist (fields : Option (List String)) : (pinned ctx fields).Sublist ctx.columns := by
  unfold pinned
  split
  · exact List.filter_sublist
  · exact List.Sublist.refl _

theorem nodup_projected (h : Bridge) : (projected ctx h).Nodup :=
  (nodup_columnsAdded _ ctx.nodup).sublist ((pinned_sublist _).append (List.Sublist.refl _))

/-- The columns of a payload; none where they are all there are. -/
def keptFields (fields : Option (List String)) : Option (Set String) :=
  match fields.getD [] with
  | [] => none
  | fields => some {name | name ∈ fields}

/-- A payload of every column has no step that adds one; a payload of some is of columns that are there
or that steps add, of every added one, and not of them all. -/
def FieldsKept (ctx : BuildInputContext) (h : Bridge) : Prop :=
  match h.transform.fields.getD [] with
  | [] => columnsAdded (h.transform.columns.getD []) ctx.columns = []
  | fields =>
    (∀ name ∈ fields, name ∈ ctx.columns ∨ name ∈ columnsAdded (h.transform.columns.getD []) ctx.columns) ∧
      (∀ name ∈ columnsAdded (h.transform.columns.getD []) ctx.columns, name ∈ fields) ∧
      ¬ ((∀ name ∈ ctx.columns, name ∈ fields) ∧ columnsAdded (h.transform.columns.getD []) ctx.columns = [])

theorem sendsAll_eq_true {h : Bridge} :
    sendsAll ctx h = true ↔ (∀ name ∈ ctx.columns, h.transform.fields.getD [] = [] ∨ name ∈ h.transform.fields.getD []) ∧
      columnsAdded (h.transform.columns.getD []) ctx.columns = [] := by
  rw [sendsAll, Bool.and_eq_true, List.all_eq_true, decide_eq_true_eq]
  refine and_congr_left fun _ => forall₂_congr fun name mem => ?_
  rw [decide_eq_true_eq, mem_pinned]
  simp [mem]

theorem mem_projected {h : Bridge} {name : String} : name ∈ projected ctx h ↔
    name ∈ ctx.columns ∧ (h.transform.fields.getD [] = [] ∨ name ∈ h.transform.fields.getD []) ∨
      name ∈ columnsAdded (h.transform.columns.getD []) ctx.columns := by
  rw [projected, List.mem_append, mem_pinned]

theorem keptFields_some {fields : List String} (some_ : fields ≠ []) :
    keptFields (some fields) = some {name | name ∈ fields} := by
  cases fields with
  | nil => exact absurd rfl some_
  | cons field fields => rfl

/-- **A payload survives the form** exactly if it is one the form can say: all columns, or some. -/
theorem fields_kept_iff (h : Bridge) :
    keptFields h.transform.fields = keptFields (if sendsAll ctx h then none else some (projected ctx h)) ↔
      FieldsKept ctx h := by
  have before : keptFields h.transform.fields = keptFields (some (h.transform.fields.getD [])) := by
    unfold keptFields
    rfl
  have all := @sendsAll_eq_true ctx h
  have sent := @mem_projected ctx h
  rw [before]
  unfold FieldsKept
  generalize h.transform.fields.getD [] = fields at all sent ⊢
  generalize columnsAdded (h.transform.columns.getD []) ctx.columns = added at all sent ⊢
  cases fields with
  | nil =>
    constructor
    · intro same
      by_contra some_
      have notAll : ¬ sendsAll ctx h = true := fun is => some_ (all.mp is).2
      obtain ⟨name, mem⟩ := List.exists_mem_of_ne_nil added some_
      rw [if_neg notAll, keptFields_some (List.ne_nil_of_mem (sent.mpr (Or.inr mem)))] at same
      exact nomatch same
    · intro none
      rw [if_pos (all.mpr ⟨fun _ _ => Or.inl rfl, none⟩)]
      rfl
  | cons field fields =>
    simp only [List.cons_ne_nil, false_or] at all sent
    rw [keptFields_some (List.cons_ne_nil _ _)]
    constructor
    · intro same
      by_cases every : sendsAll ctx h = true
      · rw [if_pos every] at same
        exact nomatch same
      · rw [if_neg every] at same
        have some_ : projected ctx h ≠ [] := by
          intro none
          rw [none] at same
          exact nomatch same
        rw [keptFields_some some_] at same
        have each : ∀ name, name ∈ field :: fields ↔ name ∈ projected ctx h :=
          fun name => Set.ext_iff.mp (Option.some.inj same) name
        refine ⟨fun name mem => ?_, fun name mem => (each name).mpr (sent.mpr (Or.inr mem)), fun is => every (all.mpr is)⟩
        exact (sent.mp ((each name).mp mem)).imp_left And.left
    · rintro ⟨there, adding, some_⟩
      have notAll : ¬ sendsAll ctx h = true := fun is => some_ (all.mp is)
      have each : ∀ name, name ∈ field :: fields ↔ name ∈ projected ctx h := by
        intro name
        rw [sent]
        constructor
        · intro mem
          exact (there name mem).imp_left fun column => ⟨column, mem⟩
        · rintro (⟨-, mem⟩ | mem)
          · exact mem
          · exact adding name mem
      rw [if_neg notAll, keptFields_some (List.ne_nil_of_mem ((each field).mp List.mem_cons_self))]
      exact congrArg some (Set.ext each)

end Columns

/-! ## A target -/

section Target

theorem mapM_cons_eq_some {α β : Type*} {f : α → Option β} {a : α} {list : List α} {made : List β} :
    (a :: list).mapM f = some made ↔ ∃ b rest, f a = some b ∧ list.mapM f = some rest ∧ b :: rest = made := by
  simp [List.mapM_cons, Option.bind_eq_some_iff]

theorem buildMapping_eq_some {t : DbTarget} {included : List String} {mapping : List ColumnMapping} :
    buildMapping t included = some mapping ↔
      mapping.map (·.source) = included ∧ ∀ m ∈ mapping, renamed t m.source = some m.target := by
  unfold buildMapping
  induction included generalizing mapping with
  | nil =>
    constructor
    · intro is
      obtain rfl : [] = mapping := Option.some.inj is
      exact ⟨rfl, by simp⟩
    · rintro ⟨none, -⟩
      rw [List.map_eq_nil_iff.mp none]
      rfl
  | cons s included ih =>
    rw [mapM_cons_eq_some]
    constructor
    · rintro ⟨m, rest, named, others, rfl⟩
      obtain ⟨target, is, rfl⟩ := Option.map_eq_some_iff.mp named
      obtain ⟨sources, each⟩ := ih.mp others
      exact ⟨congrArg (s :: ·) sources, List.forall_mem_cons.mpr ⟨is, each⟩⟩
    · rintro ⟨sources, each⟩
      obtain ⟨m, rest, rfl⟩ : ∃ m rest, mapping = m :: rest :=
        List.exists_cons_of_ne_nil fun none => by simp [none] at sources
      rw [List.map_cons, List.cons.injEq] at sources
      obtain ⟨rfl, sources⟩ := sources
      rw [List.forall_mem_cons] at each
      exact ⟨m, rest, by rw [each.1]; rfl, ih.mpr ⟨sources, each.2⟩, rfl⟩

/-- How a mapping is spelled: a new name without blanks around it, and no name that every object
inherits left as it is. -/
def Spelled (m : ColumnMapping) : Prop :=
  if m.source = m.target then m.source ∉ objectPrototype else trim m.target = m.target ∧ m.target ≠ ""

/-- The form lists the new names, trims each, and looks a name up among them. -/
theorem renamed_iff {t : DatabaseTarget} (nodup : (t.mapping.map (·.source)).Nodup) {m : ColumnMapping}
    (mem : m ∈ t.mapping) : renamed (loadTarget t) m.source = some m.target ↔ Spelled m := by
  have entry (k v : String) :
      (k, v) ∈ ((t.mapping.filter fun m => m.source ≠ m.target).map fun m => (m.source, m.target)) ↔
        (⟨k, v⟩ : ColumnMapping) ∈ t.mapping ∧ k ≠ v := by
    simp only [List.mem_map, List.mem_filter, Prod.mk.injEq]
    constructor
    · rintro ⟨⟨source, target⟩, ⟨there, other⟩, rfl, rfl⟩
      exact ⟨there, by simpa using other⟩
    · rintro ⟨there, other⟩
      exact ⟨_, ⟨there, by simpa using other⟩, rfl, rfl⟩
  have only {target : String} (there : (⟨m.source, target⟩ : ColumnMapping) ∈ t.mapping) : target = m.target :=
    congrArg ColumnMapping.target (List.inj_on_of_nodup_map nodup there mem rfl)
  unfold renamed Spelled loadTarget
  simp only
  by_cases same : m.source = m.target
  · have none : (OrderedMap.empty.setAll ((t.mapping.filter fun m => m.source ≠ m.target).map
        fun m => (m.source, m.target))).get? m.source = none := by
      cases is : (OrderedMap.empty.setAll ((t.mapping.filter fun m => m.source ≠ m.target).map
          fun m => (m.source, m.target))).get? m.source with
      | none => rfl
      | some target =>
        obtain ⟨there, other⟩ := (entry _ _).mp (OrderedMap.of_get?_setAll is)
        exact absurd (same.trans (only there).symm) other
    rw [none, if_pos same]
    by_cases inherited : m.source ∈ objectPrototype
    · simp [inherited]
    · simpa [inherited] using same
  · have is : (OrderedMap.empty.setAll ((t.mapping.filter fun m => m.source ≠ m.target).map
        fun m => (m.source, m.target))).get? m.source = some m.target :=
      OrderedMap.get?_setAll_of_same ((entry _ _).mpr ⟨mem, same⟩) fun target there => only ((entry _ _).mp there).1
    rw [is, if_neg same]
    simp only [Option.some.injEq]
    by_cases blank : trim m.target = ""
    · constructor
      · intro wrong
        rw [if_pos blank] at wrong
        exact absurd wrong same
      · rintro ⟨trimmed, some_⟩
        exact absurd (trimmed.symm.trans blank) some_
    · constructor
      · intro kept
        rw [if_neg blank] at kept
        exact ⟨kept, fun empty => blank (kept.trans empty)⟩
      · rintro ⟨trimmed, -⟩
        rw [if_neg blank, trimmed]

/-- Every column that is sent is mapped, once, and no other. -/
structure MappingKept (included : List String) (mapping : List ColumnMapping) : Prop where
  same : (mapping.map (·.source)).Perm included
  spelled : ∀ m ∈ mapping, Spelled m

/-- **A mapping survives** exactly if it maps what is sent: the form has no list of its own for it. -/
theorem mapping_kept_iff {included : List String} (nodup : included.Nodup) (t : DatabaseTarget) :
    (∃ mapping, buildMapping (loadTarget t) included = some mapping ∧ t.mapping.Perm mapping) ↔
      MappingKept included t.mapping := by
  constructor
  · rintro ⟨mapping, built, perm⟩
    obtain ⟨sources, each⟩ := buildMapping_eq_some.mp built
    have same : (t.mapping.map (·.source)).Perm included := sources ▸ perm.map _
    refine ⟨same, fun m mem => ?_⟩
    exact (renamed_iff (same.nodup_iff.mpr nodup) mem).mp (each m (perm.subset mem))
  · rintro ⟨same, spelled⟩
    have each : ∀ m ∈ t.mapping, renamed (loadTarget t) m.source = some m.target := fun m mem =>
      (renamed_iff (same.nodup_iff.mpr nodup) mem).mpr (spelled m mem)
    let named (s : String) : ColumnMapping := ⟨s, (renamed (loadTarget t) s).getD ""⟩
    have itself : ∀ m ∈ t.mapping, named m.source = m := by
      intro m mem
      simp only [named, each m mem, Option.getD_some]
    have perm : t.mapping.Perm (included.map named) := by
      have again : (t.mapping.map (·.source)).map named = t.mapping := by
        rw [List.map_map]
        exact (List.map_congr_left itself).trans (List.map_id _)
      rw [← again] at *
      exact same.map named
    refine ⟨included.map named, buildMapping_eq_some.mpr ⟨?_, fun m mem => ?_⟩, perm⟩
    · rw [List.map_map]
      exact List.map_id _
    · exact each m (perm.symm.subset mem)

/-- The two targets take the same rows, and treat them alike. -/
structure SameTarget (a b : DatabaseTarget) : Prop where
  connectionId : a.connectionId = b.connectionId
  database : a.database.getD "" = b.database.getD ""
  schema : a.schema.getD "" = b.schema.getD ""
  table : a.table = b.table
  writeMode : a.writeMode = b.writeMode
  keyColumns : a.keyColumns = b.keyColumns
  /-- in whatever order; with none, every column is mapped to itself, whichever there are -/
  mapping : a.mapping.Perm b.mapping
  createMissingTable : a.createMissingTable = b.createMissingTable
  onDelete : a.onDelete = b.onDelete
  /-- the mark of a soft delete -/
  softDelete : a.onDelete = .soft → a.softDelete = b.softDelete
  redis : a.redis = b.redis

theorem getD_givenText (text : String) : (givenText text).getD "" = text := by
  unfold givenText
  split
  · rename_i empty
    exact empty.symm
  · rfl

/-- What a target keeps of Redis. -/
theorem redis_resaved {t : DatabaseTarget} (accepted : t.Accepted) {r : RedisTarget} (redis : t.redis = some r) :
    ({ keyTemplate := trim r.keyTemplate
       type := r.type
       valueColumn := if r.type = .string then some (r.valueColumn.getD "") else none
       ttlSeconds := r.ttlSeconds } : RedisTarget) = r := by
  obtain ⟨trimmed, value⟩ := accepted.redis r redis
  obtain ⟨keyTemplate, type, valueColumn, ttlSeconds⟩ := r
  simp only at trimmed value ⊢
  rw [trimmed]
  by_cases string : type = .string
  · obtain ⟨column, rfl⟩ := Option.isSome_iff_exists.mp (value.mpr string)
    rw [if_pos string]
    rfl
  · have none : valueColumn = none := by
      rw [← Option.not_isSome_iff_eq_none]
      exact fun is => string (value.mp is)
    rw [if_neg string, none]

/-- **A target survives** with its mapping; what else it has, the form has fields for. -/
theorem target_kept_iff {included : List String} (nodup : included.Nodup) {t : DatabaseTarget}
    (accepted : t.Accepted) :
    (∃ t', buildTarget included (loadTarget t) = some t' ∧ SameTarget t t') ↔
      trim t.table = t.table ∧ MappingKept included t.mapping := by
  rw [← mapping_kept_iff nodup]
  constructor
  · rintro ⟨t', built, same⟩
    obtain ⟨mapping, mapped, rfl⟩ := Option.map_eq_some_iff.mp built
    exact ⟨same.table.symm, mapping, mapped, same.mapping⟩
  · rintro ⟨table, mapping, mapped, perm⟩
    refine ⟨_, congrArg (Option.map _) mapped, ?_⟩
    cases redis : t.redis with
    | none =>
      exact {
        connectionId := rfl
        database := (getD_givenText _).symm
        schema := (getD_givenText _).symm
        table := table.symm
        writeMode := rfl
        keyColumns := rfl
        mapping := perm
        createMissingTable := rfl
        onDelete := by simp [loadTarget, redis]
        softDelete := by
          intro soft
          obtain ⟨-, mark, is, trimmed⟩ := accepted.soft soft
          simp [loadTarget, redis, soft, is, trimmed]
        redis := by simp [loadTarget, redis] }
    | some r =>
      have hard : t.onDelete ≠ .soft := by
        intro soft
        rw [(accepted.soft soft).1] at redis
        cases redis
      exact {
        connectionId := rfl
        database := (getD_givenText _).symm
        schema := (getD_givenText _).symm
        table := table.symm
        writeMode := rfl
        keyColumns := rfl
        mapping := perm
        createMissingTable := rfl
        onDelete := by simp [loadTarget, hard]
        softDelete := fun soft => absurd soft hard
        redis := by
          have same := redis_resaved accepted redis
          simp [loadTarget, redis, same] }

/-- Targets one by one. -/
theorem targets_kept_iff {included : List String} (nodup : included.Nodup) {targets : List DatabaseTarget}
    (accepted : ∀ t ∈ targets, t.Accepted) :
    (∃ targets', (targets.mapM fun t => buildTarget included (loadTarget t)) = some targets' ∧
        List.Forall₂ SameTarget targets targets') ↔
      ∀ t ∈ targets, trim t.table = t.table ∧ MappingKept included t.mapping := by
  induction targets with
  | nil => exact ⟨fun _ => by simp, fun _ => ⟨[], rfl, .nil⟩⟩
  | cons t targets ih =>
    rw [List.forall_mem_cons] at accepted ⊢
    rw [← ih accepted.2, ← target_kept_iff nodup accepted.1]
    constructor
    · rintro ⟨made, built, same⟩
      obtain ⟨t', rest, first, others, rfl⟩ := mapM_cons_eq_some.mp built
      obtain ⟨here, there⟩ := List.forall₂_cons.mp same
      exact ⟨⟨t', first, here⟩, rest, others, there⟩
    · rintro ⟨⟨t', first, here⟩, rest, others, there⟩
      exact ⟨t' :: rest, mapM_cons_eq_some.mpr ⟨t', rest, first, others, rfl⟩, .cons here there⟩

end Target

/-! ## An endpoint -/

section Endpoint

def headerOf (h : HttpDestination) (name : String) : Option String := h.headers.bind (·.get? name)

/-- The two endpoints are sent the same requests. A URL is read without blanks around it. -/
structure SameEndpoint (a b : HttpDestination) : Prop where
  url : trim a.url = trim b.url
  method : a.method = b.method
  headers : ∀ name, headerOf a name = headerOf b name
  auth : a.auth = b.auth
  idempotency : a.idempotency = b.idempotency

/-- Every header has a name, without blanks around it. -/
def HeadersKept (h : HttpDestination) : Prop :=
  ∀ header ∈ (h.headers.map (·.entries)).getD [], trim header.1 = header.1 ∧ header.1 ≠ ""

theorem headerOf_resaved (h : HttpDestination) (name : String) :
    headerOf (buildEndpoint (loadEndpoint h)) name =
      (OrderedMap.empty.setAll (headerEntries ((h.headers.map (·.entries)).getD []))).get? name := by
  have built (entries : List (String × String)) :
      ((given entries).map fun entries => OrderedMap.empty.setAll entries).bind (·.get? name) =
        (OrderedMap.empty.setAll entries).get? name := by
    cases entries with
    | nil => rfl
    | cons e entries => rfl
  exact built _

theorem headerOf_eq_some {h : HttpDestination} {name value : String} :
    headerOf h name = some value ↔ (name, value) ∈ (h.headers.map (·.entries)).getD [] := by
  unfold headerOf
  cases h.headers with
  | none => simp
  | some m => exact OrderedMap.get?_eq_some

/-- **An endpoint survives** with its headers' names, which the form trims. -/
theorem endpoint_kept_iff (h : HttpDestination) :
    SameEndpoint h (buildEndpoint (loadEndpoint h)) ↔ HeadersKept h := by
  have nodup : (((h.headers.map (·.entries)).getD []).map Prod.fst).Nodup := by
    cases h.headers with
    | none => exact List.nodup_nil
    | some m => exact m.nodup_keys
  constructor
  · intro same header mem
    have there := same.headers header.1
    rw [headerOf_eq_some.mpr mem, headerOf_resaved] at there
    obtain ⟨e, kept, is⟩ := List.mem_map.mp (OrderedMap.of_get?_setAll there.symm)
    have some_ : trim e.1 ≠ "" := by simpa using (List.mem_filter.mp kept).2
    rw [← congrArg Prod.fst is]
    exact ⟨trim_trim e.1, some_⟩
  · intro kept
    have all : headerEntries ((h.headers.map (·.entries)).getD []) = (h.headers.map (·.entries)).getD [] := by
      have named : (((h.headers.map (·.entries)).getD []).filter fun e => trim e.1 ≠ "") =
          (h.headers.map (·.entries)).getD [] := by
        refine List.filter_eq_self.mpr fun e mem => ?_
        simp [(kept e mem).1, (kept e mem).2]
      rw [headerEntries, named]
      exact (List.map_congr_left fun e mem => by rw [(kept e mem).1]; rfl).trans (List.map_id _)
    have headers : ∀ name, headerOf h name = headerOf (buildEndpoint (loadEndpoint h)) name := by
      intro name
      refine Option.ext fun value => ?_
      rw [headerOf_resaved, all, headerOf_eq_some]
      constructor
      · intro mem
        refine OrderedMap.get?_setAll_of_same mem fun other there => ?_
        exact congrArg Prod.snd (List.inj_on_of_nodup_map nodup there mem rfl)
      · exact OrderedMap.of_get?_setAll
    have auth : h.auth = (buildEndpoint (loadEndpoint h)).auth := by
      unfold buildEndpoint loadEndpoint
      cases h.auth <;> rfl
    exact ⟨(trim_trim h.url).symm, rfl, headers, auth, rfl⟩

end Endpoint

end Syncle.Builder
