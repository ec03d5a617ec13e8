import Syncle.Shape.DeleteIdentity

/-!
# Leaving out an unchanged column (`completeRow` in `bridge-cdc.service.ts`)

PostgreSQL leaves a large column out of an update that did not touch it. The row then holds a marker
there, which every step of the bridge skips, and the column is left out of the upsert: the
destination keeps the copy it has. Where that is not good enough the row is completed from the
source first.

The partial row, the whole one and the row as it was before go through the same steps side by side
(`Alongside`). What was sent stays the same in the first two; what was not stays a marker in the
first, and the same in the other two.

`columnsRead` names what the steps read, and not what a `set` writes. A `set` over a column that was
not sent is skipped with everything else, and the destination keeps what the old row computed there
(`not_upsertsTheSame`).
-/

namespace Syncle.Shape

open Js Lib

/-! ## `completeRow` -/

/-- What asks for a complete row, apart from the steps. -/
structure Completion where
  /-- an HTTP destination, whose payload would go out without the column -/
  http : Bool
  /-- the columns the source filters look at -/
  filterColumns : List String
  /-- `hasWholeValueTarget` -/
  wholeValueTarget : Bool
  /-- `stream.primaryKey` -/
  primaryKey : List String

def missing (row : Row) (c : String) : Bool := row c = some .unchanged

def Completion.needed (cfg : Completion) (transforms : List ColumnTransform) (row : Row)
    (keyChanged : Bool) : Bool :=
  keyChanged || cfg.http || cfg.filterColumns.any (missing row) ||
    -- a mask, a cast or a computed column cannot work from "not sent"
    (columnsRead transforms).any (missing row) || cfg.wholeValueTarget

/-- Does the row say which row it is? -/
def Completion.keyed (cfg : Completion) (row : Row) : Bool :=
  !cfg.primaryKey.isEmpty &&
    cfg.primaryKey.all fun c => !isBlank (read row c) && read row c ≠ .unchanged

/-- `without` -/
def Completion.without (cfg : Completion) (row : Row) : Row :=
  if cfg.http then fun c => if missing row c then none else row c else row

/-- The missing columns, from the row as it is now. -/
def fill (row current : Row) : Row := fun c =>
  if missing row c ∧ ((current c).isSome ∨ c ∈ objectPrototype) then some (read current c)
  else row c

/-- `completeRow`. `current` is what its read finds under the row's key. -/
def Completion.completeRow (cfg : Completion) (transforms : List ColumnTransform) (row : Row)
    (keyChanged : Bool) (current : Option Row) : Row :=
  if cfg.needed transforms row keyChanged then
    if cfg.keyed row then
      match current with
      -- gone since: its delete is further along the stream
      | none => cfg.without row
      | some current => cfg.without (fill row current)
    else cfg.without row
  else row

/-! ## Upserted -/

/-- The row as it is mapped for the target; none where the delivery fails. -/
def Delivery.mapOne (rt : RedisRuntime) (d : Delivery) (now : String) (row : Row) :
    Option Mapped :=
  match d.shape rt now .write [row] with
  | .error _ => none
  | .ok rows => (d.fit rt .write rows).bind List.head?

def Mapped.row : Mapped → Row
  | columns row => row
  | key _ row => row

/-- What is stored after an upsert over `stored`: the columns it carries, over what is there; a
store that holds a row as one value replaces it. -/
def upsertOver (whole : Bool) (stored : Row) (mapped : Row) : Row :=
  if whole then mapped else fun c => (mapped c).or (stored c)

/-- A row with some of its columns not sent. -/
def partialRow (unsent : String → Bool) (row : Row) : Row := fun c =>
  if unsent c then some .unchanged else row c

/-- An update of one row, of which some columns were not sent. -/
structure Update where
  old : Row
  new : Row
  unsent : String → Bool
  keyChanged : Bool
  /-- what a read of the row's key finds when the change is taken -/
  current : Option Row
  same : ∀ c, unsent c = true → new c = old c ∧ (new c).isSome
  /-- a whole row holds no markers -/
  full : ∀ c, new c ≠ some .unchanged

/-- Where the change is upserted: over what the old row left there, and over nothing where the row
moved to a new key. -/
def Update.before (whole : Bool) (u : Update) (base stored : Row) : Row :=
  if u.keyChanged then fun _ => none else upsertOver whole base stored

/-- The row as the change brings it, completed where that is asked for. -/
def Update.taken (u : Update) (cfg : Completion) (transforms : List ColumnTransform) : Row :=
  cfg.completeRow transforms (partialRow u.unsent u.new) u.keyChanged u.current

/-- The change finds the same destination row, and leaves there what the whole row would. -/
def Delivery.UpsertsTheSame (rt : RedisRuntime) (d : Delivery) (cfg : Completion) (whole : Bool)
    (writtenAt now : String) (u : Update) : Prop :=
  ∀ stored, d.mapOne rt writtenAt u.old = some stored → ∀ base,
    let upserted := fun m : Mapped =>
      (identityOf d.target m, upsertOver whole (u.before whole base stored.row) m.row)
    (d.mapOne rt now (u.taken cfg d.transforms)).map upserted = (d.mapOne rt now u.new).map upserted

/-- Is the row filled in from the source? -/
def Update.completed (u : Update) (cfg : Completion) (transforms : List ColumnTransform) : Bool :=
  let row := partialRow u.unsent u.new
  cfg.needed transforms row u.keyChanged && cfg.keyed row && u.current.isSome

/-- Nothing has to do with a column that was not sent, but to leave it. -/
structure Delivery.Leaves (d : Delivery) (unsent : String → Bool) : Prop where
  /-- no `set` writes one -/
  computed : ∀ t ∈ d.transforms, t.invents → unsent t.column = false
  /-- …or names one in its template -/
  named : ∀ column template, .set column template ∈ d.transforms →
    forbidden.contains column = false → ∀ name ∈ tokens template, unsent name = true →
      name = "$now" ∨ name = "$table"
  /-- nothing else is mapped to where one is -/
  alone : ∀ m ∈ d.target.mapping, ∀ m' ∈ d.target.mapping, m.target = m'.target →
    unsent m.source = true → m'.source = m.source
  /-- and the row is not found by one -/
  keyed : ∀ c ∈ d.target.keyedOn, unsent c = false

/-- The row is completed, from a row that still has what was not sent as the change left it (the
rest of it may have changed meanwhile); or it is not, and goes over the old row of a table by steps
that leave what was not sent alone. -/
def Update.Safe (u : Update) (cfg : Completion) (whole : Bool) (d : Delivery) : Prop :=
  if u.completed cfg d.transforms then
    ∀ current ∈ u.current, ∀ c, u.unsent c = true → current c = u.new c
  else cfg.http = false ∧ whole = false ∧ d.target.redis = none ∧ u.keyChanged = false ∧
    d.Leaves u.unsent

/-! ## One row -/

theorem eraseDups_eq_nil {l : List String} : l.eraseDups = [] ↔ l = [] := by
  cases l with
  | nil => simp
  | cons a l => simp [List.eraseDups_cons]

/-- What a delivery makes of one row. -/
theorem Delivery.mapOne_eq (rt : RedisRuntime) (d : Delivery) (now : String) (row : Row) :
    d.mapOne rt now row =
      (applyColumnTransforms rt.toRuntime { table := d.table, now := now, keysOnly := false } row
        d.transforms).bind fun s =>
          if s.errors = [] then (convertRow d.converters s.row).bind (mapForTarget rt d.target .write)
          else none := by
  have fits : ∀ row, (d.fit rt .write [row]).bind List.head? =
      (convertRow d.converters row).bind (mapForTarget rt d.target .write) := by
    intro row
    cases hc : convertRow d.converters row with
    | none => simp [Delivery.fit, hc]
    | some converted =>
      cases hm : mapForTarget rt d.target .write converted <;> simp [Delivery.fit, hc, hm]
  unfold Delivery.mapOne Delivery.shape shapeRows
  by_cases none : d.transforms = []
  · simp [none, applyColumnTransforms, fits]
  · simp only [List.isEmpty_iff, none, if_false]
    cases hs : applyColumnTransforms rt.toRuntime
      { table := d.table, now := now, keysOnly := false } row d.transforms with
    | none => simp [hs]
    | some s =>
      by_cases clean : s.errors = []
      · simp [hs, clean, fits]
      · simp [hs, clean, eraseDups_eq_nil]

/-- Only what was not sent is looked up. -/
theorem fill_partialRow (u : Update) {current : Row}
    (agrees : ∀ c, u.unsent c = true → current c = u.new c) :
    fill (partialRow u.unsent u.new) current = u.new := by
  funext c
  cases hc : u.unsent c with
  | true =>
    obtain ⟨v, hv⟩ := Option.isSome_iff_exists.mp (u.same c hc).2
    have here : current c = some v := (agrees c hc).trans hv
    simp [fill, partialRow, missing, hc, here, hv, read]
  | false => simp [fill, partialRow, missing, hc, u.full c]

/-- A row completed from the source is the new row, whatever else was written there meanwhile. -/
theorem Update.taken_completed {u : Update} {cfg : Completion} {transforms : List ColumnTransform}
    (completed : u.completed cfg transforms = true)
    (agrees : ∀ current ∈ u.current, ∀ c, u.unsent c = true → current c = u.new c) :
    u.taken cfg transforms = u.new := by
  have whole : cfg.without u.new = u.new := by
    unfold Completion.without
    split_ifs
    · funext c
      simp [missing, u.full c]
    · rfl
  unfold Update.completed at completed
  simp only [Bool.and_eq_true] at completed
  obtain ⟨⟨needed, keyed⟩, found⟩ := completed
  obtain ⟨current, hcurrent⟩ := Option.isSome_iff_exists.mp found
  unfold Update.taken Completion.completeRow
  rw [if_pos needed, if_pos keyed, hcurrent]
  simp only [fill_partialRow u (agrees current hcurrent), whole]

theorem Update.taken_partial {u : Update} {cfg : Completion} {transforms : List ColumnTransform}
    (left : u.completed cfg transforms = false) (noHttp : cfg.http = false) :
    u.taken cfg transforms = partialRow u.unsent u.new := by
  have whole : ∀ row, cfg.without row = row := by
    intro row
    simp [Completion.without, noHttp]
  unfold Update.taken Completion.completeRow
  split_ifs with needed keyed
  · cases hc : u.current with
    | none => exact whole _
    | some current => simp [Update.completed, needed, keyed, hc] at left
  · exact whole _
  · rfl

/-! ## Side by side -/

/-- The partial row, the whole one and the old one: what was sent is the same in the first two, what
was not is a marker in the first and the same in the others. -/
structure Alongside (unsent : String → Bool) (p n o : Row) : Prop where
  sent : ∀ c, unsent c = false → p c = n c
  kept : ∀ c, unsent c = true → p c = some .unchanged ∧ n c = o c

theorem Update.alongside (u : Update) :
    Alongside u.unsent (partialRow u.unsent u.new) u.new u.old := by
  refine ⟨?_, ?_⟩
  · intro c sent
    simp [partialRow, sent]
  · intro c unsent
    exact ⟨by simp [partialRow, unsent], (u.same c unsent).1⟩

/-- A column that was sent changes, in the partial row as in the whole one. -/
theorem Alongside.write {unsent : String → Bool} {p n o p' n' o' : Row} {column : String}
    (h : Alongside unsent p n o) (sent : unsent column = false) (here : p' column = n' column)
    (others : ∀ c, c ≠ column → p' c = p c ∧ n' c = n c ∧ o' c = o c) :
    Alongside unsent p' n' o' := by
  refine ⟨?_, ?_⟩
  · intro c hc
    by_cases own : c = column
    · subst own
      exact here
    · rw [(others c own).1, (others c own).2.1]
      exact h.sent c hc
  · intro c hc
    have own : c ≠ column := by
      rintro rfl
      rw [sent] at hc
      cases hc
    rw [(others c own).1, (others c own).2.1, (others c own).2.2]
    exact h.kept c hc

/-- A column that was not sent changes, in the whole row as in the old one. -/
theorem Alongside.skip {unsent : String → Bool} {p n o n' o' : Row} {column : String}
    (h : Alongside unsent p n o) (left : unsent column = true) (here : n' column = o' column)
    (others : ∀ c, c ≠ column → n' c = n c ∧ o' c = o c) : Alongside unsent p n' o' := by
  refine ⟨?_, ?_⟩
  · intro c hc
    have own : c ≠ column := by
      rintro rfl
      rw [left] at hc
      cases hc
    rw [(others c own).1]
    exact h.sent c hc
  · intro c hc
    by_cases own : c = column
    · subst own
      exact ⟨(h.kept c hc).1, here⟩
    · rw [(others c own).1, (others c own).2]
      exact h.kept c hc

/-! ## Shaped -/

/-- …with the same to complain of, if the old row had nothing. -/
def ShapedAlongside (unsent : String → Bool) (p n o : Shaped) : Prop :=
  Alongside unsent p.row n.row o.row ∧ (o.errors = [] → (p.errors = [] ↔ n.errors = []))

theorem applyTransform_errors {rt : Runtime} {ctx : Context} {s s' : Shaped} {t : ColumnTransform}
    (h : applyTransform rt ctx s t = some s') : ∃ e, s'.errors = s.errors ++ e := by
  have effect : Option.Rel (SameEffect t.column s s) (applyTransform rt ctx s t)
      (applyTransform rt ctx s t) := applyTransform_congr rfl rfl fun _ _ _ _ => rfl
  rw [h] at effect
  cases effect with
  | some here =>
    obtain ⟨e, he, _⟩ := here.2
    exact ⟨e, he⟩

theorem applyTransform_alongside {rt : Runtime} {ctx ctx' : Context} {d : Delivery}
    {unsent : String → Bool} (leaves : d.Leaves unsent) (keysOnly : ctx.keysOnly = ctx'.keysOnly)
    {t : ColumnTransform} (ht : t ∈ d.transforms) {p n o o' : Shaped}
    (h : ShapedAlongside unsent p n o) (old : applyTransform rt ctx' o t = some o') :
    Option.Rel (fun p' n' => ShapedAlongside unsent p' n' o') (applyTransform rt ctx p t)
      (applyTransform rt ctx n t) := by
  obtain ⟨rows, errors⟩ := h
  obtain ⟨eo, heo⟩ := applyTransform_errors old
  have earlier : o'.errors = [] → o.errors = [] := by
    intro clean
    rw [heo] at clean
    exact (List.append_eq_nil_iff.mp clean).1
  cases hc : unsent t.column with
  | false =>
    have compute : ∀ column template, t = .set column template →
        forbidden.contains column = false →
          computed rt ctx p.row template = computed rt ctx n.row template := by
      rintro column template rfl allowed
      refine computed_congr fun name hname => scopeValue_congr ?_
      cases hn : unsent name with
      | false => exact Or.inr (Or.inr (rows.sent name hn))
      | true =>
        rcases leaves.named column template ht allowed name hname hn with now | table
        · exact Or.inl now
        · exact Or.inr (Or.inl table)
    have effect : Option.Rel (SameEffect t.column p n) (applyTransform rt ctx p t)
        (applyTransform rt ctx n t) := applyTransform_congr rfl (rows.sent t.column hc) compute
    cases hp : applyTransform rt ctx p t with
    | none =>
      rw [hp] at effect
      cases hn : applyTransform rt ctx n t with
      | none => exact .none
      | some n' => rw [hn] at effect; cases effect
    | some p' =>
      rw [hp] at effect
      cases hn : applyTransform rt ctx n t with
      | none => rw [hn] at effect; cases effect
      | some n' =>
        rw [hn] at effect
        cases effect with
        | some same =>
          obtain ⟨here, e, hep, hen⟩ := same
          refine .some ⟨rows.write hc here ?_, ?_⟩
          · intro c hne
            exact ⟨applyTransform_other hne hp, applyTransform_other hne hn,
              applyTransform_other hne old⟩
          · intro clean
            have before := errors (earlier clean)
            rw [hep, hen, List.append_eq_nil_iff, List.append_eq_nil_iff, before]
  | true =>
    have plain : t.invents = false := by
      by_contra invents
      have := leaves.computed t ht (by simpa using invents)
      rw [hc] at this
      cases this
    have compute : ∀ column template, t = .set column template →
        forbidden.contains column = false →
          computed rt ctx n.row template = computed rt ctx' o.row template := by
      rintro column template rfl allowed
      simp [ColumnTransform.invents, ColumnTransform.computes, ColumnTransform.column] at plain
      simp [plain] at allowed
    have effect : Option.Rel (SameEffect t.column n o) (applyTransform rt ctx n t)
        (applyTransform rt ctx' o t) :=
      applyTransform_congr keysOnly (rows.kept t.column hc).2 compute
    rw [applyTransform_unsent (rows.kept t.column hc).1]
    cases hn : applyTransform rt ctx n t with
    | none => rw [hn, old] at effect; cases effect
    | some n' =>
      rw [hn, old] at effect
      cases effect with
      | some same =>
        obtain ⟨here, e, hen, heo⟩ := same
        refine .some ⟨rows.skip hc here ?_, ?_⟩
        · intro c hne
          exact ⟨applyTransform_other hne hn, applyTransform_other hne old⟩
        · intro clean
          have before := errors (earlier clean)
          rw [heo] at clean
          rw [before, hen, (List.append_eq_nil_iff.mp clean).2, List.append_nil]

theorem applyColumnTransforms_alongside {rt : Runtime} {ctx ctx' : Context} {d : Delivery}
    {unsent : String → Bool} (leaves : d.Leaves unsent) (keysOnly : ctx.keysOnly = ctx'.keysOnly)
    {p n o : Row} {o' : Shaped} (h : Alongside unsent p n o)
    (old : applyColumnTransforms rt ctx' o d.transforms = some o') :
    Option.Rel (fun p' n' => ShapedAlongside unsent p' n' o')
      (applyColumnTransforms rt ctx p d.transforms)
      (applyColumnTransforms rt ctx n d.transforms) := by
  refine foldlM_rel_beside (R := ShapedAlongside unsent) ?_ ⟨h, fun _ => Iff.rfl⟩ old
  intro t ht p n o o' h step
  exact applyTransform_alongside leaves keysOnly ht h step

/-! ## Converted -/

theorem convertColumn_alongside {unsent : String → Bool} {p n o outp outn outo outo' : Row}
    {conv : Converter} (rows : Alongside unsent p n o) (outs : Alongside unsent outp outn outo)
    (old : convertColumn o outo conv = some outo') :
    Option.Rel (fun outp' outn' => Alongside unsent outp' outn' outo') (convertColumn p outp conv)
      (convertColumn n outn conv) := by
  cases hc : unsent conv.name with
  | false =>
    have here := convertColumn_congr (read_congr (rows.sent conv.name hc)) (outs.sent conv.name hc)
    cases hp : convertColumn p outp conv with
    | none =>
      rw [hp] at here
      cases hn : convertColumn n outn conv with
      | none => exact .none
      | some next => rw [hn] at here; cases here
    | some outp' =>
      rw [hp] at here
      cases hn : convertColumn n outn conv with
      | none => rw [hn] at here; cases here
      | some outn' =>
        rw [hn] at here
        cases here with
        | some here =>
          refine .some (outs.write hc here ?_)
          intro c hne
          exact ⟨convertColumn_other hne hp, convertColumn_other hne hn,
            convertColumn_other hne old⟩
  | true =>
    obtain ⟨marker, same⟩ := rows.kept conv.name hc
    rw [convertColumn_skip (Or.inr (read_of_some marker))]
    have here := convertColumn_congr (read_congr same) (outs.kept conv.name hc).2
    cases hn : convertColumn n outn conv with
    | none => rw [hn, old] at here; cases here
    | some outn' =>
      rw [hn, old] at here
      cases here with
      | some here =>
        refine .some (outs.skip hc here ?_)
        intro c hne
        exact ⟨convertColumn_other hne hn, convertColumn_other hne old⟩

theorem convertRow_alongside {unsent : String → Bool} {p n o o' : Row}
    {converters : List Converter} (rows : Alongside unsent p n o)
    (old : convertRow converters o = some o') :
    Option.Rel (fun p' n' => Alongside unsent p' n' o') (convertRow converters p)
      (convertRow converters n) := by
  refine foldlM_rel_beside (R := Alongside unsent) ?_ rows old
  intro conv _ outp outn outo outo' outs step
  exact convertColumn_alongside rows outs step

/-! ## Mapped -/

theorem put_congr {out out' : Row} {k : String} (v : Value) (same : out k = out' k) :
    put out k v k = put out' k v k := by
  unfold put
  split
  · exact same
  · exact assign_congr .null same
  · exact assign_congr v same

theorem mem_sourcesOf {mapping : List ColumnMapping} {m : ColumnMapping} (hm : m ∈ mapping) :
    m.source ∈ sourcesOf mapping m.target := by
  unfold sourcesOf
  rw [if_neg (by simpa using List.ne_nil_of_mem hm)]
  exact List.mem_map_of_mem (List.mem_filter.mpr ⟨hm, by simp⟩)

/-- A name of the target has what the columns it is filled from have. -/
theorem mapRow_congr {row row' : Row} {mapping : List ColumnMapping} {k : String}
    (same : ∀ c ∈ sourcesOf mapping k, row c = row' c) :
    mapRow row mapping k = mapRow row' mapping k := by
  have fold : ∀ l : List ColumnMapping, (∀ m ∈ l, m.target = k → row m.source = row' m.source) →
      ∀ out out' : Row, out k = out' k →
        l.foldl (fun out m => put out m.target (read row m.source)) out k =
          l.foldl (fun out m => put out m.target (read row' m.source)) out' k := by
    intro l
    induction l with
    | nil => exact fun _ _ _ h => h
    | cons m rest ih =>
      intro sources out out' h
      refine ih (fun m' hm' => sources m' (List.mem_cons_of_mem _ hm')) _ _ ?_
      dsimp only
      by_cases own : k = m.target
      · subst own
        rw [read_congr (sources m List.mem_cons_self rfl)]
        exact put_congr _ h
      · rw [put_other _ own, put_other _ own]
        exact h
  unfold mapRow
  split_ifs with empty
  · have here : row k = row' k := same k (by simp [sourcesOf, empty])
    simp only [sameNames, here]
  · refine fold mapping (fun m hm target => same m.source ?_) _ _ rfl
    subst target
    exact mem_sourcesOf hm

/-- …and nothing where none of them was sent. -/
theorem mapRow_none {row : Row} {mapping : List ColumnMapping} {k : String}
    (left : ∀ c ∈ sourcesOf mapping k, row c = some .unchanged) : mapRow row mapping k = none := by
  have fold : ∀ l : List ColumnMapping, (∀ m ∈ l, m.target = k → row m.source = some .unchanged) →
      ∀ out : Row, out k = none →
        l.foldl (fun out m => put out m.target (read row m.source)) out k = none := by
    intro l
    induction l with
    | nil => exact fun _ _ h => h
    | cons m rest ih =>
      intro sources out h
      refine ih (fun m' hm' => sources m' (List.mem_cons_of_mem _ hm')) _ ?_
      dsimp only
      by_cases own : k = m.target
      · subst own
        rw [read_of_some (sources m List.mem_cons_self rfl)]
        exact h
      · rw [put_other _ own]
        exact h
  unfold mapRow
  split_ifs with empty
  · have here : row k = some .unchanged := left k (by simp [sourcesOf, empty])
    simp [sameNames, here, put]
  · refine fold mapping (fun m hm target => left m.source ?_) _ rfl
    subst target
    exact mem_sourcesOf hm

/-- What a mapped row has under a name: what the whole row has, or nothing where the whole row has
what the old one had. -/
def Carries (p n o : Row) (k : String) : Prop := p k = n k ∨ p k = none ∧ n k = o k

theorem mapRow_alongside {unsent : String → Bool} {p n o : Row} {mapping : List ColumnMapping}
    (rows : Alongside unsent p n o)
    (alone : ∀ m ∈ mapping, ∀ m' ∈ mapping, m.target = m'.target → unsent m.source = true →
      m'.source = m.source) (k : String) :
    Carries (mapRow p mapping) (mapRow n mapping) (mapRow o mapping) k := by
  by_cases one : ∃ c ∈ sourcesOf mapping k, unsent c = true
  · obtain ⟨c, hc, unsentc⟩ := one
    have only : ∀ c' ∈ sourcesOf mapping k, c' = c := by
      intro c' hc'
      unfold sourcesOf at hc hc'
      split_ifs at hc hc'
      · rw [List.mem_singleton.mp hc, List.mem_singleton.mp hc']
      · obtain ⟨m, hm, rfl⟩ := List.mem_map.mp hc
        obtain ⟨m', hm', rfl⟩ := List.mem_map.mp hc'
        obtain ⟨hm, target⟩ := List.mem_filter.mp hm
        obtain ⟨hm', target'⟩ := List.mem_filter.mp hm'
        refine alone m hm m' hm' ?_ unsentc
        rw [of_decide_eq_true target, of_decide_eq_true target']
    obtain ⟨marker, same⟩ := rows.kept c unsentc
    right
    refine ⟨mapRow_none fun c' hc' => ?_, mapRow_congr fun c' hc' => ?_⟩
    · rw [only c' hc']
      exact marker
    · rw [only c' hc']
      exact same
  · left
    refine mapRow_congr fun c hc => rows.sent c ?_
    by_contra unsentc
    exact one ⟨c, hc, by simpa using unsentc⟩

/-- A mapped row with the mark of a row that exists, where the target has one. -/
def DatabaseTarget.marked (target : DatabaseTarget) (out : Row) : Row :=
  match target.soft with
  | some soft => assign out soft.column (unmarked soft.value)
  | none => out

theorem mapForTarget_table {rt : RedisRuntime} {target : DatabaseTarget}
    (table : target.redis = none) (row : Row) :
    mapForTarget rt target .write row =
      some (.columns (target.marked (mapRow row target.mapping))) := by
  cases soft : target.soft <;> simp [mapForTarget, table, DatabaseTarget.marked, soft]

theorem DatabaseTarget.marked_congr {target : DatabaseTarget} {out out' : Row} {k : String}
    (same : out k = out' k) : target.marked out k = target.marked out' k := by
  cases hsoft : target.soft with
  | none => simpa only [DatabaseTarget.marked, hsoft] using same
  | some soft =>
    simp only [DatabaseTarget.marked, hsoft]
    by_cases own : k = soft.column
    · subst own
      exact assign_congr _ same
    · rw [assign_other _ own, assign_other _ own]
      exact same

theorem Carries.marked {target : DatabaseTarget} {p n o : Row} {mapping : List ColumnMapping}
    {k : String} (h : Carries (mapRow p mapping) (mapRow n mapping) (mapRow o mapping) k) :
    Carries (target.marked (mapRow p mapping)) (target.marked (mapRow n mapping))
      (target.marked (mapRow o mapping)) k := by
  rcases h with same | ⟨none, same⟩
  · exact Or.inl (DatabaseTarget.marked_congr same)
  · cases hsoft : target.soft with
    | none =>
      simp only [DatabaseTarget.marked, hsoft]
      exact Or.inr ⟨none, same⟩
    | some soft =>
      simp only [DatabaseTarget.marked, hsoft]
      by_cases own : k = soft.column
      · left
        subst own
        by_cases proto : soft.column = "__proto__"
        · have nothing : ∀ row, mapRow row mapping soft.column = .none := by
            intro row
            rw [proto]
            exact mapRow_proto row mapping
          exact assign_congr _ ((nothing p).trans (nothing n).symm)
        · simp [assign, proto]
      · right
        rw [assign_other _ own, assign_other _ own, assign_other _ own]
        exact ⟨none, same⟩

/-- What is stored after the partial row is what is stored after the whole one, if it goes over the
old row. -/
theorem upsertOver_carries {p n o : Row} (h : ∀ k, Carries p n o k) (base : Row) :
    upsertOver false (upsertOver false base o) p = upsertOver false (upsertOver false base o) n := by
  funext k
  rcases h k with same | ⟨none, same⟩
  · simp [upsertOver, same]
  · cases hk : o k <;> simp [upsertOver, none, same, hk]

/-! ## The whole delivery -/

/-- The two rows are mapped alike, or neither delivery gets that far. -/
theorem Delivery.mapOne_alongside {rt : RedisRuntime} {d : Delivery} {unsent : String → Bool}
    {writtenAt now : String} {p n o : Row} {stored : Mapped} (leaves : d.Leaves unsent)
    (table : d.target.redis = none) (rows : Alongside unsent p n o)
    (old : d.mapOne rt writtenAt o = some stored) :
    Option.Rel (fun mp mn => identityOf d.target mp = identityOf d.target mn ∧
        ∀ k, Carries mp.row mn.row stored.row k) (d.mapOne rt now p) (d.mapOne rt now n) := by
  rw [d.mapOne_eq] at old ⊢
  rw [d.mapOne_eq]
  obtain ⟨so, hso, old⟩ := Option.bind_eq_some_iff.mp old
  split_ifs at old with clean
  obtain ⟨co, hco, old⟩ := Option.bind_eq_some_iff.mp old
  rw [mapForTarget_table table] at old
  obtain rfl := Option.some.inj old
  let ctx : Context := { table := d.table, now := now, keysOnly := false }
  let ctx' : Context := { table := d.table, now := writtenAt, keysOnly := false }
  have keysOnly : ctx.keysOnly = ctx'.keysOnly := rfl
  have shaped : Option.Rel (fun p' n' => ShapedAlongside unsent p' n' so)
      (applyColumnTransforms rt.toRuntime ctx p d.transforms)
      (applyColumnTransforms rt.toRuntime ctx n d.transforms) :=
    applyColumnTransforms_alongside leaves keysOnly rows hso
  change Option.Rel _ ((applyColumnTransforms rt.toRuntime ctx p d.transforms).bind _)
    ((applyColumnTransforms rt.toRuntime ctx n d.transforms).bind _)
  generalize applyColumnTransforms rt.toRuntime ctx p d.transforms = sp at shaped ⊢
  generalize applyColumnTransforms rt.toRuntime ctx n d.transforms = sn at shaped ⊢
  cases shaped with
  | none => exact .none
  | @some sp sn here =>
    obtain ⟨rows, errors⟩ := here
    have errors := errors clean
    simp only [Option.bind_some]
    by_cases failed : sn.errors = []
    case neg =>
      rw [if_neg failed, if_neg fun h => failed (errors.mp h)]
      exact .none
    rw [if_pos failed, if_pos (errors.mpr failed)]
    have converted := convertRow_alongside rows hco
    generalize convertRow d.converters sp.row = cp at converted ⊢
    generalize convertRow d.converters sn.row = cn at converted ⊢
    cases converted with
    | none => exact .none
    | @some cp cn rows =>
      simp only [Option.bind_some, mapForTarget_table table]
      refine .some ⟨?_, fun k => (mapRow_alongside rows leaves.alone k).marked⟩
      simp only [identityOf, Identity.columns.injEq]
      refine List.map_congr_left fun k hk => ?_
      have keyed : ∀ c ∈ sourcesOf d.target.mapping k, cp c = cn c := by
        intro c hc
        refine rows.sent c (leaves.keyed c (List.mem_flatMap.mpr ⟨k, ?_, hc⟩))
        simpa only [DatabaseTarget.keyNames, table] using hk
      rw [read_congr (DatabaseTarget.marked_congr (mapRow_congr keyed))]

/-- **Leaving out an unchanged column is safe**, where the row is completed or no step, mapping or
key has to do with what was not sent. -/
theorem Delivery.upsertsTheSame_of_safe (rt : RedisRuntime) (d : Delivery) (cfg : Completion)
    (whole : Bool) (writtenAt now : String) (u : Update) (safe : u.Safe cfg whole d) :
    d.UpsertsTheSame rt cfg whole writtenAt now u := by
  intro stored hstored base
  dsimp only
  unfold Update.Safe at safe
  split_ifs at safe with completed
  · rw [Update.taken_completed completed safe]
  obtain ⟨noHttp, rfl, table, inPlace, leaves⟩ := safe
  rw [Update.taken_partial (by simpa using completed) noHttp]
  have alike : Option.Rel (fun mp mn => identityOf d.target mp = identityOf d.target mn ∧
      ∀ k, Carries mp.row mn.row stored.row k)
      (d.mapOne rt now (partialRow u.unsent u.new)) (d.mapOne rt now u.new) :=
    Delivery.mapOne_alongside leaves table u.alongside hstored
  generalize d.mapOne rt now (partialRow u.unsent u.new) = mp at alike ⊢
  generalize d.mapOne rt now u.new = mn at alike ⊢
  cases alike with
  | none => rfl
  | some here =>
    obtain ⟨identity, carries⟩ := here
    simp only [Option.map_some, Update.before, inPlace, identity, Bool.false_eq_true, if_false]
    rw [upsertOver_carries carries]

/-! ## A `set` over what was not sent -/

namespace SetOverUnsent

open ComputedKey (runtime bridge)

/-- A row of three columns. -/
def row (body a : String) : Row := fun c =>
  if c = "id" then some (.string "7")
  else if c = "body" then some (.string body)
  else if c = "a" then some (.string a)
  else none

/-- `a` changes, and `body` is not sent. -/
def update : Update where
  old := row "large" "1"
  new := row "large" "2"
  unsent c := c = "body"
  keyChanged := false
  current := some (row "large" "2")
  same c h := by
    obtain rfl := of_decide_eq_true h
    exact ⟨rfl, rfl⟩
  full c := by
    unfold row
    split_ifs <;> simp

/-- A table destination of a source without filters. -/
def completion : Completion where
  http := false
  filterColumns := []
  wholeValueTarget := false
  primaryKey := ["id"]

def copies : Delivery := bridge (.set "body" "{{a}}")

/-- `body` is a copy of `a`, and the update leaves it at what `a` was. -/
theorem not_upsertsTheSame :
    ¬ ∀ (rt : RedisRuntime) (d : Delivery) (cfg : Completion) (whole : Bool)
      (writtenAt now : String) (u : Update), d.UpsertsTheSame rt cfg whole writtenAt now u := by
  intro h
  have body : ∀ row : Row, ∀ value, (copies.mapOne runtime "" row).map (·.row "body") = some value →
      ∃ m, copies.mapOne runtime "" row = some m ∧ m.row "body" = value := by
    intro row value hrow
    exact Option.map_eq_some_iff.mp hrow
  obtain ⟨stored, hstored, old⟩ := body update.old (some (.string "1")) (by decide +kernel)
  obtain ⟨part, hpart, left⟩ := body (update.taken completion copies.transforms) none
    (by decide +kernel)
  obtain ⟨new, hnew, computed⟩ := body update.new (some (.string "2")) (by decide +kernel)
  have same := h runtime copies completion false "" "" update stored hstored fun _ => none
  rw [hpart, hnew] at same
  have here := congrFun (Prod.mk.inj (Option.some.inj same)).2 "body"
  simp [Update.before, update, upsertOver, old, left, computed] at here

/-- Where the step is on another column, the row comes out whole. -/
theorem upsertsTheSame_upper :
    (bridge (.text "a" .upper)).UpsertsTheSame runtime completion false "" "" update := by
  refine Delivery.upsertsTheSame_of_safe runtime _ completion false "" "" update ?_
  have left : update.completed completion [.text "a" .upper] = false := by decide +kernel
  rw [Update.Safe, if_neg (by rw [bridge, left]; decide)]
  refine ⟨rfl, rfl, rfl, rfl, ?_, ?_, ?_, ?_⟩
  · intro t ht invents
    obtain rfl : t = .text "a" .upper := by simpa [bridge] using ht
    cases invents
  · intro column template ht
    simp [bridge] at ht
  · intro m hm
    cases hm
  · intro c hc
    obtain rfl : c = "id" := by
      simpa [DatabaseTarget.keyedOn, DatabaseTarget.keyNames, bridge, ComputedKey.target,
        sourcesOf] using hc
    rfl

end SetOverUnsent

end Syncle.Shape
