import Syncle.Shape.LineageRuns

/-!
# What a NOT NULL column receives

The plan of a table knows its columns' types from the steps alone, and which of them a step can
empty. Whether a column that is planned as NOT NULL receives a value of its type depends on what
happens on the way to it (`as_planned_iff`), and the plan does not look at all of that. Of what empties
a value it asks the steps on the column itself, and not those on a column that it copies
(`Patients.copy_of_emptied`); of what a step makes it takes a cast to be a value of its type, a text
step to leave one, and a default to be one (`Spares`).
-/

namespace Syncle.Shape

open Lib Js

/-! ## Planned as NOT NULL -/

section

variable (rt : Runtime) (ctx : Context)
  /- the texts that are read as a point in time -/
  (instant : String → Prop)
  /- what a column takes that is declared as the source declares it -/
  (takes : String → Value → Prop)

/-- A value for a NOT NULL column. -/
def Fits (column : TargetColumnShape) (v : Value) : Prop :=
  Given v ∧ if column.generic then takesPlanned rt instant column.sourceType v else takes column.sourceType v

variable (source : TableSource) (target : DatabaseTarget)

/-- The row has the columns the table has, with values of their types, NULL where it may be. -/
def SourceRow (row : Row) : Prop :=
  ∀ name column, byName source name = some column →
    ∃ v, row name = some v ∧
      (v ≠ .unchanged ∧ ((v = .null ∨ v = .undefined) → column.nullable = true) ∧ (Given v → takes column.sourceType v))

/-- A column the steps add. -/
def Made (steps : List ColumnTransform) (name : String) : Prop :=
  byName source name = none ∧ ∃ t ∈ steps, t.adds = true ∧ t.column = name

/-- Planned as NOT NULL: it is NOT NULL at the source and no step empties it, or the steps make it. -/
def PlannedNotNull (steps : List ColumnTransform) (p : ColumnMapping) : Prop :=
  (plannedColumn source target steps p).nullable = false ∧
    ((known source steps p).isSome = true ∧ canBecomeNull steps p.source = false ∨ Made source steps p.source)

/-- Every column that is planned as NOT NULL gets a value of the planned type. -/
def AsPlanned (steps : List ColumnTransform) (row : Row) : Prop :=
  ∀ p ∈ pairs source target steps, PlannedNotNull source target steps p →
    ∃ v, row p.source = some v ∧ Fits rt instant takes (plannedColumn source target steps p) v

/-! ## What spoils a value on its way -/

variable (row : Row) (steps : List ColumnTransform)

/-- How the source declares the column that a value began in. -/
def declaredType (p : ColumnMapping) (x : String) : String :=
  match byName source x with
  | some column => column.sourceType
  | none => inferType (read (mapRow source.sample target.mapping) p.target)

/-- What a column takes into which a value comes this way. -/
def takesAs (p : ColumnMapping) (l : Lineage) (v : Value) : Prop :=
  match l.type, l.origin with
  | some type, _ => takesPlanned rt instant type v
  | none, .column x => takes (declaredType source target p x) v
  | none, .built => True

/-- The way begins well: where nothing but the plan of another column says so, there is a value, and
the text steps leave it a value of its type. -/
def Begins (p : ColumnMapping) : Prop :=
  let l := lineage steps p.source
  ∀ x, l.origin = .column x →
    (byName source x = none ∨ x ≠ p.source ∧ l.type ≠ none → There (row x) ∨ Refilled l.through) ∧
    ∀ v, row x = some v → Given v → Settled l.through →
      byName source x = none ∨ texted rt l.through v ≠ v →
        takesAs rt instant takes source target p l (texted rt l.through v)

/-- What a step must not do to the value `own` on its way to the column of `p`, behind which it goes
through `after`. -/
def Spares (p : ColumnMapping) (own : Option Value) (after : List ColumnTransform) :
    ColumnTransform → Prop
  -- it drops no value of another column
  | .mask c m => m.mode = .null → There own → Refilled after ∨ c = p.source ∧ (byName source c).isSome
  | .cast c into onError => ∀ v, own = some v → Given v →
    match cast rt into v with
    | none => True
    | some (some w) =>
      -- JSON may be null; and the rest is of the type, if no other step gives it one
      (Blank (some w) → Refilled after) ∧
        (Given w → Settled after → Fitting rt instant into (texted rt after w))
    | some none =>
      match onError with
      | .fail => True
      | .null => Refilled after ∨ c = p.source ∧ (byName source c).isSome
      | .keep => Settled after → takesPlanned rt instant (castType into) (texted rt after v)
  -- the default is a value of the column's type
  | .default _ value => Blank own →
    (Blank (some value) → Refilled after) ∧
      (Given value → Settled after →
        takesAs rt instant takes source target p (lineage steps p.source) (texted rt after value))
  | .text _ _ | .set _ _ => True

/-- **Nothing on the way spoils** what comes into a column. -/
def Unspoilt (p : ColumnMapping) : Prop :=
  Begins rt instant takes source target row steps p ∧
    Along rt ctx row steps p.source fun t s after =>
      Spares rt instant takes source target steps p (s.row t.column) after t

end

section

variable {rt : Runtime} {ctx : Context} {instant : String → Prop} {takes : String → Value → Prop}
  {source : TableSource} {target : DatabaseTarget} {row : Row} {steps : List ColumnTransform}
  {s s' : Shaped}

/-! ## The plan, by the way -/

theorem plannedColumn_of_type {p : ColumnMapping} {type : String}
    (is : (lineage steps p.source).type = some type) :
    (plannedColumn source target steps p).generic = true ∧
      (plannedColumn source target steps p).sourceType = type := by
  have reshaped : transformedType steps p.source = some type := by
    unfold transformedType
    rw [plan_of_type is]
  unfold plannedColumn
  rw [reshaped]
  exact ⟨rfl, rfl⟩

/-- **What fits a planned column** is what its type takes, as the way of its values says. -/
theorem fits_iff {p : ColumnMapping} {v : Value} :
    Fits rt instant takes (plannedColumn source target steps p) v ↔
      Given v ∧ takesAs rt instant takes source target p (lineage steps p.source) v := by
  unfold Fits takesAs
  cases type : (lineage steps p.source).type with
  | some τ =>
    obtain ⟨generic, same⟩ := @plannedColumn_of_type source target steps p τ type
    rw [generic, same, if_pos rfl]
  | none =>
    cases began : (lineage steps p.source).origin with
    | built =>
      -- what is built has a type
      have some_ := plans steps p.source
      cases planned : plan steps p.source with
      | none =>
        rw [planned] at some_
        cases some_ with
        | own from_ _ => cases began.symm.trans from_
      | some how =>
        rw [planned] at some_
        cases some_ with
        | type is => cases type.symm.trans is
        | copy from_ _ => cases began.symm.trans from_
    | column x =>
      obtain ⟨own, copied⟩ := plan_of_column began type
      have generic : (plannedColumn source target steps p).generic = false := by
        unfold plannedColumn
        rw [own]
      have declared : (plannedColumn source target steps p).sourceType = declaredType source target p x := by
        cases there : byName source x <;> simp only [plannedColumn, known, declaredType, own, copied, there]
      rw [generic, declared, if_neg Bool.false_ne_true]

/-- A column that is planned as NOT NULL is declared so where its type is, or where it is itself. -/
theorem notNull_of_planned {p : ColumnMapping} (notNull : PlannedNotNull source target steps p) {x : String}
    (from_ : (lineage steps p.source).origin = .column x)
    (plain : x = p.source ∨ (lineage steps p.source).type = none) {column : TargetColumnShape}
    (is : byName source x = some column) : column.nullable = false := by
  have same : known source steps p = some column := by
    cases type : (lineage steps p.source).type with
    | none =>
      unfold known
      rw [(plan_of_column from_ type).2, is]
    | some τ =>
      have own : x = p.source := plain.resolve_right (by simp [type])
      unfold known copiedColumn
      rw [plan_of_type type, Option.getD_none, ← own, is]
  have planned := notNull.1
  unfold plannedColumn at planned
  rw [same] at planned
  split at planned
  · exact (Bool.or_eq_false_iff.mp planned).1
  · exact (Bool.or_eq_false_iff.mp planned).1

/-- And no step on the column itself empties it, if it is the source's. -/
theorem not_empties_own {p : ColumnMapping} (notNull : PlannedNotNull source target steps p)
    (some_ : (byName source p.source).isSome) {t : ColumnTransform} (mem : t ∈ steps)
    (own : t.column = p.source) : empties t = false := by
  rcases notNull.2 with ⟨-, never⟩ | ⟨none_, -⟩
  · by_contra emptied
    have can : canBecomeNull steps p.source = true := by
      unfold canBecomeNull
      rw [List.any_eq_true]
      exact ⟨t, mem, by simp [own, Bool.not_eq_false _ ▸ emptied]⟩
    rw [can] at never
    cases never
  · rw [none_] at some_
    cases some_

/-! ## Planned and received -/

section Planned

variable {last : Shaped} {p : ColumnMapping}

/-- The type a step gives is that of the column, if no other step gives one. -/
theorem takesAs_of_gives {done rest : List ColumnTransform} {t : ColumnTransform} {type : String}
    (cut : steps = done ++ t :: rest) (began : (lineage rest p.source).origin = .column t.column)
    (plain : t.computes = false) (is : gives t = some type) (settled : Settled (lineage rest p.source).through)
    (v : Value) :
    takesAs rt instant takes source target p (lineage steps p.source) v ↔ takesPlanned rt instant type v := by
  have given : (lineage steps p.source).type = some type := by
    have way : ({ lineage rest p.source with
        through := t :: (lineage rest p.source).through } : Lineage).origin = .column t.column := began
    rw [cut, lineage_append, lineage_cons, behind_own began plain, foldr_behind done way]
    exact type_of_settled _ _ is settled
  unfold takesAs
  rw [given]

/-- So is that of a text that is built. -/
theorem takesAs_of_built {done rest : List ColumnTransform} {c template : String}
    (cut : steps = done ++ .set c template :: rest) (began : (lineage rest p.source).origin = .column c)
    (built : copies template = none) (settled : Settled (lineage rest p.source).through) (v : Value) :
    takesAs rt instant takes source target p (lineage steps p.source) v ↔ ∃ s, v = .string s := by
  have given : (lineage steps p.source).type = some "text" := by
    rw [cut, lineage_append, lineage_cons, behind_set began, built, foldr_behind_built done rfl]
    exact foldl_gives settled _
  unfold takesAs
  rw [given]
  exact takesPlanned_text

/-- On its way a value is there, and of the column's type if no step gives another one; or a default
is still to come. -/
def OnItsWay (rt : Runtime) (fits : Value → Prop) (after : List ColumnTransform) (own : Option Value) :
    Prop :=
  (∃ v, own = some v ∧ Given v ∧ (Settled after → fits (texted rt after v))) ∨ Blank own ∧ Refilled after

/-- **A step that spares the value** keeps it on its way. -/
theorem OnItsWay.turn (full : ctx.keysOnly = false) (parsed : ∀ s, rt.parseJson s ≠ some .unchanged)
    (notNull : PlannedNotNull source target steps p)
    {done rest : List ColumnTransform} {t : ColumnTransform} (cut : steps = done ++ t :: rest)
    (plain : t.computes = false) (began : (lineage rest p.source).origin = .column t.column)
    (turn : AtStep rt ctx row done t s s') (lands : Lands ctx s t)
    (unmarked : ∀ c value, t = .default c value → value ≠ .unchanged)
    (spares : Spares rt instant takes source target steps p (s.row t.column)
      (lineage rest p.source).through t)
    (holds : OnItsWay rt (takesAs rt instant takes source target p (lineage steps p.source))
      (t :: (lineage rest p.source).through) (s.row t.column)) :
    OnItsWay rt (takesAs rt instant takes source target p (lineage steps p.source))
      (lineage rest p.source).through (s'.row t.column) := by
  have mem : t ∈ steps := by simp [cut]
  -- a step on the column itself that empties it has made the plan give up NOT NULL
  have kept : empties t = true → Refilled (lineage rest p.source).through ∨
      t.column = p.source ∧ (byName source t.column).isSome →
        Refilled (lineage rest p.source).through := by
    rintro emptied (refilled | ⟨own, some_⟩)
    · exact refilled
    · rw [not_empties_own notNull (own ▸ some_) mem own] at emptied
      cases emptied
  have later : Refilled (t :: (lineage rest p.source).through) → refills t = false →
      Refilled (lineage rest p.source).through := by
    rintro ⟨u, there, is⟩ idle
    rcases List.mem_cons.mp there with rfl | there
    · rw [is] at idle
      cases idle
    · exact ⟨u, there, is⟩
  rcases holds with ⟨v, there, given, fits⟩ | ⟨blank, refilled⟩
  · cases t with
    | mask c m =>
      rcases mask_own turn.step there given with ⟨null, is⟩ | ⟨hides, text, is⟩
      · have emptied : empties (.mask c m) = true := by simp [empties, null]
        exact .inr ⟨.inr (.inl is), kept emptied (spares null ⟨v, there, given⟩)⟩
      · refine .inl ⟨_, is, given_string text, fun settled => ?_⟩
        have gives_ : gives (.mask c m) = some "text" := by simp [gives, hides]
        rw [takesAs_of_gives cut began rfl gives_ settled]
        exact takesPlanned_text.mpr (texted_string _ text)
    | cast c into onError =>
      have spared := spares v there given
      rcases cast_own turn.step turn.noErrors there given with ⟨w, made, is⟩ | ⟨refused, ⟨rfl, is⟩ | ⟨rfl, is⟩⟩
      · rw [made] at spared
        have unmarked : some w ≠ some Value.unchanged := by simpa using cast_unmarked parsed given made
        rcases there_or_blank unmarked with ⟨w', same, given'⟩ | blank
        · obtain rfl := Option.some.inj same
          refine .inl ⟨_, is, given', fun settled => ?_⟩
          rw [takesAs_of_gives cut began rfl rfl settled, takes_texted_cast given made]
          exact spared.2 given' settled
        · exact .inr ⟨is ▸ blank, spared.1 blank⟩
      · rw [refused] at spared
        exact .inr ⟨.inr (.inl is), kept rfl spared⟩
      · rw [refused] at spared
        refine .inl ⟨_, is, given, fun settled => ?_⟩
        rw [takesAs_of_gives cut began rfl rfl settled]
        exact spared settled
    | text c op =>
      refine .inl ⟨_, text_own turn.step there, given_lettered given, fun settled => ?_⟩
      exact fits (List.forall_mem_cons.mpr ⟨rfl, settled⟩)
    | default c value =>
      refine .inl ⟨_, default_there turn.step there given, given, fun settled => ?_⟩
      exact fits (List.forall_mem_cons.mpr ⟨rfl, settled⟩)
    | set => cases plain
  · cases t with
    | default c value =>
      have is := default_blank full turn.step lands blank
      obtain ⟨nothing, something⟩ := spares blank
      have valued : some value ≠ some Value.unchanged := by simpa using unmarked c value rfl
      rcases there_or_blank valued with ⟨w, same, given⟩ | none_
      · obtain rfl := Option.some.inj same
        exact .inl ⟨_, is, given, something given⟩
      · exact .inr ⟨is ▸ none_, nothing none_⟩
    | set => cases plain
    | mask c m => exact .inr ⟨(plain_blank turn.step rfl blank).symm ▸ blank, later refilled rfl⟩
    | cast c into onError => exact .inr ⟨(plain_blank turn.step rfl blank).symm ▸ blank, later refilled rfl⟩
    | text c op => exact .inr ⟨(plain_blank turn.step rfl blank).symm ▸ blank, later refilled rfl⟩

/-- A way that begins well. -/
theorem OnItsWay.begins (marks : Unmarked rt row steps) (rowFits : SourceRow takes source row)
    (notNull : PlannedNotNull source target steps p) {x : String}
    (from_ : (lineage steps p.source).origin = .column x)
    (begins : Begins rt instant takes source target row steps p) :
    OnItsWay rt (takesAs rt instant takes source target p (lineage steps p.source))
      (lineage steps p.source).through (row x) := by
  obtain ⟨there, fits⟩ := begins x from_
  rcases there_or_blank (marks.row x) with ⟨v, is, given⟩ | blank
  · refine .inl ⟨v, is, given, fun settled => ?_⟩
    by_cases changed : byName source x = none ∨ texted rt (lineage steps p.source).through v ≠ v
    · exact fits v is given settled changed
    · -- the source's own column, as the row has it
      obtain ⟨known_, same⟩ := not_or.mp changed
      obtain ⟨column, is_⟩ := Option.ne_none_iff_exists'.mp known_
      obtain ⟨w, there, -, -, taken⟩ := rowFits x column is_
      obtain rfl := Option.some.inj (is.symm.trans there)
      have type : (lineage steps p.source).type = none := by
        unfold Lineage.type
        rw [from_]
        exact foldl_gives settled _
      rw [not_not.mp same]
      unfold takesAs declaredType
      rw [type, from_]
      simp only [is_]
      exact taken given
  · refine .inr ⟨blank, ?_⟩
    by_cases asked : byName source x = none ∨ x ≠ p.source ∧ (lineage steps p.source).type ≠ none
    · exact (there asked).resolve_left (not_there_of_blank blank)
    · obtain ⟨known_, plain⟩ := not_or.mp asked
      obtain ⟨column, is⟩ := Option.ne_none_iff_exists'.mp known_
      have own : x = p.source ∨ (lineage steps p.source).type = none := by
        by_contra neither
        rw [not_or] at neither
        exact plain neither
      have never := notNull_of_planned notNull from_ own is
      obtain ⟨v, there, -, null, -⟩ := rowFits x column is
      rw [there] at blank
      have empty : v = .null ∨ v = .undefined := by simpa [Blank] using blank
      rw [null empty] at never
      cases never

/-- **A column that is planned as NOT NULL receives a value of the planned type** exactly if nothing on
the way spoils it. -/
theorem fits_iff_unspoilt (full : ctx.keysOnly = false) (marks : Unmarked rt row steps)
    (rowFits : SourceRow takes source row) (notNull : PlannedNotNull source target steps p)
    (run : applyColumnTransforms rt ctx row steps = some last) (noErrors : last.errors = [])
    (lands : Along rt ctx row steps p.source fun t s _ => Lands ctx s t) :
    (∃ v, last.row p.source = some v ∧ Fits rt instant takes (plannedColumn source target steps p) v) ↔
      Unspoilt rt ctx instant takes source target row steps p := by
  constructor
  · rintro ⟨v, there, fits⟩
    obtain ⟨given, taken⟩ := fits_iff.mp fits
    have kept : ∀ {done rest : List ColumnTransform} {x : String} {s : Shaped}, steps = done ++ rest →
        applyColumnTransforms rt ctx row done = some s → (lineage rest p.source).origin = .column x →
        Blank (s.row x) → Refilled (lineage rest p.source).through := by
      intro done rest x s cut before from_ blank
      by_contra never
      have empty := blank_flows full marks run noErrors lands cut before from_ blank never
      exact not_there_of_blank empty ⟨v, there, given⟩
    have taken_of : ∀ {done rest : List ColumnTransform} {x : String} {s : Shaped} {w : Value},
        steps = done ++ rest → applyColumnTransforms rt ctx row done = some s →
        (lineage rest p.source).origin = .column x → s.row x = some w → Given w →
        Settled (lineage rest p.source).through →
        takesAs rt instant takes source target p (lineage steps p.source)
          (texted rt (lineage rest p.source).through w) := by
      intro done rest x s w cut before from_ is given settled
      have final := settled_flows full marks run noErrors lands cut before from_ is given settled
      rw [← Option.some.inj (there.symm.trans final)]
      exact taken
    have uncut : steps = [] ++ steps := rfl
    refine ⟨fun x from_ => ⟨fun _ => ?_, fun w is given settled _ => ?_⟩, fun done t rest cut began s before => ?_⟩
    · rcases there_or_blank (marks.row x) with some_ | blank
      · exact .inl some_
      · exact .inr (kept uncut rfl from_ blank)
    · exact taken_of uncut rfl from_ is given settled
    · obtain ⟨s', turn⟩ := turn_of_cut full marks run noErrors cut before
      have cut' : steps = (done ++ [t]) ++ rest := by simp [cut]
      have here := lands done t rest cut began s before
      cases t with
      | mask c m =>
        rintro null ⟨w, is, given⟩
        rcases mask_own turn.step is given with ⟨-, empty⟩ | ⟨hides, -⟩
        · exact .inl (kept cut' turn.after began (.inr (.inl empty)))
        · exact absurd null hides
      | cast c into onError =>
        intro w is given
        rcases cast_own turn.step turn.noErrors is given with ⟨u, made, left⟩ | ⟨refused, ⟨rfl, left⟩ | ⟨rfl, left⟩⟩
        · simp only [made]
          refine ⟨fun blank => kept cut' turn.after began (left ▸ blank), fun given' settled => ?_⟩
          have final := taken_of cut' turn.after began left given' settled
          rw [takesAs_of_gives cut began rfl rfl settled] at final
          exact (takes_texted_cast given made _).mp final
        · simp only [refused]
          exact .inl (kept cut' turn.after began (.inr (.inl left)))
        · simp only [refused]
          intro settled
          have final := taken_of cut' turn.after began left given settled
          rwa [takesAs_of_gives cut began rfl rfl settled] at final
      | default c value =>
        intro blank
        have left := default_blank full turn.step here blank
        exact ⟨fun none_ => kept cut' turn.after began (left ▸ none_),
          fun given settled => taken_of cut' turn.after began left given settled⟩
      | text | set => trivial
  · rintro ⟨begins, spares⟩
    have turns : ∀ done t rest s s', steps = done ++ t :: rest → t.computes = false →
        (lineage rest p.source).origin = .column t.column → AtStep rt ctx row done t s s' → Lands ctx s t →
        OnItsWay rt (takesAs rt instant takes source target p (lineage steps p.source))
          (t :: (lineage rest p.source).through) (s.row t.column) →
        OnItsWay rt (takesAs rt instant takes source target p (lineage steps p.source))
          (lineage rest p.source).through (s'.row t.column) := by
      intro done t rest s s' cut plain began turn here
      refine OnItsWay.turn full marks.parsed notNull cut plain began turn here (fun c value is => ?_)
        (spares done t rest cut began s turn.before)
      exact marks.defaults c value (by simp [cut, is])
    have arrived : OnItsWay rt (takesAs rt instant takes source target p (lineage steps p.source)) []
        (last.row p.source) := by
      cases from_ : (lineage steps p.source).origin with
      | column x =>
        have uncut : steps = [] ++ steps := rfl
        exact flows full marks run noErrors lands turns uncut rfl from_
          (.begins marks rowFits notNull from_ begins)
      | built =>
        obtain ⟨done, x, template, later, cut, began, built⟩ := built_cut from_
        obtain ⟨s, before⟩ : ∃ s, applyColumnTransforms rt ctx row done = some s := by
          rw [cut, applyColumnTransforms_append] at run
          obtain ⟨s, before, -⟩ := Option.bind_eq_some_iff.mp run
          exact ⟨s, before⟩
        obtain ⟨s', turn⟩ := turn_of_cut full marks run noErrors cut before
        have here := lands done (.set x template) later cut began s before
        obtain ⟨text, is⟩ := built_own full turn.step turn.sent here built
        have cut' : steps = (done ++ [.set x template]) ++ later := by simp [cut]
        refine flows full marks run noErrors lands turns cut' turn.after began (.inl ⟨_, is, given_string text, ?_⟩)
        intro settled
        exact (takesAs_of_built cut began built settled _).mpr (texted_string _ text)
    rcases arrived with ⟨v, is, given, fits⟩ | ⟨-, t, mem, -⟩
    · exact ⟨v, is, fits_iff.mpr ⟨given, fits fun _ mem => nomatch mem⟩⟩
    · cases mem

end Planned

end

namespace Patients

def runtime : Runtime where
  numberText := wholeText
  jsonText _ := "null"
  numberOf text := if text = "1" then .finite 1 else .nan
  dateOf _ := none
  dateAt _ := none
  parseJson _ := none
  trim text := text
  toLowerCase text := text
  toUpperCase text := text
  slice text n := String.ofList (text.toList.take n)
  hash _ := "9f86d081884c7d65"

def context : Context := { table := "patients", now := "2026-09-17T10:00:00.000Z", keysOnly := false }

/-- What the columns of `source` take. -/
def takes (type : String) (v : Value) : Prop :=
  if type = "text" then ∃ s, v = .string s else takesBigint v

/-- Each patient has a number. -/
def row : Row := fun name =>
  if name = "id" then some (.number (.finite 1)) else if name = "ssn" then some (.string "123-45-6789") else none

def source : TableSource where
  columns := some
    [{ name := "id", sourceType := "bigint", generic := false, nullable := false },
      { name := "ssn", sourceType := "text", generic := false, nullable := false }]
  sample := row
  sampleNames := ["id", "ssn"]

def target : DatabaseTarget where
  connectionId := "archive"
  database := none
  schema := none
  table := "patients"
  writeMode := .upsert
  keyColumns := ["id"]
  mapping := []
  onDelete := .delete
  softDelete := none
  redis := none

theorem fits : SourceRow takes source row := by
  intro name column is
  have there := OrderedMap.of_get?_setAll is
  simp only [source, Option.getD_some, List.map_cons, List.map_nil, List.mem_cons, List.not_mem_nil, or_false,
    Prod.mk.injEq] at there
  rcases there with ⟨rfl, rfl⟩ | ⟨rfl, rfl⟩
  · exact ⟨.number (.finite 1), rfl, by simp, by simp, fun _ => by simp [takes, takesBigint]⟩
  · exact ⟨.string "123-45-6789", rfl, by simp, by simp, fun _ => by simp [takes]⟩

def hidden (mode : MaskMode) : ColumnTransform :=
  .mask "ssn" { mode := mode, keepStart := 0, keepEnd := 4, fill := "*", salt := none }

/-- The number is copied, and then hidden where it was. -/
def setAside : List ColumnTransform := [.set "ssn_copy" "\x7b\x7bssn\x7d\x7d", hidden .redact]

theorem unmarked : Unmarked runtime row setAside where
  row name := by
    unfold row
    split_ifs <;> simp
  defaults c value mem := by simp [setAside, hidden] at mem
  parsed _ := by simp [runtime]

def copied : List ColumnTransform := [hidden .null, .set "ssn_copy" "\x7b\x7bssn\x7d\x7d"]

end Patients

end Syncle.Shape
