import Syncle.Shape.Delivery

/-!
# A masked column (`column-transforms.ts`, `row-shaping.ts`, `bridge-sink.service.ts`)

Two rows that differ in one column only, which is masked before anything is copied from it, are the same
row once it is. What is left to tell them apart is what is said before: a cast that cannot be done
quotes the value, a value without a text makes a step throw, and a cast to JSON can make of a text the
NULL that `redact` leaves alone. Where none of these happens, the two deliveries are the same
(`deliver_same_of_quiet`).
-/

namespace Syncle.Shape

open Js Lib

/-! ## `deliver` -/

/-- The text of `failedBeforeSending`. -/
def failedBeforeSending (errors : List String) : String :=
  "Column transform failed — " ++ String.intercalate "; " (errors.take 5) ++
    (if 5 < errors.length then "; and " ++ toString (errors.length - 5) ++ " more" else "") ++
    ". Fix the source value, or set the cast's \"on error\" to null or keep."

/-- What is delivered, recorded and said. `sent` is what the destination got and what it came to, with
the body that is recorded of it. -/
inductive Delivered (O : Type*) where
  | notSent (error : String) (warnings : List String)
  | sent (outcome : O) (warnings : List String)
  deriving DecidableEq

/-- A bridge's steps, and where its rows go: `sink` renders or maps the shaped rows, hands them over and
says what came of it. -/
structure ShapingBridge (O : Type*) where
  table : String
  columns : List ColumnTransform
  sink : Op → List Row → O × List String

/-- `BridgeSinkService.deliver`; none where the steps throw. -/
def ShapingBridge.deliver {O : Type*} (b : ShapingBridge O) (rt : Runtime) (now : String) (op : Op)
    (rows : List Row) : Option (Delivered O) :=
  (shapeRows rt b.columns b.table now op rows).map fun shaped =>
    if shaped.errors ≠ [] then .notSent (failedBeforeSending shaped.errors) shaped.warnings
    else
      let (outcome, warnings) := b.sink op shaped.rows
      .sent outcome (shaped.warnings ++ warnings)

/-! ## What a step does -/

/-- What a step makes of a row: its column's value, and what it has to say. -/
structure Effect where
  value : Option Value := none
  warnings : List String := []
  errors : List String := []

def Effect.on (e : Effect) (s : Shaped) (column : String) : Shaped where
  row := match e.value with
    | some v => assign s.row column v
    | none => s.row
  warnings := s.warnings ++ e.warnings
  errors := s.errors ++ e.errors

def castEffect (rt : Runtime) (column : String) (into : CastTo) (onError : CastError) (v : Value) :
    Option Effect :=
  (cast rt into v).bind fun
    | some w => some { value := some w }
    | none =>
      (castProblem rt column into v).map fun problem =>
        match onError with
        | .fail => { errors := [problem] }
        | .null => { value := some .null, warnings := [problem ++ "; written as NULL"] }
        | .keep => { warnings := [problem ++ "; left as it was"] }

def textEffect (rt : Runtime) (op : TextOp) : Option Value → Effect
  | some (.string v) => { value := some (.string (applyText rt op v)) }
  | _ => {}

/-- It has nothing to say. -/
theorem textEffect_quiet (rt : Runtime) (op : TextOp) (own : Option Value) :
    (textEffect rt op own).warnings = [] ∧ (textEffect rt op own).errors = [] := by
  unfold textEffect
  split <;> exact ⟨rfl, rfl⟩

/-- The effect of a step whose column holds `own`; `made` is what a computed column is. -/
def effectOf (rt : Runtime) (ctx : Context) (own : Option Value) (made : Option (Value × List String))
    (t : ColumnTransform) : Option Effect :=
  if own = some .unchanged then some {}
  else
    match t with
    | .mask _ m => own.elim (some {}) fun v => (mask rt m v).map fun w => { value := some w }
    | .text _ op => some (textEffect rt op own)
    | .cast column into onError => own.elim (some {}) (castEffect rt column into onError)
    | .default _ value =>
      if ctx.keysOnly = false ∧ (own = none ∨ own = some .null ∨ own = some .undefined) then
        some { value := some value }
      else some {}
    | .set column _ =>
      if ctx.keysOnly || forbidden.contains column then some {}
      else
        made.map fun r =>
          { value := some r.1
            warnings := r.2.map fun name => "set " ++ column ++ ": no column \"" ++ name ++ "\"" }

/-- What a computed column is made of in a row. -/
def madeOf (rt : Runtime) (ctx : Context) (row : Row) : ColumnTransform → Option (Value × List String)
  | .set _ template => computed rt ctx row template
  | _ => none

section Effect

variable {rt : Runtime} {ctx : Context} {s : Shaped}

@[simp] theorem Effect.on_idle (column : String) : Effect.on {} s column = s := by
  simp [Effect.on]

theorem effectOf_unsent {own : Option Value} {made : Option (Value × List String)} {t : ColumnTransform}
    (h : own = some .unchanged) : effectOf rt ctx own made t = some {} := by
  unfold effectOf
  rw [if_pos h]

theorem applyCast_eq (column : String) (into : CastTo) (onError : CastError) (v : Value) :
    applyCast rt s column into onError v =
      (castEffect rt column into onError v).map (·.on s column) := by
  unfold applyCast castEffect
  cases cast rt into v with
  | none => rfl
  | some result =>
    cases result with
    | some w => simp [Effect.on]
    | none =>
      cases castProblem rt column into v with
      | none => rfl
      | some problem => cases onError <;> simp [Effect.on]

/-- A step is its effect, on the row it runs on. -/
theorem applyTransform_eq (t : ColumnTransform) :
    applyTransform rt ctx s t =
      (effectOf rt ctx (s.row t.column) (madeOf rt ctx s.row t) t).map (·.on s t.column) := by
  by_cases unsent : s.row t.column = some .unchanged
  · rw [applyTransform_unsent unsent, effectOf_unsent unsent]
    simp
  unfold effectOf
  rw [if_neg unsent]
  cases t with
  | mask column m =>
    cases own : s.row column with
    | none => simp [applyTransform_missing (t := .mask column m) own (.inl rfl), ColumnTransform.column, own]
    | some v =>
      have sent : v ≠ .unchanged := fun is => unsent (own.trans (congrArg some is))
      rw [applyTransform_mask m own sent]
      simp only [ColumnTransform.column, own, Option.elim_some, Option.map_map]
      simp [Function.comp_def, Effect.on]
  | cast column into onError =>
    cases own : s.row column with
    | none =>
      simp [applyTransform_missing (t := .cast column into onError) own (.inl rfl),
        ColumnTransform.column, own]
    | some v =>
      have sent : v ≠ .unchanged := fun is => unsent (own.trans (congrArg some is))
      rw [applyTransform_cast into onError own sent, applyCast_eq]
      simp only [ColumnTransform.column, own, Option.elim_some]
  | text column op =>
    cases own : s.row column with
    | none =>
      simp [applyTransform_missing (t := .text column op) own (.inl rfl), ColumnTransform.column, own,
        textEffect]
    | some v =>
      by_cases string : ∃ text, v = .string text
      · obtain ⟨text, rfl⟩ := string
        rw [applyTransform_text op own]
        simp [ColumnTransform.column, own, textEffect, Effect.on]
      · rw [applyTransform_text_other op own (not_exists.mp string)]
        cases v <;> simp_all [ColumnTransform.column, textEffect]
  | default column value =>
    by_cases blank : s.row column = none ∨ s.row column = some .null ∨ s.row column = some .undefined
    · rw [applyTransform_default_blank value blank]
      simp only [ColumnTransform.column, blank, and_true]
      cases ctx.keysOnly <;> simp [Effect.on]
    · obtain ⟨v, own⟩ : ∃ v, s.row column = some v := by
        cases own : s.row column with
        | none => exact absurd (.inl own) blank
        | some v => exact ⟨v, rfl⟩
      have given : v ≠ .null ∧ v ≠ .undefined := by
        simp only [own, reduceCtorEq, Option.some.injEq, false_or, not_or] at blank
        exact blank
      rw [applyTransform_default value own given]
      simp only [ColumnTransform.column, blank, and_false, if_false, Option.map_some, Effect.on_idle]
  | set column template =>
    have sent : s.row column ≠ some .unchanged := unsent
    rw [applyTransform_set template sent]
    simp only [ColumnTransform.column, madeOf]
    split
    · simp
    · simp [Option.map_map, Function.comp_def, Effect.on]

end Effect

/-! ## The statement -/

/-- The steps mask `c` by `redact` or `null`, and before that copy it to no other column. -/
structure MaskedFirst (c : String) (columns before : List ColumnTransform) (m : Mask)
    (after : List ColumnTransform) : Prop where
  steps : columns = before ++ .mask c m :: after
  mode : m.mode = .redact ∨ m.mode = .null
  uncopied : ∀ column template, .set column template ∈ before → column ≠ c → c ∉ tokens template

/-- Two rows that differ in values of `c` only. -/
structure DifferIn (c : String) (row row' : Row) : Prop where
  others : ∀ x, x ≠ c → row x = row' x
  value : ∃ v, row c = some v ∧ v ≠ .null ∧ v ≠ .undefined ∧ v ≠ .unchanged
  value' : ∃ v, row' c = some v ∧ v ≠ .null ∧ v ≠ .undefined ∧ v ≠ .unchanged

/-- What a cast has to say of a value; none where it throws. -/
def complaint (rt : Runtime) (column : String) (into : CastTo) (v : Value) : Option (Option String) :=
  (cast rt into v).bind fun
    | some _ => some none
    | none => (castProblem rt column into v).map some

/-- The step says the same of both rows: a cast can be done on both values, or fails on them in the same
words; and nothing throws. -/
def Tacit (rt : Runtime) (ctx : Context) (row row' : Row) : ColumnTransform → Prop
  | .mask c m =>
    ∀ v v', row c = some v → row' c = some v' → (mask rt m v).isSome ∧ (mask rt m v').isSome
  | .cast c into _ =>
    ∀ v v', row c = some v → row' c = some v' →
      (complaint rt c into v).isSome ∧ complaint rt c into v = complaint rt c into v'
  | .set c template =>
    (ctx.keysOnly || forbidden.contains c) = true ∨
      (computed rt ctx row template).isSome ∧ (computed rt ctx row' template).isSome
  | .text _ _ | .default _ _ => True

/-- The mask makes the same of both values: it finds a value to redact in both, with a text. -/
def Covers (rt : Runtime) (m : Mask) (v v' : Value) : Prop :=
  if m.mode = .null then v ≠ .undefined ∧ v' ≠ .undefined
  else (v ≠ .null ∧ v ≠ .undefined ∧ (text rt v).isSome) ∧ v' ≠ .null ∧ v' ≠ .undefined ∧ (text rt v').isSome

/-- The column was sent. -/
def SentIn (c : String) (row : Row) : Prop := row c ≠ some .unchanged

/-- Up to the mask, and at it, the two rows' values of `c` do not show: as long as they differ, each step
on `c` is tacit, and in the end the mask covers them. -/
def Hides (rt : Runtime) (ctx : Context) (c : String) (m : Mask) :
    List ColumnTransform → Shaped → Shaped → Prop
  | [], s, u =>
    ∀ v v', s.row c = some v → u.row c = some v' → v ≠ v' →
      (v ≠ .unchanged ∧ v' ≠ .unchanged) ∧ Covers rt m v v'
  | t :: rest, s, u =>
    (t.column = c → s.row c ≠ u.row c →
      (SentIn c s.row ∧ SentIn c u.row) ∧ Tacit rt ctx s.row u.row t) ∧
    ∀ s' u', applyTransform rt ctx s t = some s' → applyTransform rt ctx u t = some u' →
      Hides rt ctx c m rest s' u'

/-! ## Up to the mask -/

/-- Two rows on their way, that have said the same, and differ in `c` at most. -/
structure Alike (c : String) (s u : Shaped) : Prop where
  others : ∀ x, x ≠ c → s.row x = u.row x
  warnings : s.warnings = u.warnings
  errors : s.errors = u.errors
  there : (s.row c).isSome ∧ (u.row c).isSome

section Step

variable {rt : Runtime} {ctx : Context} {c : String} {s u : Shaped}

theorem assign_isSome {row : Row} {name x : String} (v : Value) (h : (row x).isSome) :
    (assign row name v x).isSome := by
  unfold assign
  split
  · exact h
  · by_cases is : x = name
    · simp [is]
    · rwa [Function.update_of_ne is]

theorem Alike.eq (alike : Alike c s u) (own : s.row c = u.row c) : s = u := by
  have rows : s.row = u.row := by
    funext x
    by_cases is : x = c
    · rw [is, own]
    · exact alike.others x is
  obtain ⟨_, _, _⟩ := s
  obtain ⟨_, _, _⟩ := u
  obtain rfl := rows
  obtain rfl := alike.warnings
  obtain rfl := alike.errors
  rfl

/-- The same said of the same column. -/
theorem Alike.on (alike : Alike c s u) {e e' : Effect} {column : String}
    (warnings : e.warnings = e'.warnings) (errors : e.errors = e'.errors)
    (values : column = c ∨ e.value = e'.value) : Alike c (e.on s column) (e'.on u column) where
  others x other := by
    rcases values with rfl | same
    · have kept : ∀ (e : Effect) (s : Shaped), (e.on s column).row x = s.row x := by
        intro e s
        unfold Effect.on
        split
        · exact assign_other _ other
        · rfl
      rw [kept, kept, alike.others x other]
    · unfold Effect.on
      simp only [same]
      cases e'.value with
      | none => exact alike.others x other
      | some v =>
        by_cases is : x = column
        · subst is
          exact assign_congr _ (alike.others x other)
        · show assign s.row column v x = assign u.row column v x
          rw [assign_other _ is, assign_other _ is, alike.others x other]
  warnings := by
    show s.warnings ++ e.warnings = u.warnings ++ e'.warnings
    rw [alike.warnings, warnings]
  errors := by
    show s.errors ++ e.errors = u.errors ++ e'.errors
    rw [alike.errors, errors]
  there := by
    have kept : ∀ (e : Effect) (s : Shaped), (s.row c).isSome → ((e.on s column).row c).isSome := by
      intro e s there
      unfold Effect.on
      split
      · exact assign_isSome _ there
      · exact there
    exact ⟨kept e s alike.there.1, kept e' u alike.there.2⟩

/-- A step on another column, which copies nothing of `c`. -/
theorem Alike.other (alike : Alike c s u) {t : ColumnTransform} (other : t.column ≠ c)
    (uncopied : ∀ column template, t = .set column template → c ∉ tokens template) :
    Option.Rel (Alike c) (applyTransform rt ctx s t) (applyTransform rt ctx u t) := by
  have made : madeOf rt ctx s.row t = madeOf rt ctx u.row t := by
    cases t with
    | set column template =>
      apply computed_congr
      intro name mem
      apply scopeValue_congr
      refine .inr (.inr (alike.others name ?_))
      rintro rfl
      exact uncopied column template rfl mem
    | _ => rfl
  rw [applyTransform_eq, applyTransform_eq, alike.others _ other, made]
  cases effectOf rt ctx (u.row t.column) (madeOf rt ctx u.row t) t with
  | none => exact .none
  | some e => exact .some (alike.on rfl rfl (.inr rfl))

theorem renderPieces_names {value value' : String → Option Value}
    (same : ∀ name, (value name).isSome = (value' name).isSome) (pieces : List Piece)
    {r r' : String × List String} (h : renderPieces rt value pieces = some r)
    (h' : renderPieces rt value' pieces = some r') : r.2 = r'.2 := by
  induction pieces generalizing r r' with
  | nil =>
    obtain rfl := Option.some.inj h
    obtain rfl := Option.some.inj h'
    rfl
  | cons piece rest ih =>
    cases piece with
    | char letter =>
      obtain ⟨q, hq, rfl⟩ := Option.map_eq_some_iff.mp h
      obtain ⟨q', hq', rfl⟩ := Option.map_eq_some_iff.mp h'
      have rest := ih hq hq'
      exact rest
    | token name =>
      have both := same name
      cases found : value name with
      | none =>
        cases found' : value' name with
        | none =>
          simp only [renderPieces, found, Option.map_eq_some_iff] at h
          simp only [renderPieces, found', Option.map_eq_some_iff] at h'
          obtain ⟨q, hq, rfl⟩ := h
          obtain ⟨q', hq', rfl⟩ := h'
          have rest := ih hq hq'
          exact congrArg (name :: ·) rest
        | some v' => simp [found, found'] at both
      | some v =>
        cases found' : value' name with
        | none => simp [found, found'] at both
        | some v' =>
          simp only [renderPieces, found, Option.bind_eq_some_iff, Option.map_eq_some_iff] at h
          simp only [renderPieces, found', Option.bind_eq_some_iff, Option.map_eq_some_iff] at h'
          obtain ⟨_, _, q, hq, rfl⟩ := h
          obtain ⟨_, _, q', hq', rfl⟩ := h'
          have rest := ih hq hq'
          exact rest

/-- What is missing for a computed column is missing in both rows. -/
theorem computed_names {row row' : Row} {template : String}
    (same : ∀ name, (scopeValue ctx row name).isSome = (scopeValue ctx row' name).isSome)
    {r r' : Value × List String} (h : computed rt ctx row template = some r)
    (h' : computed rt ctx row' template = some r') : r.2 = r'.2 := by
  have whole : ((wholeToken template).bind (scopeValue ctx row)).isSome =
      ((wholeToken template).bind (scopeValue ctx row')).isSome := by
    cases wholeToken template with
    | none => rfl
    | some name => exact same name
  unfold computed at h h'
  cases found : (wholeToken template).bind (scopeValue ctx row) with
  | none =>
    cases found' : (wholeToken template).bind (scopeValue ctx row') with
    | none =>
      rw [found] at h
      rw [found'] at h'
      obtain ⟨q, hq, rfl⟩ := Option.map_eq_some_iff.mp h
      obtain ⟨q', hq', rfl⟩ := Option.map_eq_some_iff.mp h'
      exact renderPieces_names same _ hq hq'
    | some v' => simp [found, found'] at whole
  | some v =>
    cases found' : (wholeToken template).bind (scopeValue ctx row') with
    | none => simp [found, found'] at whole
    | some v' =>
      rw [found] at h
      rw [found'] at h'
      obtain rfl := Option.some.inj h
      obtain rfl := Option.some.inj h'
      rfl

theorem Alike.scope (alike : Alike c s u) (sent : SentIn c s.row ∧ SentIn c u.row) (name : String) :
    (scopeValue ctx s.row name).isSome = (scopeValue ctx u.row name).isSome := by
  by_cases is : name = c
  · subst is
    unfold scopeValue Shape.scope
    by_cases now : name = "$table"
    · simp [now]
    by_cases now : name = "$now"
    · simp [now]
    obtain ⟨v, own⟩ := Option.isSome_iff_exists.mp alike.there.1
    obtain ⟨v', own'⟩ := Option.isSome_iff_exists.mp alike.there.2
    have sent₁ : isMarker v = false := by
      cases v <;> first | rfl | exact absurd own sent.1
    have sent₂ : isMarker v' = false := by
      cases v' <;> first | rfl | exact absurd own' sent.2
    simp [*]
  · rw [scopeValue_congr (.inr (.inr (alike.others name is)))]

/-- What is warned of, and what fails. -/
def castSays (onError : CastError) (said : Option String) : List String × List String :=
  match onError, said with
  | _, none => ([], [])
  | .fail, some problem => ([], [problem])
  | .null, some problem => ([problem ++ "; written as NULL"], [])
  | .keep, some problem => ([problem ++ "; left as it was"], [])

theorem castEffect_of_complaint {into : CastTo} (onError : CastError) {v : Value} {said : Option String}
    (h : complaint rt c into v = some said) :
    ∃ e, castEffect rt c into onError v = some e ∧ (e.warnings, e.errors) = castSays onError said := by
  obtain ⟨result, done, h⟩ := Option.bind_eq_some_iff.mp h
  unfold castEffect
  rw [done]
  cases result with
  | some w =>
    obtain rfl := Option.some.inj h
    exact ⟨_, rfl, by cases onError <;> rfl⟩
  | none =>
    obtain ⟨problem, found, rfl⟩ := Option.map_eq_some_iff.mp h
    simp only [Option.bind_some, found, Option.map_some]
    cases onError <;> exact ⟨_, rfl, rfl⟩

/-- A step on the column itself, which says the same of both values. -/
theorem Alike.own (alike : Alike c s u) {t : ColumnTransform} (here : t.column = c)
    (sent : SentIn c s.row ∧ SentIn c u.row) (tacit : Tacit rt ctx s.row u.row t) :
    Option.Rel (Alike c) (applyTransform rt ctx s t) (applyTransform rt ctx u t) := by
  obtain ⟨v, own⟩ := Option.isSome_iff_exists.mp alike.there.1
  obtain ⟨v', own'⟩ := Option.isSome_iff_exists.mp alike.there.2
  have both : ∃ e e', effectOf rt ctx (s.row c) (madeOf rt ctx s.row t) t = some e ∧
      effectOf rt ctx (u.row c) (madeOf rt ctx u.row t) t = some e' ∧
      e.warnings = e'.warnings ∧ e.errors = e'.errors := by
    unfold effectOf
    rw [if_neg sent.1, if_neg sent.2]
    cases t with
    | mask column m =>
      obtain rfl : column = c := here
      obtain ⟨made, made'⟩ := tacit v v' own own'
      obtain ⟨w, hw⟩ := Option.isSome_iff_exists.mp made
      obtain ⟨w', hw'⟩ := Option.isSome_iff_exists.mp made'
      simp only [own, own', Option.elim_some, hw, hw', Option.map_some]
      exact ⟨_, _, rfl, rfl, rfl, rfl⟩
    | cast column into onError =>
      obtain rfl : column = c := here
      obtain ⟨made, same⟩ := tacit v v' own own'
      obtain ⟨said, is⟩ := Option.isSome_iff_exists.mp made
      obtain ⟨e, he, says_⟩ := castEffect_of_complaint onError is
      obtain ⟨e', he', says'⟩ := castEffect_of_complaint onError (same ▸ is)
      simp only [own, own', Option.elim_some]
      exact ⟨e, e', he, he', Prod.mk.inj (says_.trans says'.symm)⟩
    | text column op =>
      obtain ⟨w, f⟩ := textEffect_quiet rt op (s.row c)
      obtain ⟨w', f'⟩ := textEffect_quiet rt op (u.row c)
      exact ⟨_, _, rfl, rfl, w.trans w'.symm, f.trans f'.symm⟩
    | default column value =>
      have quiet : ∀ own : Option Value, ∃ e : Effect,
          (if ctx.keysOnly = false ∧ (own = none ∨ own = some .null ∨ own = some .undefined) then
            some { value := some value } else some {}) = some e ∧ e.warnings = [] ∧ e.errors = [] := by
        intro own
        split <;> exact ⟨_, rfl, rfl, rfl⟩
      obtain ⟨e, he, w, f⟩ := quiet (s.row c)
      obtain ⟨e', he', w', f'⟩ := quiet (u.row c)
      exact ⟨e, e', he, he', w.trans w'.symm, f.trans f'.symm⟩
    | set column template =>
      obtain rfl : column = c := here
      by_cases skipped : (ctx.keysOnly || forbidden.contains column) = true
      · simp only [if_pos skipped]
        exact ⟨_, _, rfl, rfl, rfl, rfl⟩
      · obtain ⟨made, made'⟩ := tacit.resolve_left skipped
        obtain ⟨r, hr⟩ := Option.isSome_iff_exists.mp made
        obtain ⟨r', hr'⟩ := Option.isSome_iff_exists.mp made'
        simp only [if_neg skipped, madeOf, hr, hr', Option.map_some]
        refine ⟨_, _, rfl, rfl, ?_, rfl⟩
        rw [computed_names (alike.scope sent) hr hr']
  obtain ⟨e, e', he, he', warnings, errors⟩ := both
  rw [applyTransform_eq, applyTransform_eq, here, he, he']
  exact .some (alike.on warnings errors (.inl rfl))

end Step

/-! ## The steps -/

section Steps

variable {rt : Runtime} {ctx : Context} {c : String} {s u : Shaped} {m : Mask}

/-- Where they hold the same, the rows are the same. -/
theorem Alike.step (alike : Alike c s u) {t : ColumnTransform}
    (uncopied : ∀ column template, t = .set column template → column ≠ c → c ∉ tokens template)
    (quiet : t.column = c → s.row c ≠ u.row c →
      (SentIn c s.row ∧ SentIn c u.row) ∧ Tacit rt ctx s.row u.row t) :
    Option.Rel (Alike c) (applyTransform rt ctx s t) (applyTransform rt ctx u t) := by
  by_cases here : t.column = c
  · by_cases own : s.row c = u.row c
    · obtain rfl := alike.eq own
      cases result : applyTransform rt ctx s t with
      | none => exact .none
      | some s' =>
        refine .some ⟨fun _ _ => rfl, rfl, rfl, ?_⟩
        rw [applyTransform_eq] at result
        obtain ⟨e, _, rfl⟩ := Option.map_eq_some_iff.mp result
        have on : Alike c (e.on s t.column) (e.on s t.column) := alike.on rfl rfl (.inr rfl)
        exact on.there
    · obtain ⟨sent, tacit⟩ := quiet here own
      exact alike.own here sent tacit
  · refine alike.other here ?_
    intro column template is
    refine uncopied column template is ?_
    rw [is] at here
    exact here

theorem mask_of_covers {v v' : Value} (mode : m.mode = .redact ∨ m.mode = .null)
    (covers : Covers rt m v v') : ∃ w, mask rt m v = some w ∧ mask rt m v' = some w := by
  unfold Covers at covers
  rcases mode with redact | null
  · rw [redact, if_neg (by decide)] at covers
    obtain ⟨⟨n, d, text₁⟩, n', d', text₂⟩ := covers
    have covered : ∀ v : Value, v ≠ .null → v ≠ .undefined → (text rt v).isSome →
        mask rt m v = some (.string (filled rt m.fill 8)) := by
      intro v n d there
      obtain ⟨said, is⟩ := Option.isSome_iff_exists.mp there
      unfold mask
      split
      · exact absurd rfl n
      · exact absurd rfl d
      · rw [redact, is]
        rfl
    exact ⟨_, covered v n d text₁, covered v' n' d' text₂⟩
  · rw [null, if_pos rfl] at covers
    have covered : ∀ v : Value, v ≠ .undefined → mask rt m v = some .null := by
      intro v d
      unfold mask
      split
      · rfl
      · exact absurd rfl d
      · rw [null]
    exact ⟨_, covered v covers.1, covered v' covers.2⟩

/-- **At the mask the two rows become one.** -/
theorem Alike.masked (alike : Alike c s u) (mode : m.mode = .redact ∨ m.mode = .null)
    (hides : Hides rt ctx c m [] s u) :
    applyTransform rt ctx s (.mask c m) = applyTransform rt ctx u (.mask c m) := by
  obtain ⟨v, own⟩ := Option.isSome_iff_exists.mp alike.there.1
  obtain ⟨v', own'⟩ := Option.isSome_iff_exists.mp alike.there.2
  by_cases same : v = v'
  · rw [alike.eq (own.trans (same ▸ own'.symm))]
  obtain ⟨⟨sent, sent'⟩, covers⟩ := hides v v' own own' same
  obtain ⟨w, hw, hw'⟩ := mask_of_covers mode covers
  rw [applyTransform_mask m own sent, applyTransform_mask m own' sent', hw, hw']
  have rows : assign s.row c w = assign u.row c w := by
    funext x
    by_cases is : x = c
    · rw [is, assign_own w own, assign_own w own']
    · rw [assign_other w is, assign_other w is, alike.others x is]
  rw [Option.map_some, Option.map_some, rows, alike.warnings, alike.errors]

/-- The steps before the mask, and the mask. -/
theorem Alike.steps (alike : Alike c s u) (before : List ColumnTransform)
    (mode : m.mode = .redact ∨ m.mode = .null)
    (uncopied : ∀ column template, .set column template ∈ before → column ≠ c → c ∉ tokens template)
    (hides : Hides rt ctx c m before s u) :
    (before ++ [ColumnTransform.mask c m]).foldlM (applyTransform rt ctx) s =
      (before ++ [ColumnTransform.mask c m]).foldlM (applyTransform rt ctx) u := by
  induction before generalizing s u with
  | nil => simp [alike.masked mode hides]
  | cons t rest ih =>
    obtain ⟨quiet, later⟩ := hides
    have step : Option.Rel (Alike c) (applyTransform rt ctx s t) (applyTransform rt ctx u t) :=
      alike.step (fun column template is => uncopied column template (is ▸ List.mem_cons_self)) quiet
    rw [List.cons_append, List.foldlM_cons, List.foldlM_cons]
    generalize hs : applyTransform rt ctx s t = a at step
    generalize hu : applyTransform rt ctx u t = b at step
    cases step with
    | none => rfl
    | some next =>
      exact ih next (fun column template mem => uncopied column template (List.mem_cons_of_mem _ mem))
        (later _ _ hs hu)

end Steps

/-! ## The delivery -/

section Rows

variable {rt : Runtime} {ctx : Context} {c : String} {m : Mask}
  {columns before after : List ColumnTransform}

theorem applyColumnTransforms_same {row row' : Row} (masked : MaskedFirst c columns before m after)
    (differ : DifferIn c row row') (hides : Hides rt ctx c m before { row := row } { row := row' }) :
    applyColumnTransforms rt ctx row columns = applyColumnTransforms rt ctx row' columns := by
  have alike : Alike c { row := row } { row := row' } := by
    obtain ⟨v, own, _⟩ := differ.value
    obtain ⟨v', own', _⟩ := differ.value'
    refine ⟨differ.others, rfl, rfl, ?_⟩
    simp [own, own']
  have steps := alike.steps before masked.mode masked.uncopied hides
  have split : columns = (before ++ [ColumnTransform.mask c m]) ++ after := by
    rw [masked.steps, List.append_assoc, List.singleton_append]
  have cut : ∀ s, List.foldlM (applyTransform rt ctx) s columns =
      ((before ++ [ColumnTransform.mask c m]).foldlM (applyTransform rt ctx) s).bind
        fun s => after.foldlM (applyTransform rt ctx) s := by
    intro s
    rw [split, List.foldlM_append]
    rfl
  rw [applyColumnTransforms, applyColumnTransforms, cut, cut, steps]

/-- Rows of the source in which `c` alone differs, and does not show. -/
def SameButHidden (rt : Runtime) (ctx : Context) (c : String) (m : Mask) (before : List ColumnTransform)
    (row row' : Row) : Prop :=
  row = row' ∨
    DifferIn c row row' ∧ Hides rt ctx c m before { row := row } { row := row' }

/-- For every list of steps that masks the column before it is copied, every batch of rows, writes and
deletes, and every destination: rows that differ in values of the column only are delivered, recorded
and spoken of alike, if nothing before the mask says or fails on the value. -/
theorem deliver_same_of_quiet {O : Type*} (b : ShapingBridge O) (now : String) (op : Op)
    (masked : MaskedFirst c b.columns before m after) {rows rows' : List Row}
    (quiet : List.Forall₂ (SameButHidden rt
      { table := b.table, now := now, keysOnly := op = .delete } c m before) rows rows') :
    b.deliver rt now op rows = b.deliver rt now op rows' := by
  have shaped : rows.mapM (fun row => applyColumnTransforms rt
        { table := b.table, now := now, keysOnly := op = .delete } row b.columns) =
      rows'.mapM fun row => applyColumnTransforms rt
        { table := b.table, now := now, keysOnly := op = .delete } row b.columns := by
    induction quiet with
    | nil => rfl
    | cons here _ ih =>
      rw [List.mapM_cons, List.mapM_cons, ih]
      rcases here with rfl | ⟨differ, hides⟩
      · rfl
      · rw [applyColumnTransforms_same masked differ hides]
  have steps : b.columns.isEmpty = false := by
    rw [masked.steps]
    cases before <;> rfl
  unfold ShapingBridge.deliver shapeRows
  simp only [steps, Bool.false_eq_true, if_false, shaped]

end Rows

namespace SocialSecurity

def jsonText : Json → String
  | .string s => "\"" ++ s ++ "\""
  | _ => "null"

/-- On texts of digits and dashes. -/
def runtime : Runtime where
  numberText := wholeText
  jsonText := jsonText
  numberOf text :=
    if text.toList.all Char.isDigit then .finite (Nat.ofDigitChars 10 text.toList 0 : ℕ) else .nan
  dateOf _ := none
  dateAt _ := none
  parseJson _ := none
  trim text := text
  toLowerCase text := text
  toUpperCase text := text
  slice text n := String.ofList (text.toList.take n)
  hash _ := ""

def redact : Mask := { mode := .redact, keepStart := 0, keepEnd := 4, fill := "*", salt := none }

/-- The number as a number, and then redacted. -/
def patients : ShapingBridge (List (Option Value)) where
  table := "patients"
  columns := [.cast "ssn" .integer .fail, .mask "ssn" redact]
  sink _ rows := (rows.map fun row => row "ssn", [])

def row (ssn : String) : Row := fun name => if name = "ssn" then some (.string ssn) else none

theorem masked : MaskedFirst "ssn" patients.columns [.cast "ssn" .integer .fail] redact [] where
  steps := rfl
  mode := .inl rfl
  uncopied column template mem := by simp at mem

theorem differ (a b : String) : DifferIn "ssn" (row a) (row b) where
  others x other := by simp [row, other]
  value := ⟨.string a, rfl, by simp⟩
  value' := ⟨.string b, rfl, by simp⟩

def problem (ssn : String) : String :=
  "cast ssn: " ++ ("\"" ++ String.ofList (ssn.toList.take 40) ++ "\"") ++ " is not a " ++ "integer"

theorem problem_shown {ssn : String} (some_ : ssn ≠ "") (dashes : ssn.toList.all Char.isDigit = false) :
    patients.deliver runtime "now" .write [row ssn] =
      some (.notSent (failedBeforeSending [problem ssn]) []) := by
  have fails : cast runtime .integer (.string ssn) = some none := by
    simp only [cast, text, Option.map_some, castNumber, runtime, some_, if_false, dashes,
      Bool.false_eq_true]
  have casts : ∀ ctx, applyTransform runtime ctx { row := row ssn } (.cast "ssn" .integer .fail) =
      some { row := row ssn, errors := [problem ssn] } := by
    intro ctx
    rw [applyTransform_cast (v := .string ssn) _ _ rfl (by simp), applyCast, fails]
    rfl
  have masks : ∀ ctx, applyTransform runtime ctx { row := row ssn, errors := [problem ssn] }
      (.mask "ssn" redact) =
        some { row := assign (row ssn) "ssn" (.string (filled runtime "*" 8)), errors := [problem ssn] } := by
    intro ctx
    rw [applyTransform_mask (v := .string ssn) _ rfl (by simp)]
    rfl
  have once : [problem ssn].eraseDups = [problem ssn] := rfl
  simp [ShapingBridge.deliver, shapeRows, applyColumnTransforms, patients, casts, masks, once]

theorem append_between_inj {p q a b : String} (h : p ++ a ++ q = p ++ b ++ q) : a = b := by
  have letters := congrArg String.toList h
  simp only [String.toList_append, List.append_cancel_right_eq, List.append_cancel_left_eq] at letters
  exact String.toList_inj.mp letters

theorem failedBeforeSending_inj {a b : String} (h : failedBeforeSending [a] = failedBeforeSending [b]) :
    a = b := by
  have split : ∀ a, failedBeforeSending [a] = "Column transform failed — " ++ a ++ ("" ++
      ". Fix the source value, or set the cast's \"on error\" to null or keep.") :=
    fun _ => String.append_assoc
  rw [split, split] at h
  exact append_between_inj h

theorem problem_inj {a b : String} (h : problem a = problem b) : a.toList.take 40 = b.toList.take 40 := by
  have split : ∀ ssn : String, problem ssn = "cast ssn: " ++
      ("\"" ++ String.ofList (ssn.toList.take 40) ++ "\"") ++ (" is not a " ++ "integer") :=
    fun _ => String.append_assoc
  rw [split, split] at h
  exact String.ofList_injective (append_between_inj (append_between_inj h))

/-- **A number with dashes is in the error.** -/
theorem dashes_shown :
    MaskedFirst "ssn" patients.columns [.cast "ssn" .integer .fail] redact [] ∧
      DifferIn "ssn" (row "123-45-6789") (row "987-65-4321") ∧
      patients.deliver runtime "now" .write [row "123-45-6789"] ≠
        patients.deliver runtime "now" .write [row "987-65-4321"] := by
  refine ⟨masked, differ _ _, ?_⟩
  rw [problem_shown (by decide) (by decide), problem_shown (by decide) (by decide)]
  intro same
  have texts := failedBeforeSending_inj (Delivered.notSent.inj (Option.some.inj same)).1
  exact absurd (problem_inj texts) (by decide)

theorem hides {a b : String} {p q : Rat}
    (first : cast runtime .integer (.string a) = some (some (.number (.finite p))))
    (second : cast runtime .integer (.string b) = some (some (.number (.finite q)))) (ctx : Context) :
    Hides runtime ctx "ssn" redact [.cast "ssn" .integer .fail] { row := row a } { row := row b } := by
  have becomes : ∀ {ssn : String} {n : Rat} {s' : Shaped},
      cast runtime .integer (.string ssn) = some (some (.number (.finite n))) →
        applyTransform runtime ctx { row := row ssn } (.cast "ssn" .integer .fail) = some s' →
          s'.row "ssn" = some (.number (.finite n)) := by
    intro ssn n s' done h
    rw [applyTransform_cast (v := .string ssn) _ _ rfl (by simp), applyCast, done] at h
    obtain rfl := Option.some.inj h
    have own : row ssn "ssn" = some (.string ssn) := rfl
    exact assign_own _ own
  refine ⟨fun _ _ => ⟨by simp [SentIn, row], ?_⟩, ?_⟩
  · intro v v' own own'
    obtain rfl := Option.some.inj own
    obtain rfl := Option.some.inj own'
    simp [complaint, first, second]
  · intro s' u' hs hu v v' own own' _
    rw [becomes first hs] at own
    rw [becomes second hu] at own'
    obtain rfl := Option.some.inj own
    obtain rfl := Option.some.inj own'
    simp [Covers, redact, text]

/-- Without dashes nothing shows. -/
theorem digits_hidden :
    patients.deliver runtime "now" .write [row "123456789"] =
      patients.deliver runtime "now" .write [row "987654321"] := by
  apply deliver_same_of_quiet patients "now" .write masked
  exact .cons (.inr ⟨differ _ _, hides rfl rfl _⟩) .nil

end SocialSecurity

end Syncle.Shape
