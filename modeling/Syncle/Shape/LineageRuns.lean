import Syncle.Shape.PlannedTypes

/-!
# Values on their way

The steps run over a row from the front, and a value takes the way through them that is read from
behind (`lineage`). So of what a column holds in the end one has to look at the steps on its way only,
each on the column that the value is in by then (`flows`): the copies that are made of it hand it on,
and no other step touches it.

That holds where each step on the way writes what it is planned to write (`Lands`). A computed column
under a name that is never assigned is not written at all, and one that copies a column that is not
there is an empty text.
-/

namespace Syncle.Shape

open Lib Js

/-! ## What is on its way -/

/-- There is a value. -/
def There (own : Option Value) : Prop := ∃ v, own = some v ∧ Given v

/-- There is none: the row has no such column, or NULL in it. -/
def Blank (own : Option Value) : Prop := own = none ∨ own = some .null ∨ own = some .undefined

/-- A text step on a value. -/
def lettered (rt : Runtime) (op : TextOp) : Value → Value
  | .string s => .string (applyText rt op s)
  | v => v

/-- What the text steps make of a value. -/
def texted (rt : Runtime) (after : List ColumnTransform) (v : Value) : Value :=
  after.foldl (fun v t => match t with
    | .text _ op => lettered rt op v
    | _ => v) v

/-- A step that puts a value where there is none. -/
def refills : ColumnTransform → Bool
  | .default _ _ => true
  | _ => false

def Refilled (after : List ColumnTransform) : Prop := ∃ t ∈ after, refills t = true

section

variable (rt : Runtime) (ctx : Context) (row : Row) (steps : List ColumnTransform)

/-- On the way of a column's value, each step on the row it meets. -/
def Along (c : String) (P : ColumnTransform → Shaped → List ColumnTransform → Prop) : Prop :=
  ∀ done t rest, steps = done ++ t :: rest → (lineage rest c).origin = .column t.column →
    ∀ s, applyColumnTransforms rt ctx row done = some s → P t s (lineage rest c).through

/-- The step writes what it is planned to write: the name can be assigned, the column that is copied is
there, and what is built is a text. -/
def Lands (s : Shaped) : ColumnTransform → Prop
  | .set c template => forbidden.contains c = false ∧
    match copies template with
    | some y => s.row y ≠ none
    | none => ∀ v, (wholeToken template).bind (scopeValue ctx s.row) = some v → ∃ text, v = .string text
  | .default c _ => c ≠ "__proto__"
  | .mask _ _ | .cast _ _ _ | .text _ _ => True

/-- Nothing holds the mark of a column that was not sent: a whole row does not, a default is a text, a
number, a boolean or null, and no JSON text spells it. -/
structure Unmarked : Prop where
  row : ∀ name, row name ≠ some .unchanged
  defaults : ∀ c value, .default c value ∈ steps → value ≠ .unchanged
  parsed : ∀ s, rt.parseJson s ≠ some .unchanged

end

section

variable {rt : Runtime} {ctx : Context} {instant : String → Prop} {row : Row}
  {steps : List ColumnTransform}

/-! ## There or not -/

theorem there_or_blank {own : Option Value} (sent : own ≠ some .unchanged) : There own ∨ Blank own := by
  rcases own with _ | v
  · exact .inr (.inl rfl)
  · cases v <;> simp_all [There, Blank, Given]

theorem not_blank_of_given {v : Value} (given : Given v) : ¬ Blank (some v) := by
  rintro (is | is | is)
  · cases is
  · exact given.1 (Option.some.inj is)
  · exact given.2.1 (Option.some.inj is)

theorem not_there_of_blank {own : Option Value} (blank : Blank own) : ¬ There own := by
  rintro ⟨v, rfl, given⟩
  exact not_blank_of_given given blank

theorem given_lettered {op : TextOp} {v : Value} (given : Given v) : Given (lettered rt op v) := by
  cases v with
  | string s => simp [lettered, Given]
  | _ => exact given

/-- What is no text stays as it is. -/
theorem texted_other {after : List ColumnTransform} {v : Value} (other : ∀ s, v ≠ .string s) :
    texted rt after v = v := by
  induction after with
  | nil => rfl
  | cons t after ih =>
    have same : (match t with
        | .text _ op => lettered rt op v
        | _ => v) = v := by
      cases t with
      | text c op =>
        cases v with
        | string s => exact absurd rfl (other s)
        | _ => rfl
      | _ => rfl
    rw [texted, List.foldl_cons, same]
    exact ih

theorem texted_string (after : List ColumnTransform) (s : String) :
    ∃ s', texted rt after (.string s) = .string s' := by
  induction after generalizing s with
  | nil => exact ⟨s, rfl⟩
  | cons t after ih =>
    cases t with
    | text c op => exact ih (applyText rt op s)
    | _ => exact ih s

/-! ## One step, on its own column -/

theorem takes_texted_cast {into : CastTo} {v w : Value} (given : Given v)
    (is : cast rt into v = some (some w)) (after : List ColumnTransform) :
    takesPlanned rt instant (castType into) (texted rt after w) ↔
      Fitting rt instant into (texted rt after w) := by
  cases into with
  | string =>
    obtain ⟨s, rfl⟩ := cast_string given is
    obtain ⟨s', is⟩ := texted_string after s
    rw [is]
    exact iff_of_true (takesPlanned_text.mpr ⟨s', rfl⟩) trivial
  | number =>
    have double := (cast_numeric (Or.inl rfl) given is).2
    have same : texted rt after w = w := texted_other fun s is => by
      rw [is] at double
      cases double
    rw [same]
    exact iff_of_true (by simpa [takesPlanned, castType] using double) trivial
  | boolean =>
    obtain ⟨b, rfl⟩ := cast_boolean given is
    rw [texted_other fun s => by simp]
    exact iff_of_true (by simp [takesPlanned, castType]) trivial
  | integer => simp [takesPlanned, castType, Fitting]
  | date => simp [takesPlanned, castType, Fitting]
  | json => simp [takesPlanned, castType, Fitting]

variable {s s' : Shaped}

theorem assign_new {r : Row} {c : String} (allowed : c ≠ "__proto__") (v : Value) :
    assign r c v c = some v := by
  unfold assign
  rw [if_neg fun both => allowed both.1, Function.update_self]

theorem mask_own {c : String} {m : Mask} {v : Value} (h : applyTransform rt ctx s (.mask c m) = some s')
    (there : s.row c = some v) (given : Given v) :
    m.mode = .null ∧ s'.row c = some .null ∨ m.mode ≠ .null ∧ ∃ text, s'.row c = some (.string text) := by
  rw [applyTransform_mask m there given.2.2] at h
  obtain ⟨w, masked, rfl⟩ := Option.map_eq_some_iff.mp h
  by_cases null : m.mode = .null
  · rw [mask_null null given] at masked
    obtain rfl := Option.some.inj masked
    exact .inl ⟨null, assign_own _ there⟩
  · obtain ⟨text, rfl⟩ := mask_given null given masked
    exact .inr ⟨null, text, assign_own _ there⟩

/-- What becomes of a value that is cast. -/
theorem cast_own {c : String} {into : CastTo} {onError : CastError} {v : Value}
    (h : applyTransform rt ctx s (.cast c into onError) = some s') (noErrors : s'.errors = [])
    (there : s.row c = some v) (given : Given v) :
    (∃ w, cast rt into v = some (some w) ∧ s'.row c = some w) ∨
      cast rt into v = some none ∧
        (onError = .null ∧ s'.row c = some .null ∨ onError = .keep ∧ s'.row c = some v) := by
  rw [applyTransform_cast into onError there given.2.2, applyCast, Option.bind_eq_some_iff] at h
  obtain ⟨result, is, h⟩ := h
  cases result with
  | some w =>
    obtain rfl := Option.some.inj h
    exact .inl ⟨w, is, assign_own _ there⟩
  | none =>
    obtain ⟨problem, -, rfl⟩ := Option.map_eq_some_iff.mp h
    refine .inr ⟨is, ?_⟩
    cases onError with
    | fail => simp at noErrors
    | null => exact .inl ⟨rfl, assign_own _ there⟩
    | keep => exact .inr ⟨rfl, there⟩

theorem text_own {c : String} {op : TextOp} {v : Value} (h : applyTransform rt ctx s (.text c op) = some s')
    (there : s.row c = some v) : s'.row c = some (lettered rt op v) := by
  by_cases string : ∃ text, v = .string text
  · obtain ⟨text, rfl⟩ := string
    rw [applyTransform_text op there] at h
    obtain rfl := Option.some.inj h
    exact assign_own _ there
  · rw [applyTransform_text_other op there (not_exists.mp string)] at h
    obtain rfl := Option.some.inj h
    cases v with
    | string text => exact absurd ⟨text, rfl⟩ string
    | _ => exact there

theorem default_there {c : String} {value v : Value} (h : applyTransform rt ctx s (.default c value) = some s')
    (there : s.row c = some v) (given : Given v) : s'.row c = some v := by
  rw [applyTransform_default value there ⟨given.1, given.2.1⟩] at h
  obtain rfl := Option.some.inj h
  exact there

theorem default_blank {c : String} {value : Value} (full : ctx.keysOnly = false)
    (h : applyTransform rt ctx s (.default c value) = some s') (allowed : c ≠ "__proto__")
    (blank : Blank (s.row c)) : s'.row c = some value := by
  rw [applyTransform_default_blank value blank, full, if_neg Bool.false_ne_true] at h
  obtain rfl := Option.some.inj h
  exact assign_new allowed value

/-- Only a default and a computed column put a value where there is none. -/
theorem plain_blank {t : ColumnTransform} (h : applyTransform rt ctx s t = some s') (idle : t.adds = false)
    (blank : Blank (s.row t.column)) : s'.row t.column = s.row t.column := by
  rcases blank with none_ | some_
  · rw [applyTransform_missing none_ (Or.inl idle)] at h
    rw [Option.some.inj h]
  · have nothing : ∀ v, v = Value.null ∨ v = .undefined → s.row t.column = some v →
        s'.row t.column = s.row t.column := by
      intro v is there
      have sent : v ≠ .unchanged := by rcases is with rfl | rfl <;> simp
      have blank_cast : ∀ into, cast rt into v = some (some v) := by
        rcases is with rfl | rfl <;> intro into <;> rfl
      have blank_mask : ∀ m, mask rt m v = some v := by
        rcases is with rfl | rfl <;> intro m <;> rfl
      cases t with
      | mask c m =>
        have at_ : s.row c = some v := there
        rw [applyTransform_mask m at_ sent, blank_mask] at h
        obtain rfl := Option.some.inj h
        rw [there]
        exact assign_own _ there
      | cast c into onError =>
        have at_ : s.row c = some v := there
        rw [applyTransform_cast into onError at_ sent, applyCast, blank_cast] at h
        obtain rfl := Option.some.inj h
        rw [there]
        exact assign_own _ there
      | text c op =>
        have at_ : s.row c = some v := there
        rw [applyTransform_text_other op at_ (by rcases is with rfl | rfl <;> simp)] at h
        rw [Option.some.inj h]
      | default => cases idle
      | set => cases idle
    rcases some_ with is | is
    · exact nothing _ (.inl rfl) is
    · exact nothing _ (.inr rfl) is

/-- A copy is what was copied. -/
theorem copy_own {c template y : String} (full : ctx.keysOnly = false)
    (h : applyTransform rt ctx s (.set c template) = some s') (sent : ∀ name, s.row name ≠ some .unchanged)
    (lands : Lands ctx s (.set c template)) (copy : copies template = some y) : s'.row c = s.row y := by
  obtain ⟨allowed, there⟩ := lands
  rw [copy] at there
  obtain ⟨v, is⟩ := Option.ne_none_iff_exists'.mp there
  obtain ⟨whole, plain⟩ := Option.filter_eq_some_iff.mp copy
  have found : scopeValue ctx s.row y = some v := by
    have now : y ≠ "$now" := by rintro rfl; exact absurd plain (by decide)
    have table : y ≠ "$table" := by rintro rfl; exact absurd plain (by decide)
    have unmarked : isMarker v = false := by
      cases v with
      | unchanged => exact absurd is (sent y)
      | _ => rfl
    unfold scopeValue scope
    rw [Function.update_of_ne table, Function.update_of_ne now, is]
    simp [Option.filter, unmarked]
  rw [applyTransform_set template (sent c), full, Bool.false_or, if_neg (Bool.eq_false_iff.mp allowed), computed, whole,
    Option.bind_some, found] at h
  obtain rfl := Option.some.inj h
  rw [is]
  refine assign_new ?_ v
  rintro rfl
  exact absurd allowed (by decide)

/-- What is built is a text. -/
theorem built_own {c template : String} (full : ctx.keysOnly = false)
    (h : applyTransform rt ctx s (.set c template) = some s') (sent : ∀ name, s.row name ≠ some .unchanged)
    (lands : Lands ctx s (.set c template)) (built : copies template = none) :
    ∃ text, s'.row c = some (.string text) := by
  obtain ⟨allowed, texts⟩ := lands
  rw [built] at texts
  have proto : c ≠ "__proto__" := by
    rintro rfl
    exact absurd allowed (by decide)
  rw [applyTransform_set template (sent c), full, Bool.false_or, if_neg (Bool.eq_false_iff.mp allowed)] at h
  obtain ⟨r, made, rfl⟩ := Option.map_eq_some_iff.mp h
  unfold computed at made
  split at made
  · next v whole =>
    obtain ⟨text, rfl⟩ := texts v whole
    obtain rfl := Option.some.inj made
    exact ⟨text, assign_new proto _⟩
  · obtain ⟨rendered, -, rfl⟩ := Option.map_eq_some_iff.mp made
    exact ⟨rendered.1, assign_new proto _⟩

/-! ## No marks

A column that was not sent is passed over by every step, a default among them. The whole row of an
insert or an update of all its columns has none, and the steps make none. -/

theorem cast_unmarked (parsed : ∀ s, rt.parseJson s ≠ some .unchanged) {into : CastTo} {v w : Value}
    (given : Given v) (is : cast rt into v = some (some w)) : w ≠ .unchanged := by
  cases into with
  | string =>
    obtain ⟨s, rfl⟩ := cast_string given is
    simp
  | number => exact (cast_numeric (Or.inl rfl) given is).1.2.2
  | integer => exact (cast_numeric (Or.inr rfl) given is).1.2.2
  | boolean =>
    obtain ⟨b, rfl⟩ := cast_boolean given is
    simp
  | date =>
    obtain ⟨s, rfl⟩ := cast_date given is
    simp
  | json =>
    rintro rfl
    cases v with
    | null => exact given.1 rfl
    | undefined => exact given.2.1 rfl
    | unchanged => exact given.2.2 rfl
    | string s => exact parsed s (Option.some.inj is)
    | _ => cases is

/-- A step marks nothing. -/
theorem unmarked_step {t : ColumnTransform} (full : ctx.keysOnly = false)
    (default_ : ∀ c value, t = .default c value → value ≠ .unchanged)
    (parsed : ∀ s, rt.parseJson s ≠ some .unchanged) (h : applyTransform rt ctx s t = some s')
    (noErrors : s'.errors = []) (sent : ∀ name, s.row name ≠ some .unchanged) (name : String) :
    s'.row name ≠ some .unchanged := by
  by_cases own : name = t.column
  · subst own
    by_cases adds : t.adds = true
    · cases t with
      | default c value =>
        rcases there_or_blank (sent c) with ⟨v, there, given⟩ | blank
        · have same : s'.row c = some v := default_there h there given
          intro marked
          exact given.2.2 (Option.some.inj (same.symm.trans marked))
        · rw [applyTransform_default_blank value blank, full, if_neg Bool.false_ne_true] at h
          obtain rfl := Option.some.inj h
          intro marked
          simp only [ColumnTransform.column, assign] at marked
          split at marked
          · exact sent c marked
          · rw [Function.update_self] at marked
            exact default_ c value rfl (Option.some.inj marked)
      | set c template =>
        rw [applyTransform_set template (sent c), full, Bool.false_or] at h
        split at h
        · rw [← Option.some.inj h]
          exact sent c
        · obtain ⟨r, made, rfl⟩ := Option.map_eq_some_iff.mp h
          have unmarked : r.1 ≠ .unchanged := by
            unfold computed at made
            split at made
            · next v whole =>
              obtain rfl := Option.some.inj made
              obtain ⟨y, -, found⟩ := Option.bind_eq_some_iff.mp whole
              rintro rfl
              exact absurd (Option.filter_eq_some_iff.mp found).2 (by decide)
            · obtain ⟨rendered, -, rfl⟩ := Option.map_eq_some_iff.mp made
              simp
          intro marked
          simp only [ColumnTransform.column, assign] at marked
          split at marked
          · exact sent c marked
          · rw [Function.update_self] at marked
            exact unmarked (Option.some.inj marked)
      | _ => cases adds
    · have idle : t.adds = false := Bool.eq_false_iff.mpr adds
      rcases there_or_blank (sent t.column) with ⟨v, there, given⟩ | blank
      · cases t with
        | mask c m =>
          rcases mask_own h there given with ⟨-, is⟩ | ⟨-, text, is⟩ <;> simp [ColumnTransform.column, is]
        | cast c into onError =>
          rcases cast_own h noErrors there given with ⟨w, made, is⟩ | ⟨-, ⟨-, is⟩ | ⟨-, is⟩⟩
          · have unmarked := cast_unmarked parsed given made
            simpa [ColumnTransform.column, is] using unmarked
          · simp [ColumnTransform.column, is]
          · simpa [ColumnTransform.column, is] using given.2.2
        | text c op =>
          have is := text_own h there
          have unmarked : lettered rt op v ≠ .unchanged := (given_lettered given).2.2
          simpa [ColumnTransform.column, is] using unmarked
        | default => cases idle
        | set => cases idle
      · rw [plain_blank h idle blank]
        exact sent t.column
  · rw [applyTransform_other own h]
    exact sent name

/-! ## A run of the steps -/

theorem errors_of_step {t : ColumnTransform} (is : applyTransform rt ctx s t = some s')
    (none_ : s'.errors = []) : s.errors = [] := by
  have alike := @applyTransform_congr rt ctx ctx s s t rfl rfl fun _ _ _ _ => rfl
  rw [is] at alike
  cases alike with
  | some same =>
    obtain ⟨-, e, errors, -⟩ := same
    rw [none_] at errors
    exact (List.append_eq_nil_iff.mp errors.symm).1

theorem applyColumnTransforms_append (done rest : List ColumnTransform) :
    applyColumnTransforms rt ctx row (done ++ rest) =
      (applyColumnTransforms rt ctx row done).bind fun s => rest.foldlM (applyTransform rt ctx) s := by
  simp [applyColumnTransforms, List.foldlM_append]

theorem applyColumnTransforms_snoc (done : List ColumnTransform) (t : ColumnTransform) :
    applyColumnTransforms rt ctx row (done ++ [t]) =
      (applyColumnTransforms rt ctx row done).bind fun s => applyTransform rt ctx s t := by
  simp [applyColumnTransforms, List.foldlM_append]

/-- In the run, `t` is done on `s`, and makes it `s'`. -/
structure AtStep (rt : Runtime) (ctx : Context) (row : Row) (done : List ColumnTransform) (t : ColumnTransform)
    (s s' : Shaped) : Prop where
  before : applyColumnTransforms rt ctx row done = some s
  step : applyTransform rt ctx s t = some s'
  noErrors : s'.errors = []
  sent : ∀ name, s.row name ≠ some .unchanged

theorem AtStep.after {done : List ColumnTransform} {t : ColumnTransform} (turn : AtStep rt ctx row done t s s') :
    applyColumnTransforms rt ctx row (done ++ [t]) = some s' := by
  rw [applyColumnTransforms_snoc, turn.before, Option.bind_some, turn.step]

section Run

variable {last : Shaped} (full : ctx.keysOnly = false) (marks : Unmarked rt row steps)
  (run : applyColumnTransforms rt ctx row steps = some last) (noErrors : last.errors = [])

include run noErrors in
/-- No cast failed on the way either. -/
theorem errors_of_run {done rest : List ColumnTransform} (cut : steps = done ++ rest)
    (before : applyColumnTransforms rt ctx row done = some s) : s.errors = [] := by
  rw [cut, applyColumnTransforms_append, before, Option.bind_some] at run
  clear before cut
  induction rest generalizing s with
  | nil => exact (Option.some.inj run).symm ▸ noErrors
  | cons t rest ih =>
    rw [List.foldlM_cons] at run
    obtain ⟨s', step, run⟩ := Option.bind_eq_some_iff.mp run
    exact errors_of_step step (ih run)

include full marks run noErrors in
theorem unmarked_run {done rest : List ColumnTransform} (cut : steps = done ++ rest)
    (before : applyColumnTransforms rt ctx row done = some s) (name : String) :
    s.row name ≠ some .unchanged := by
  induction done using List.reverseRecOn generalizing rest s name with
  | nil => exact Option.some.inj before ▸ marks.row name
  | append_singleton done t ih =>
    have errors := errors_of_run run noErrors cut before
    rw [applyColumnTransforms_snoc] at before
    obtain ⟨s₀, earlier, step⟩ := Option.bind_eq_some_iff.mp before
    have cut' : steps = done ++ t :: rest := by simpa using cut
    refine unmarked_step full (fun c value is => ?_) marks.parsed step errors (ih cut' earlier) name
    exact marks.defaults c value (by simp [cut', is])

include full marks run noErrors in
theorem turn_of_cut {done rest : List ColumnTransform} {t : ColumnTransform} (cut : steps = done ++ t :: rest)
    (before : applyColumnTransforms rt ctx row done = some s) : ∃ s', AtStep rt ctx row done t s s' := by
  have whole := run
  rw [cut, applyColumnTransforms_append, before, Option.bind_some, List.foldlM_cons] at whole
  obtain ⟨s', step, -⟩ := Option.bind_eq_some_iff.mp whole
  have after : applyColumnTransforms rt ctx row (done ++ [t]) = some s' := by
    rw [applyColumnTransforms_snoc, before, Option.bind_some, step]
  exact ⟨s', before, step, errors_of_run run noErrors (by simp [cut] : steps = (done ++ [t]) ++ rest) after,
    unmarked_run full marks run noErrors cut before⟩

include full marks run noErrors in
/-- **Along the way of a column's value**: what each step on the way keeps of the value, and of the steps
that are left, is so of the column in the end. -/
theorem flows {c : String} (lands : Along rt ctx row steps c fun t s _ => Lands ctx s t)
    {I : List ColumnTransform → Option Value → Prop}
    (turns : ∀ done t rest s s', steps = done ++ t :: rest → t.computes = false →
      (lineage rest c).origin = .column t.column → AtStep rt ctx row done t s s' → Lands ctx s t →
      I (t :: (lineage rest c).through) (s.row t.column) → I (lineage rest c).through (s'.row t.column))
    {done rest : List ColumnTransform} {x : String} (cut : steps = done ++ rest)
    (before : applyColumnTransforms rt ctx row done = some s) (from_ : (lineage rest c).origin = .column x)
    (holds : I (lineage rest c).through (s.row x)) : I [] (last.row c) := by
  induction rest generalizing done s x with
  | nil =>
    rw [List.append_nil] at cut
    subst cut
    obtain rfl := Option.some.inj (before.symm.trans run)
    obtain rfl := Origin.column.inj from_
    exact holds
  | cons t rest ih =>
    obtain ⟨s', turn⟩ := turn_of_cut full marks run noErrors cut before
    have cut' : steps = (done ++ [t]) ++ rest := by simp [cut]
    rw [lineage_cons] at from_ holds
    cases began : (lineage rest c).origin with
    | built =>
      rw [behind_built began, began] at from_
      cases from_
    | column y =>
      by_cases own : y = t.column
      · subst own
        have here := lands done t rest cut began s before
        by_cases computes : t.computes = true
        · obtain ⟨y, template, rfl⟩ : ∃ y template, t = .set y template := by
            cases t with
            | set y template => exact ⟨y, template, rfl⟩
            | _ => cases computes
          have at_ : (lineage rest c).origin = .column y := began
          rw [behind_set at_] at from_ holds
          cases copy : copies template with
          | none =>
            rw [copy] at from_
            cases from_
          | some z =>
            rw [copy] at from_
            obtain rfl := Origin.column.inj from_
            have same := copy_own full turn.step turn.sent here copy
            exact ih cut' turn.after began (same ▸ holds)
        · have plain : t.computes = false := Bool.eq_false_iff.mpr computes
          rw [behind_own began plain] at from_ holds
          obtain rfl := Origin.column.inj (began.symm.trans from_)
          exact ih cut' turn.after began (turns done t rest s s' cut plain began turn here holds)
      · rw [behind_other began own] at from_ holds
        obtain rfl := Origin.column.inj (began.symm.trans from_)
        exact ih cut' turn.after began ((applyTransform_other own turn.step) ▸ holds)

include full marks run noErrors in
/-- Where nothing is put in, it stays empty. -/
theorem blank_flows {c : String} (lands : Along rt ctx row steps c fun t s _ => Lands ctx s t)
    {done rest : List ColumnTransform} {x : String} (cut : steps = done ++ rest)
    (before : applyColumnTransforms rt ctx row done = some s) (from_ : (lineage rest c).origin = .column x)
    (blank : Blank (s.row x)) (never : ¬ Refilled (lineage rest c).through) : Blank (last.row c) := by
  refine (flows full marks run noErrors lands (I := fun after own => Blank own ∧ ¬ Refilled after) ?_ cut
    before from_ ⟨blank, never⟩).1
  rintro done t rest s s' - plain - turn - ⟨blank, never⟩
  have idle : t.adds = false := by
    cases t with
    | default c value => exact absurd ⟨_, List.mem_cons_self, rfl⟩ never
    | set => cases plain
    | _ => rfl
  rw [plain_blank turn.step idle blank]
  exact ⟨blank, fun ⟨t, mem, is⟩ => never ⟨t, List.mem_cons_of_mem _ mem, is⟩⟩

include full marks run noErrors in
/-- Where no other type is given, only the text steps change it. -/
theorem settled_flows {c : String} (lands : Along rt ctx row steps c fun t s _ => Lands ctx s t)
    {done rest : List ColumnTransform} {x : String} (cut : steps = done ++ rest)
    (before : applyColumnTransforms rt ctx row done = some s) (from_ : (lineage rest c).origin = .column x)
    {v : Value} (there : s.row x = some v) (given : Given v) (settled : Settled (lineage rest c).through) :
    last.row c = some (texted rt (lineage rest c).through v) := by
  have arrived : ∃ w, last.row c = some w ∧ Given w ∧ Settled [] ∧
      texted rt [] w = texted rt (lineage rest c).through v := by
    refine flows full marks run noErrors lands
      (I := fun after own => ∃ w, own = some w ∧ Given w ∧ Settled after ∧
        texted rt after w = texted rt (lineage rest c).through v) ?_ cut before from_
      ⟨v, there, given, settled, rfl⟩
    rintro done t rest s s' - - - turn - ⟨w, there, given, settled, same⟩
    rw [Settled, List.forall_mem_cons] at settled
    cases t with
    | text c op => exact ⟨_, text_own turn.step there, given_lettered given, settled.2, same⟩
    | default c value => exact ⟨_, default_there turn.step there given, given, settled.2, same⟩
    | _ => cases settled.1
  obtain ⟨w, is, -, -, same⟩ := arrived
  rw [is, ← same]
  rfl

end Run

end

end Syncle.Shape
