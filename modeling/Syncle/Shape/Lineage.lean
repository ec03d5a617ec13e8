import Syncle.Shape.TargetColumns

/-!
# Where a column comes from

Read from behind, the steps lead from a column to where its value began: to a column of the row, or to
a text that was built of a template. On the way are the steps that the value went through, on its own
column and on those it was copied from (`lineage`).

The plan is made from the front, without a row. It gives a column the type that the last step on the
way gave it, and where none did, it takes the column for a copy of the one its value began in
(`plan_of_type`, `plan_of_column`). So of the types the plan is right about copies. Of what can be
empty it is not: only the steps on the column itself are asked for that, not those on the way.
-/

namespace Syncle.Shape

open Lib Js

/-! ## The way of a value -/

inductive Origin where
  | column (name : String)
  /-- the text of a template -/
  | built
  deriving DecidableEq

structure Lineage where
  origin : Origin
  /-- the steps it went through, the first one first -/
  through : List ColumnTransform
  deriving DecidableEq

/-- The column that a template copies: the name it consists of, if it is not one of the scope's own. -/
def copies (template : String) : Option String :=
  (wholeToken template).filter fun origin => origin.toList.head? ≠ some '$'

/-- One step further back. -/
def Lineage.behind (t : ColumnTransform) (l : Lineage) : Lineage :=
  match l.origin with
  | .built => l
  | .column x =>
    if x = t.column then
      match t with
      | .set _ template =>
        match copies template with
        | some y => { l with origin := .column y }
        | none => { l with origin := .built }
      | t => { l with through := t :: l.through }
    else l

/-- **The way of a column's value** through some steps. -/
def lineage (steps : List ColumnTransform) (c : String) : Lineage :=
  steps.foldr Lineage.behind { origin := .column c, through := [] }

@[simp] theorem lineage_nil (c : String) : lineage [] c = { origin := .column c, through := [] } := rfl

@[simp] theorem lineage_cons (t : ColumnTransform) (rest : List ColumnTransform) (c : String) :
    lineage (t :: rest) c = (lineage rest c).behind t := rfl

section Behind

variable {t : ColumnTransform} {l : Lineage} {x : String}

theorem behind_built (built : l.origin = .built) : l.behind t = l := by
  unfold Lineage.behind
  rw [built]

theorem behind_other (from_ : l.origin = .column x) (other : x ≠ t.column) : l.behind t = l := by
  simp only [Lineage.behind, from_, if_neg other]

theorem behind_set {c template : String} (from_ : l.origin = .column c) :
    l.behind (.set c template) =
      { l with origin := ((copies template).map Origin.column).getD .built } := by
  simp only [Lineage.behind, from_, ColumnTransform.column, if_true]
  cases copies template <;> rfl

theorem behind_own (from_ : l.origin = .column t.column) (plain : t.computes = false) :
    l.behind t = { l with through := t :: l.through } := by
  simp only [Lineage.behind, from_, if_true]
  cases t with
  | set c template => cases plain
  | _ => rfl

end Behind

/-- What comes before a way that began in a column is the way of that column. -/
theorem foldr_behind (steps : List ColumnTransform) {l : Lineage} {x : String}
    (from_ : l.origin = .column x) :
    steps.foldr Lineage.behind l =
      { origin := (lineage steps x).origin, through := (lineage steps x).through ++ l.through } := by
  induction steps with
  | nil => cases l; cases from_; rfl
  | cons t steps ih =>
    rw [List.foldr_cons, ih, lineage_cons]
    generalize lineage steps x = m
    cases began : m.origin with
    | built => rw [behind_built rfl, behind_built began, began]
    | column y =>
      by_cases own : y = t.column
      · subst own
        cases t with
        | set c template =>
          have at_ : m.origin = .column c := began
          rw [behind_set at_, behind_set (c := c) rfl]
        | _ =>
          rw [behind_own began rfl, behind_own rfl rfl]
          simp [began]
      · rw [behind_other began own, behind_other rfl own, began]

theorem foldr_behind_built (steps : List ColumnTransform) {l : Lineage} (built : l.origin = .built) :
    steps.foldr Lineage.behind l = l := by
  induction steps with
  | nil => rfl
  | cons t steps ih => rw [List.foldr_cons, ih, behind_built built]

theorem lineage_append (done rest : List ColumnTransform) (c : String) :
    lineage (done ++ rest) c = done.foldr Lineage.behind (lineage rest c) :=
  List.foldr_append

/-- A way that does not begin in a column begins in a template. -/
theorem built_cut {rest : List ColumnTransform} {c : String} (built : (lineage rest c).origin = .built) :
    ∃ done x template later, rest = done ++ .set x template :: later ∧
      (lineage later c).origin = .column x ∧ copies template = none := by
  induction rest with
  | nil => cases built
  | cons t rest ih =>
    rw [lineage_cons] at built
    cases began : (lineage rest c).origin with
    | built =>
      obtain ⟨done, x, template, later, rfl, found⟩ := ih began
      exact ⟨t :: done, x, template, later, rfl, found⟩
    | column y =>
      by_cases own : y = t.column
      · subst own
        cases t with
        | set x template =>
          have at_ : (lineage rest c).origin = .column x := began
          rw [behind_set at_] at built
          cases copy : copies template with
          | none => exact ⟨[], x, template, rest, rfl, began, copy⟩
          | some z =>
            rw [copy] at built
            cases built
        | _ =>
          rw [behind_own began rfl, began] at built
          cases built
      · rw [behind_other began own, began] at built
        cases built

/-! ## Its type -/

/-- The type a step gives to what goes through it. -/
def gives : ColumnTransform → Option String
  | .mask _ m => if m.mode = .null then none else some "text"
  | .cast _ into _ => some (castType into)
  | .text _ _ | .default _ _ | .set _ _ => none

/-- The type a value has by the steps it went through; none where it is still its first column's. -/
def Lineage.type (l : Lineage) : Option String :=
  l.through.foldl (fun type t => (gives t).or type)
    (match l.origin with
      | .built => some "text"
      | .column _ => none)

theorem type_append (origin : Origin) (through : List ColumnTransform) (t : ColumnTransform) :
    Lineage.type { origin := origin, through := through ++ [t] } =
      (gives t).or (Lineage.type { origin := origin, through := through }) := by
  simp [Lineage.type]

/-- What is only lettered anew, or filled where it is empty, keeps its type. -/
def settles : ColumnTransform → Bool
  | .text _ _ | .default _ _ => true
  | .mask _ _ | .cast _ _ _ | .set _ _ => false

def Settled (after : List ColumnTransform) : Prop := ∀ t ∈ after, settles t = true

theorem gives_of_settles {t : ColumnTransform} (h : settles t = true) : gives t = none := by
  cases t with
  | text | default => rfl
  | _ => cases h

theorem foldl_gives {after : List ColumnTransform} (settled : Settled after) (type : Option String) :
    after.foldl (fun type t => (gives t).or type) type = type := by
  induction after with
  | nil => rfl
  | cons t after ih =>
    rw [Settled, List.forall_mem_cons] at settled
    rw [List.foldl_cons, gives_of_settles settled.1, Option.none_or]
    exact ih settled.2

/-- The last step that gives a type gives it for good. -/
theorem type_of_settled (origin : Origin) (before : List ColumnTransform) {t : ColumnTransform}
    {after : List ColumnTransform} {type : String} (is : gives t = some type) (settled : Settled after) :
    Lineage.type { origin := origin, through := before ++ t :: after } = some type := by
  rw [Lineage.type, List.foldl_append, List.foldl_cons, is, Option.some_or]
  exact foldl_gives settled _

/-! ## What is planned is the way's type -/

/-- The plan of a column whose value comes this way. -/
inductive Plans (c : String) : Lineage → Option Planned → Prop where
  | type {l : Lineage} {type : String} (is : l.type = some type) : Plans c l (some (.type type))
  | copy {l : Lineage} {x : String} (from_ : l.origin = .column x) (is : l.type = none) :
      Plans c l (some (.copyOf x))
  | own {l : Lineage} (from_ : l.origin = .column c) (is : l.type = none) : Plans c l none

/-- A step on the way adds its type, if it gives one. -/
theorem Plans.append {c : String} {l : Lineage} {planned : Option Planned} (h : Plans c l planned)
    (t : ColumnTransform) :
    Plans c { l with through := l.through ++ [t] } (((gives t).map Planned.type).or planned) := by
  have type := type_append l.origin l.through t
  cases given : gives t with
  | some τ =>
    rw [given] at type
    exact .type type
  | none =>
    rw [given, Option.none_or] at type
    cases h with
    | type is => exact .type (type.trans is)
    | copy from_ is => exact .copy from_ (type.trans is)
    | own from_ is => exact .own from_ (type.trans is)

/-- A copy is planned as what its origin is, and its way is its origin's. -/
theorem Plans.copied {c y : String} {l : Lineage} {planned : Option Planned} (h : Plans y l planned) :
    Plans c l (some (planned.getD (.copyOf y))) := by
  cases h with
  | type is => exact .type is
  | copy from_ is => exact .copy from_ is
  | own from_ is => exact .copy from_ is

theorem plannedCopy_eq (planned : String → Option Planned) (template : String) :
    plannedCopy planned template =
      match copies template with
      | some y => (planned y).getD (.copyOf y)
      | none => .type "text" := by
  unfold plannedCopy copies
  cases wholeToken template with
  | none => rfl
  | some y => by_cases scope : y.toList.head? = some '$' <;> simp [scope, Option.filter]

/-- **The plan of a column follows its way.** -/
theorem plans (steps : List ColumnTransform) (c : String) : Plans c (lineage steps c) (plan steps c) := by
  induction steps using List.reverseRecOn generalizing c with
  | nil => exact .own rfl rfl
  | append_singleton steps t ih =>
    rw [lineage_append]
    by_cases other : c = t.column
    · subst other
      by_cases computes : t.computes = true
      · -- the way starts anew at what the template is
        obtain ⟨x, template, rfl⟩ : ∃ x template, t = .set x template := by
          cases t with
          | set x template => exact ⟨x, template, rfl⟩
          | _ => cases computes
        have planned : plan (steps ++ [.set x template]) x = some (plannedCopy (plan steps) template) := by
          rw [plan_append]
          exact Function.update_self ..
        rw [lineage_cons, behind_set rfl, ColumnTransform.column, planned, plannedCopy_eq]
        cases copy : copies template with
        | some y => exact (ih y).copied
        | none =>
          rw [foldr_behind_built steps rfl]
          exact .type rfl
      · have plain : t.computes = false := Bool.eq_false_iff.mpr computes
        have planned : plan (steps ++ [t]) t.column = ((gives t).map Planned.type).or (plan steps t.column) := by
          rw [plan_append]
          cases t with
          | mask x m =>
            by_cases emptied : m.mode = .null
            · simp [planStep, gives, emptied]
            · simp [planStep, gives, emptied, ColumnTransform.column]
          | cast x into onError => simp [planStep, gives, ColumnTransform.column]
          | text x op => rfl
          | default x value => rfl
          | set x template => cases plain
        rw [lineage_cons, behind_own rfl plain, foldr_behind steps rfl, planned]
        exact (ih t.column).append t
    · rw [lineage_cons, behind_other rfl other, plan_other other]
      exact ih c

theorem plan_of_type {steps : List ColumnTransform} {c type : String}
    (is : (lineage steps c).type = some type) : plan steps c = some (.type type) := by
  have planned := plans steps c
  cases plan : plan steps c with
  | none =>
    rw [plan] at planned
    cases planned with
    | own _ none_ => cases is.symm.trans none_
  | some how =>
    rw [plan] at planned
    cases planned with
    | type same => rw [Option.some.inj (same.symm.trans is)]
    | copy _ none_ => cases is.symm.trans none_

/-- The column whose declaration is the plan's: that of the first column, where no step gave a type. -/
theorem plan_of_column {steps : List ColumnTransform} {c x : String}
    (from_ : (lineage steps c).origin = .column x) (is : (lineage steps c).type = none) :
    transformedType steps c = none ∧ (copiedColumn steps c).getD c = x := by
  have planned := plans steps c
  unfold transformedType copiedColumn
  cases plan : plan steps c with
  | none =>
    rw [plan] at planned
    cases planned with
    | own same _ => exact ⟨rfl, Origin.column.inj (same.symm.trans from_)⟩
  | some how =>
    rw [plan] at planned
    cases planned with
    | type some_ => cases is.symm.trans some_
    | copy same _ => exact ⟨rfl, Origin.column.inj (same.symm.trans from_)⟩

end Syncle.Shape
