import Mathlib.Data.Set.Basic
import Syncle.Builder.Mapping

/-!
# Filters, through the builder

A filter is a condition on a column, and the conditions of a bridge hold together, in whatever order
(`Condition`). The builder keeps the first `in` as the selected rows, writes a condition with a text,
a number or a boolean out as a text and reads that back, and keeps any other as it is. That leaves
the conditions what they were exactly where each is kept (`conditions_kept_iff`).
-/

namespace Syncle.Builder

open Lib Js
open Shape (ColumnTransform)

/-! ## Texts -/

theorem trim_trim (text : String) : trim (trim text) = trim text := by
  rw [trim, trim, String.toList_ofList, Js.trim_trim]

section Words

variable {word : List Char}

theorem wordsFrom_append (word : List Char) {letters : List Char}
    (plain : ∀ c ∈ letters, isSpace c.toNat = false) (rest : List Char) :
    wordsFrom word (letters ++ rest) = wordsFrom (word ++ letters) rest := by
  induction letters generalizing word with
  | nil => simp
  | cons c letters ih =>
    rw [List.forall_mem_cons] at plain
    rw [List.cons_append, wordsFrom, if_neg (by simp [plain.1]), ih _ plain.2, List.append_assoc]
    rfl

/-- A word is letters without blanks. -/
def Word (letters : List Char) : Prop := letters ≠ [] ∧ ∀ c ∈ letters, isSpace c.toNat = false

theorem word_of_mem_wordsFrom {line : List Char} (plain : ∀ c ∈ word, isSpace c.toNat = false)
    {w : List Char} (mem : w ∈ wordsFrom word line) : Word w := by
  induction line generalizing word with
  | nil =>
    rw [wordsFrom] at mem
    split at mem
    · cases mem
    · rename_i some_
      obtain rfl := List.mem_singleton.mp mem
      exact ⟨some_, plain⟩
  | cons c line ih =>
    rw [wordsFrom] at mem
    split at mem
    · split at mem
      · exact ih (by simp) mem
      · rename_i some_
        rcases List.mem_cons.mp mem with rfl | mem
        · exact ⟨some_, plain⟩
        · exact ih (by simp) mem
    · rename_i letter
      refine ih ?_ mem
      intro c' there
      rcases List.mem_append.mp there with there | there
      · exact plain c' there
      · obtain rfl := List.mem_singleton.mp there
        simpa using letter

theorem words_join {ws : List (List Char)} (each : ∀ w ∈ ws, Word w) : words ([' '].intercalate ws) = ws := by
  induction ws with
  | nil => rfl
  | cons w ws ih =>
    rw [List.forall_mem_cons] at each
    cases ws with
    | nil =>
      have alone := wordsFrom_append [] each.1.2 []
      rw [List.append_nil] at alone
      simp only [List.intercalate_singleton, words]
      rw [alone, List.nil_append, wordsFrom, if_neg each.1.1]
    | cons w' ws =>
      have blank : isSpace ' '.toNat = true := by decide
      rw [List.intercalate_cons_cons, words, List.append_assoc, wordsFrom_append [] each.1.2, List.nil_append,
        List.singleton_append, wordsFrom, if_pos blank, if_neg each.1.1]
      exact congrArg (w :: ·) (ih each.2)

/-- Blanks around a line are in none of its words. -/
theorem wordsFrom_blank {c : Char} (blank : isSpace c.toNat = true) (line : List Char) :
    wordsFrom word (line ++ [c]) = wordsFrom word line := by
  induction line generalizing word with
  | nil => simp [wordsFrom, blank]
  | cons a line ih => simp only [List.cons_append, wordsFrom, ih]

theorem words_dropWhile (line : List Char) :
    words (line.dropWhile fun c => isSpace c.toNat) = words line := by
  induction line with
  | nil => rfl
  | cons c line ih =>
    cases blank : isSpace c.toNat with
    | false => rw [List.dropWhile_cons_of_neg (by simp [blank])]
    | true =>
      rw [List.dropWhile_cons_of_pos (by simpa using blank), ih, words, words, wordsFrom, if_pos blank, if_pos rfl]

theorem words_trim (line : List Char) : words (Js.trim line) = words line := by
  have behind (text : List Char) :
      words (text.reverse.dropWhile fun c => isSpace c.toNat).reverse = words text := by
    induction text using List.reverseRecOn with
    | nil => rfl
    | append_singleton text c ih =>
      rw [List.reverse_append, List.reverse_singleton, List.singleton_append]
      cases blank : isSpace c.toNat with
      | false => rw [List.dropWhile_cons_of_neg (by simp [blank])]; simp
      | true => rw [List.dropWhile_cons_of_pos (by simpa using blank), ih, words, words, wordsFrom_blank blank]
  rw [Js.trim, behind, words_dropWhile]

end Words

/-- A cron line has one spelling. -/
theorem oneSpelling_oneSpelling (cron : String) : oneSpelling (oneSpelling cron) = oneSpelling cron := by
  have each : ∀ w ∈ words cron.toList, Word w := fun w mem => word_of_mem_wordsFrom (by simp) mem
  rw [oneSpelling, oneSpelling, String.toList_ofList, words_trim, words_trim, words_join each]

/-! ## Values that are written out and read back -/

section Values

variable (rt : FormRuntime)

def numeric (columnType : Option String) : Prop := columnType = some "number" ∨ columnType = some "bigint"

/-- What may become of a text. -/
theorem coerce_cases (text : String) (columnType : Option String) :
    coerceFilterValue rt text columnType = .string text ∨
      coerceFilterValue rt text columnType = .string (trim text) ∧
        coerceFilterValue rt (trim text) columnType = .string (trim text) ∨
      (∃ n, coerceFilterValue rt text columnType = .number n ∧ numeric columnType ∧
        Number.isFinite n = true ∧ rt.numberOf (trim text) = n) ∨
      ∃ b, coerceFilterValue rt text columnType = .bool b ∧ columnType = some "boolean" := by
  unfold coerceFilterValue
  simp only [trim_trim]
  split
  · rename_i number
    split
    · exact Or.inr (Or.inr (Or.inl ⟨_, rfl, number.1, number.2.2, rfl⟩))
    · exact Or.inr (Or.inl ⟨rfl, rfl⟩)
  · split
    · rename_i boolean
      exact Or.inr (Or.inr (Or.inr ⟨_, rfl, boolean.1⟩))
    · exact Or.inl rfl

/-- The text of a number is read as that number, or stays a text. -/
theorem spell_coerce_numberText {n : Number} {text : String} (is : rt.numberOf text = n)
    (finite : Number.isFinite n = true) {columnType : Option String} (column : numeric columnType) :
    rt.spell (coerceFilterValue rt (rt.numberText n) columnType) = rt.numberText n := by
  have back : rt.numberText (rt.numberOf (rt.numberText n)) = rt.numberText n ∧
      Number.isFinite (rt.numberOf (rt.numberText n)) = true := by
    cases n with
    | finite q => exact ⟨by rw [rt.numberOf_numberText text q is], by rw [rt.numberOf_numberText text q is]; rfl⟩
    | negativeZero => exact ⟨by rw [rt.numberText_zero, rt.numberOf_zero], by rw [rt.numberText_zero, rt.numberOf_zero]; rfl⟩
    | nan => cases finite
    | infinity negative => cases finite
  unfold coerceFilterValue
  simp only [rt.numberText_trim]
  rw [if_pos ⟨column, rt.numberText_ne n, back.2⟩]
  split
  · exact back.1
  · rfl

theorem coerce_bool (b : Bool) : coerceFilterValue rt (toString b) (some "boolean") = .bool b := by
  cases b <;> rfl

/-- Once it has been read, a value is written out as the same text for good. -/
theorem spell_coerce_spell (text : String) (columnType : Option String) :
    rt.spell (coerceFilterValue rt (rt.spell (coerceFilterValue rt text columnType)) columnType) =
      rt.spell (coerceFilterValue rt text columnType) := by
  obtain is | ⟨is, again⟩ | ⟨n, is, column, finite, read⟩ | ⟨b, is, rfl⟩ := coerce_cases rt text columnType
  · simp only [is, FormRuntime.spell]
  · simp only [is, again, FormRuntime.spell]
  · simp only [is]
    exact spell_coerce_numberText rt read finite column
  · rw [is]
    exact congrArg rt.spell (coerce_bool rt b)

end Values

/-! ## Conditions -/

/-- What a condition compares a column with. -/
inductive Comparand where
  | nothing
  /-- a pattern is the text of its value -/
  | text (s : String)
  | oneOf (values : Set Value)
  | value (v : Value)

structure Condition where
  column : String
  operator : FilterOperator
  comparand : Comparand

variable (rt : FormRuntime)

/-- Does it look for a text within the column's? -/
def isPattern : FilterOperator → Bool
  | .contains | .startsWith | .endsWith => true
  | _ => false

/-- `String(f.value ?? '')` -/
def patternText : Value → String
  | .undefined | .null => ""
  | v => rt.spell v

/-- The condition of a filter. An `in` of what is no list is an `in` of nothing. -/
def condition (f : FilterSpec) : Condition where
  column := f.column
  operator := f.operator
  comparand :=
    if valueless f.operator then .nothing
    else if isPattern f.operator then .text (patternText rt f.value)
    else if f.operator = .oneOf then
      match f.value with
      | .array items => .oneOf {v | v ∈ itemList items}
      | _ => .oneOf ∅
    else .value f.value

variable (ctx : BuildInputContext)

/-- What the form makes of a condition it has a row for. -/
def refiled (c : Condition) : Condition :=
  { c with comparand := match c.comparand with
      | .text s => .text (rt.spell (coerceFilterValue rt s (ctx.columnTypes c.column)))
      | .value v => .value (coerceFilterValue rt (rt.spell v) (ctx.columnTypes c.column))
      | other => other }

/-- Once refiled, it stays. -/
theorem refiled_refiled_refiled (c : Condition) :
    refiled rt ctx (refiled rt ctx (refiled rt ctx c)) = refiled rt ctx (refiled rt ctx c) := by
  obtain ⟨column, operator, comparand⟩ := c
  cases comparand with
  | text s => simp only [refiled, spell_coerce_spell]
  | value v => simp only [refiled, spell_coerce_spell]
  | nothing => rfl
  | oneOf values => rfl

/-- The filter is written out and read back. -/
def saved (f : FilterSpec) : Option FilterSpec := buildFilter rt ctx (loadFilter rt f)

theorem condition_of_saved {f g : FilterSpec} (row : editable f = true) (is : saved rt ctx f = some g) :
    condition rt g = refiled rt ctx (condition rt f) := by
  obtain ⟨column, operator, value⟩ := f
  simp only [editable, Bool.and_eq_true, Bool.or_eq_true, decide_eq_true_eq] at row
  unfold saved buildFilter loadFilter at is
  simp only at is
  split at is
  · cases is
  · cases blank : valueless operator with
    | true =>
      simp only [blank, if_true] at is
      obtain rfl := Option.some.inj is
      simp [condition, refiled, blank]
    | false =>
      simp only [blank, Bool.false_eq_true, if_false] at is
      split at is
      · obtain rfl := Option.some.inj is
        simp only [condition, refiled, blank, Bool.false_eq_true, if_false, if_neg row.1]
        cases pattern : isPattern operator with
        | false => simp
        | true =>
          have typed_ : typed value = true := by simpa [blank] using row.2
          have same : ∀ text ty, patternText rt (coerceFilterValue rt text ty) =
              rt.spell (coerceFilterValue rt text ty) := by
            intro text ty
            obtain is | ⟨is, -⟩ | ⟨n, is, -⟩ | ⟨b, is, -⟩ := coerce_cases rt text ty <;> rw [is] <;> rfl
          have here : patternText rt value = rt.spell value := by
            cases value <;> first | rfl | cases typed_
          simp [same, here]
      · cases is

/-! ## The conditions a form has a row for -/

/-- What settles in two steps is settled, where each comes from another. -/
theorem fixed_of_perm_map {α : Type*} {f : α → α} (settles : ∀ x, f (f (f x)) = f (f x)) {l : List α}
    (perm : l.Perm (l.map f)) {x : α} (mem : x ∈ l) : f x = x := by
  obtain ⟨y, there, rfl⟩ := List.mem_map.mp (perm.subset mem)
  obtain ⟨z, -, rfl⟩ := List.mem_map.mp (perm.subset there)
  exact settles z

/-- What a condition compares with is what its text is read as, in a column of that type. -/
def ReadBack (columnType : Option String) : Comparand → Prop
  | .text s => rt.spell (coerceFilterValue rt s columnType) = s
  | .value v => coerceFilterValue rt (rt.spell v) columnType = v
  | .nothing | .oneOf _ => True

/-- The form keeps a condition it has a row for: it names a column, it compares with something, and
that is what is read back. -/
structure FilterKept (f : FilterSpec) : Prop where
  named : f.column ≠ ""
  compares : valueless f.operator = false → trim (rt.spell f.value) ≠ ""
  readBack : ReadBack rt (ctx.columnTypes f.column) (condition rt f).comparand

theorem refiled_eq_self {c : Condition} :
    refiled rt ctx c = c ↔ ReadBack rt (ctx.columnTypes c.column) c.comparand := by
  obtain ⟨column, operator, comparand⟩ := c
  cases comparand <;> simp [refiled, ReadBack]

theorem saved_isSome {f : FilterSpec} :
    (saved rt ctx f).isSome = true ↔
      f.column ≠ "" ∧ (valueless f.operator = false → trim (rt.spell f.value) ≠ "") := by
  obtain ⟨column, operator, value⟩ := f
  unfold saved buildFilter loadFilter
  by_cases named : column = ""
  · simp [named]
  · cases blank : valueless operator with
    | true => simp [named]
    | false =>
      by_cases compares : trim (rt.spell value) = ""
      · simp [named, compares]
      · simp [named, compares]

variable {rt ctx}

/-- Rows of the form, kept or not. -/
theorem rows_kept_iff {rows : List FilterSpec} (each : ∀ f ∈ rows, editable f = true) :
    (rows.map (condition rt)).Perm ((rows.filterMap (saved rt ctx)).map (condition rt)) ↔
      ∀ f ∈ rows, FilterKept rt ctx f := by
  have whole (some_ : ∀ f ∈ rows, (saved rt ctx f).isSome = true) :
      (rows.filterMap (saved rt ctx)).map (condition rt) = (rows.map (condition rt)).map (refiled rt ctx) := by
    induction rows with
    | nil => rfl
    | cons f rows ih =>
      rw [List.forall_mem_cons] at each some_
      obtain ⟨g, is⟩ := Option.isSome_iff_exists.mp some_.1
      rw [List.filterMap_cons_some is, List.map_cons, List.map_cons, List.map_cons, ih each.2 some_.2,
        condition_of_saved rt ctx each.1 is]
  constructor
  · intro perm
    have some_ : ∀ f ∈ rows, (saved rt ctx f).isSome = true := by
      have length := perm.length_eq
      rw [List.length_map, List.length_map] at length
      exact List.filterMap_length_eq_length.mp length.symm
    rw [whole some_] at perm
    intro f mem
    obtain ⟨named, compares⟩ := (saved_isSome rt ctx).mp (some_ f mem)
    have fixed := fixed_of_perm_map (refiled_refiled_refiled rt ctx) perm (List.mem_map_of_mem mem)
    exact ⟨named, compares, (refiled_eq_self rt ctx).mp fixed⟩
  · intro kept
    have some_ : ∀ f ∈ rows, (saved rt ctx f).isSome = true := fun f mem =>
      (saved_isSome rt ctx).mpr ⟨(kept f mem).named, (kept f mem).compares⟩
    have same : (rows.map (condition rt)).map (refiled rt ctx) = rows.map (condition rt) := by
      rw [List.map_map]
      exact List.map_congr_left fun f mem => (refiled_eq_self rt ctx).mpr (kept f mem).readBack
    rw [whole some_, same]

/-! ## The selected rows -/

theorem itemList_itemsOf (values : List Value) : itemList (itemsOf values) = values := by
  induction values with
  | nil => rfl
  | cons v values ih => exact congrArg (v :: ·) ih

/-- Values that are written alike are one value. -/
def SpelledApart (rt : FormRuntime) (values : List Value) : Prop :=
  ∀ v ∈ values, ∀ w ∈ values, rt.spell v = rt.spell w → v = w

/-- The values of the keys are those of the list, if no two are written alike. -/
theorem keys_eq_iff (values : List Value) :
    {v | v ∈ (OrderedMap.empty.setAll (values.map fun v => (rt.spell v, v))).values} = {v | v ∈ values} ↔
      SpelledApart rt values := by
  have entry (k : String) (v : Value) : (k, v) ∈ values.map (fun v => (rt.spell v, v)) ↔ v ∈ values ∧ rt.spell v = k := by
    simp only [List.mem_map, Prod.mk.injEq]
    constructor
    · rintro ⟨w, mem, rfl, rfl⟩
      exact ⟨mem, rfl⟩
    · rintro ⟨mem, rfl⟩
      exact ⟨v, mem, rfl, rfl⟩
  have mem_values (m : OrderedMap String Value) (v : Value) : v ∈ m.values ↔ ∃ k, m.get? k = some v := by
    rw [OrderedMap.values_eq, List.mem_filterMap]
    constructor
    · rintro ⟨k, -, is⟩
      exact ⟨k, is⟩
    · rintro ⟨k, is⟩
      refine ⟨k, ?_, is⟩
      by_contra absent
      rw [OrderedMap.get?_eq_none.mpr absent] at is
      cases is
  constructor
  · intro same v mem w there alike
    have each : ∀ v, v ∈ (OrderedMap.empty.setAll (values.map fun v => (rt.spell v, v))).values ↔ v ∈ values :=
      fun v => Set.ext_iff.mp same v
    obtain ⟨k, is⟩ := (mem_values _ v).mp ((each v).mpr mem)
    obtain ⟨l, was⟩ := (mem_values _ w).mp ((each w).mpr there)
    obtain ⟨-, rfl⟩ := (entry k v).mp (OrderedMap.of_get?_setAll is)
    obtain ⟨-, rfl⟩ := (entry l w).mp (OrderedMap.of_get?_setAll was)
    rw [alike, was] at is
    exact (Option.some.inj is).symm
  · intro apart
    ext v
    constructor
    · intro mem
      obtain ⟨k, is⟩ := (mem_values _ v).mp mem
      exact ((entry k v).mp (OrderedMap.of_get?_setAll is)).1
    · intro mem
      refine (mem_values _ v).mpr ⟨rt.spell v, OrderedMap.get?_setAll_of_same ((entry _ v).mpr ⟨mem, rfl⟩) ?_⟩
      intro w there
      obtain ⟨here, alike⟩ := (entry _ w).mp there
      exact apart w here v mem alike

/-- The first `in` is of values that are written apart, and on the table's only key column. -/
def SelectionKept (rt : FormRuntime) (ctx : BuildInputContext) (filters : List FilterSpec) : Prop :=
  ∀ f, filters.find? isIn = some f →
    ctx.singlePk = some f.column ∧ ∃ items, f.value = .array items ∧ SpelledApart rt (itemList items)

/-- The row selection that is saved. -/
def selection (rt : FormRuntime) (ctx : BuildInputContext) (filters : List FilterSpec) : List FilterSpec :=
  match loadKeys rt filters, ctx.singlePk with
  | some keys, some pk => [{ column := pk, operator := .oneOf, value := .array (itemsOf keys.values) }]
  | _, _ => []

theorem selection_kept_iff (filters : List FilterSpec) :
    ((filters.find? isIn).toList.map (condition rt)).Perm ((selection rt ctx filters).map (condition rt)) ↔
      SelectionKept rt ctx filters := by
  unfold SelectionKept selection loadKeys
  cases first : filters.find? isIn with
  | none => simp
  | some f =>
    obtain ⟨column, operator, value⟩ := f
    have isOneOf : operator = .oneOf := by simpa [isIn] using List.find?_some first
    subst isOneOf
    have alone (pk : String) (items : Items) :
        (condition rt ⟨column, .oneOf, .array items⟩ = condition rt
          ⟨pk, .oneOf, .array (itemsOf (OrderedMap.empty.setAll ((itemList items).map fun v => (rt.spell v, v))).values)⟩) ↔
        pk = column ∧ SpelledApart rt (itemList items) := by
      rw [← keys_eq_iff]
      simp only [condition, valueless, isPattern, Bool.false_eq_true, if_false, if_true, Condition.mk.injEq,
        Comparand.oneOf.injEq, true_and, itemList_itemsOf]
      exact ⟨fun is => ⟨is.1.symm, is.2.symm⟩, fun is => ⟨is.1.symm, is.2.symm⟩⟩
    cases key : ctx.singlePk with
    | none => cases value <;> simp
    | some pk =>
      cases value with
      | array items => simpa using alone pk items
      | _ => simp

/-! ## All of them -/

/-- The filters that are saved. -/
def refiledFilters (rt : FormRuntime) (ctx : BuildInputContext) (filters : List FilterSpec) : List FilterSpec :=
  let others := filters.eraseP isIn
  selection rt ctx filters ++ (others.filter editable).filterMap (saved rt ctx) ++
    others.filter fun f => !editable f

/-- The conditions are what they were, in whatever order. -/
def SameConditions (rt : FormRuntime) (a b : List FilterSpec) : Prop :=
  (a.map (condition rt)).Perm (b.map (condition rt))

theorem perm_first (filters : List FilterSpec) :
    filters.Perm ((filters.find? isIn).toList ++ filters.eraseP isIn) := by
  induction filters with
  | nil => rfl
  | cons f filters ih =>
    cases here : isIn f with
    | true => simp [here]
    | false =>
      rw [List.find?_cons_of_neg (by simp [here]), List.eraseP_cons_of_neg (by simp [here])]
      exact (ih.cons f).trans List.perm_middle.symm

/-- Lists of which one kind is apart from the other are the same kind by kind. -/
theorem perm_append_iff_of_apart {α : Type*} {p : α → Bool} {a a' b b' : List α} (ha : ∀ x ∈ a, p x = true)
    (ha' : ∀ x ∈ a', p x = true) (hb : ∀ x ∈ b, p x = false) (hb' : ∀ x ∈ b', p x = false) :
    (a ++ b).Perm (a' ++ b') ↔ a.Perm a' ∧ b.Perm b' := by
  have kind {a b : List α} (ha : ∀ x ∈ a, p x = true) (hb : ∀ x ∈ b, p x = false) :
      (a ++ b).filter p = a ∧ (a ++ b).filter (fun x => !p x) = b := by
    constructor
    · rw [List.filter_append, List.filter_eq_self.mpr ha, List.filter_eq_nil_iff.mpr (by simpa using hb),
        List.append_nil]
    · rw [List.filter_append, List.filter_eq_nil_iff.mpr (by simpa using ha),
        List.filter_eq_self.mpr (by simpa using hb), List.nil_append]
  constructor
  · intro perm
    have first := perm.filter p
    have second := perm.filter fun x => !p x
    rw [(kind ha hb).1, (kind ha' hb').1] at first
    rw [(kind ha hb).2, (kind ha' hb').2] at second
    exact ⟨first, second⟩
  · rintro ⟨first, second⟩
    exact first.append second

theorem isIn_of_saved {f g : FilterSpec} (is : saved rt ctx f = some g) : isIn g = isIn f := by
  obtain ⟨column, operator, value⟩ := f
  unfold saved buildFilter loadFilter at is
  simp only at is
  split at is
  · cases is
  · split at is
    · obtain rfl := Option.some.inj is
      rfl
    · split at is
      · obtain rfl := Option.some.inj is
        rfl
      · cases is

/-- **The conditions of a bridge are kept** exactly where each is. -/
theorem conditions_kept_iff (filters : List FilterSpec) :
    SameConditions rt filters (refiledFilters rt ctx filters) ↔
      SelectionKept rt ctx filters ∧
        ∀ f ∈ filters.eraseP isIn, editable f = true → FilterKept rt ctx f := by
  have rows : (∀ f ∈ filters.eraseP isIn, editable f = true → FilterKept rt ctx f) ↔
      (((filters.eraseP isIn).filter editable).map (condition rt)).Perm
        ((((filters.eraseP isIn).filter editable).filterMap (saved rt ctx)).map (condition rt)) := by
    rw [rows_kept_iff fun f mem => (List.mem_filter.mp mem).2]
    simp only [List.mem_filter, and_imp]
  -- a row of the form is no `in`, and the selection is one
  have noIn : ∀ f ∈ (filters.eraseP isIn).filter editable, isIn f = false := by
    intro f mem
    have row := (List.mem_filter.mp mem).2
    simp only [editable, Bool.and_eq_true, decide_eq_true_eq] at row
    simpa [isIn] using row.1
  have noInSaved : ∀ g ∈ ((filters.eraseP isIn).filter editable).filterMap (saved rt ctx), isIn g = false := by
    intro g mem
    obtain ⟨f, there, is⟩ := List.mem_filterMap.mp mem
    rw [isIn_of_saved is]
    exact noIn f there
  have first : ∀ f ∈ (filters.find? isIn).toList, isIn f = true := by
    intro f mem
    exact List.find?_some (Option.mem_toList.mp mem)
  have selected : ∀ f ∈ selection rt ctx filters, isIn f = true := by
    intro f mem
    unfold selection at mem
    split at mem
    · obtain rfl := List.mem_singleton.mp mem
      rfl
    · cases mem
  have whole : filters.Perm ((filters.find? isIn).toList ++ (filters.eraseP isIn).filter editable ++
      (filters.eraseP isIn).filter fun f => !editable f) := by
    refine (perm_first filters).trans ?_
    rw [List.append_assoc]
    exact (List.filter_append_perm editable _).symm.append_left _
  have kinds (list : List FilterSpec) (kind : Bool) (each : ∀ f ∈ list, isIn f = kind) :
      ∀ c ∈ list.map (condition rt), decide (c.operator = .oneOf) = kind := by
    intro c mem
    obtain ⟨f, there, rfl⟩ := List.mem_map.mp mem
    exact each f there
  rw [rows, ← selection_kept_iff, SameConditions,
    ← perm_append_iff_of_apart (kinds _ _ first) (kinds _ _ selected) (kinds _ _ noIn) (kinds _ _ noInSaved),
    refiledFilters, List.map_append, List.map_append]
  constructor
  · intro perm
    have cancelled := (whole.map (condition rt)).symm.trans perm
    rw [List.map_append, List.map_append] at cancelled
    exact (List.perm_append_right_iff _).mp cancelled
  · intro perm
    refine (whole.map (condition rt)).trans ?_
    rw [List.map_append, List.map_append]
    exact perm.append_right _

end Syncle.Builder
