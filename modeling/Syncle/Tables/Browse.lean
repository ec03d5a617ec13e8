import Mathlib.Data.List.Lex
import Mathlib.Data.Prod.Lex
import Syncle.Lib.Pages
import Syncle.Snapshot.TableOrder

/-!
# A page of a table (`BaseSqlAdapter.browse`)

The statement `browse` makes of what it is asked for, and the page it makes of the answer. The
engine is a parameter: of a statement it is known that it answers with the rows that match, in an
order that the ORDER BY allows, from the OFFSET on and up to the LIMIT. Where two rows are equal in
every sorted column the order allows both ways round, and the engine may take one in one statement
and the other in the next.

A sort is a rank, and the predicate of a page after a tuple selects the rows that rank past it
(`afterClause_iff`); so does a filter on a single key. Where no two rows rank the same there is one
order, and the pages are those of it.
-/

namespace Syncle.Tables

open Lib Snapshot

variable {W : Type*}

/-- A row, by its columns. -/
abbrev Row (W : Type*) := String → W

inductive FilterOperator where
  | eq | neq | lt | lte | gt | gte | contains | startsWith | endsWith | isNull | notNull | in_
  deriving DecidableEq

structure FilterSpec (W : Type*) where
  column : String
  operator : FilterOperator
  value : W
  /-- the values of `in` -/
  values : List W := []

/-- A `SELECT` of the table. -/
structure Select (W : Type*) where
  where_ : Row W → Bool
  sort : List SortSpec
  limit : ℕ
  offset : ℕ

/-- An SQL engine: its NULL, its LIKE, and its answers. -/
structure Engine (W : Type*) where
  null : W
  like : FilterOperator → W → W → Bool
  maxRows : ℕ
  select : List (Row W) → Select W → List (Row W)

structure After (W : Type*) where
  columns : List String
  values : List W

structure BrowseParams (W : Type*) where
  limit : ℕ
  offset : ℕ
  sort : List SortSpec
  filters : List (FilterSpec W)
  after : Option (After W) := none

section Code

variable [LinearOrder W] (engine : Engine W)

/-- A comparison in SQL: with NULL it is not true. -/
def Engine.holds (rel : W → W → Bool) (a b : W) : Bool :=
  decide (a ≠ engine.null) && decide (b ≠ engine.null) && rel a b

/-- `buildWhere`, one filter. -/
def Engine.matches_ (row : Row W) (f : FilterSpec W) : Bool :=
  match f.operator with
  | .isNull => decide (row f.column = engine.null)
  | .notNull => decide (row f.column ≠ engine.null)
  | .eq => engine.holds (fun a b => a = b) (row f.column) f.value
  | .neq => engine.holds (fun a b => a ≠ b) (row f.column) f.value
  | .lt => engine.holds (fun a b => a < b) (row f.column) f.value
  | .lte => engine.holds (fun a b => a ≤ b) (row f.column) f.value
  | .gt => engine.holds (fun a b => b < a) (row f.column) f.value
  | .gte => engine.holds (fun a b => b ≤ a) (row f.column) f.value
  | .in_ => f.values.any fun v => engine.holds (fun a b => a = b) (row f.column) v
  | .contains | .startsWith | .endsWith => engine.like f.operator (row f.column) f.value

/-- `column = ?` -/
def Engine.same (p : SortSpec × W) (row : Row W) : Bool :=
  engine.holds (fun a b => a = b) (row p.1.column) p.2

/-- `column > ?`, or `column < ?` where the column is sorted descending. -/
def Engine.beyond (p : SortSpec × W) (row : Row W) : Bool :=
  match p.1.direction with
  | .asc => engine.holds (fun a b => b < a) (row p.1.column) p.2
  | .desc => engine.holds (fun a b => a < b) (row p.1.column) p.2

/-- `a > ? OR (a = ? AND b > ?) OR (a = ? AND b = ? AND c > ?)` -/
def Engine.afterClause (order : List (SortSpec × W)) (row : Row W) : Bool :=
  order.zipIdx.any fun (p, i) =>
    (order.take i).all (fun q => engine.same q row) && engine.beyond p row

def afterError : String :=
  "A page after a tuple needs the sort to name exactly the columns of the tuple, in its order."

def afterNullError : String :=
  "A page after a tuple cannot start after a NULL: nothing is greater or smaller than one."

/-- `buildAfter` -/
def Engine.buildAfter (after : After W) (sort : List SortSpec) : Except String (Row W → Bool) :=
  if after.columns = [] ∨ after.columns.length ≠ after.values.length ∨
      sort.map (·.column) ≠ after.columns then
    .error afterError
  else if engine.null ∈ after.values then .error afterNullError
  else .ok (engine.afterClause (sort.zip after.values))

/-- `browse`: one row more than the limit is asked for. -/
def Engine.browse (table : List (Row W)) (params : BrowseParams W) : Except String (Page (Row W)) :=
  let limit := min (max params.limit 1) engine.maxRows
  let answer (clause : Row W → Bool) (offset : ℕ) : Page (Row W) :=
    let rows := engine.select table
      { where_ := fun row => params.filters.all (engine.matches_ row) && clause row
        sort := params.sort, limit := limit + 1, offset := offset }
    { rows := if rows.length > limit then rows.take limit else rows
      hasMore := decide (rows.length > limit) }
  match params.after with
  | none => .ok (answer (fun _ => true) params.offset)
  | some after =>
    match engine.buildAfter after params.sort with
    | .error e => .error e
    | .ok clause => .ok (answer clause 0)

end Code

/-! ## The order of a sort -/

section Rank

variable [LinearOrder W] (null : W)

/-- Where a value puts a row in one sorted column. -/
def place (s : SortSpec) (v : W) : W ×ₗ Wᵒᵈ :=
  match s.direction with
  | .asc => toLex (v, OrderDual.toDual null)
  | .desc => toLex (null, OrderDual.toDual v)

def rankOf (sort : List SortSpec) (values : List W) : List (W ×ₗ Wᵒᵈ) :=
  List.zipWith (place null) sort values

/-- The tuple of a row. -/
def tupleOf (sort : List SortSpec) (row : Row W) : List W := sort.map fun s => row s.column

/-- **Where a sort puts a row.** -/
def rank (sort : List SortSpec) (row : Row W) : List (W ×ₗ Wᵒᵈ) :=
  rankOf null sort (tupleOf sort row)

variable {null} {s : SortSpec} {a b : W}

omit [LinearOrder W] in
theorem place_inj : place null s a = place null s b ↔ a = b := by
  unfold place
  cases s.direction with
  | asc => simp
  | desc => simp

theorem place_lt : place null s a < place null s b ↔
    match s.direction with
    | .asc => a < b
    | .desc => b < a := by
  unfold place
  cases s.direction with
  | asc => simp [Prod.Lex.toLex_lt_toLex]
  | desc => simp [Prod.Lex.toLex_lt_toLex]

omit [LinearOrder W] in
/-- Rows with the same tuple rank the same, and only these. -/
theorem rank_inj {sort : List SortSpec} {x y : Row W} :
    rank null sort x = rank null sort y ↔ tupleOf sort x = tupleOf sort y := by
  induction sort with
  | nil => simp [rank, rankOf, tupleOf]
  | cons s sort ih =>
    simp only [rank, rankOf, tupleOf, List.map_cons, List.zipWith_cons_cons, List.cons.injEq,
      place_inj] at ih ⊢
    rw [ih]

end Rank

/-! ## The page after a tuple -/

section Clauses

variable [LinearOrder W] {engine : Engine W}

theorem afterClause_cons (p : SortSpec × W) (order : List (SortSpec × W)) (row : Row W) :
    engine.afterClause (p :: order) row =
      (engine.beyond p row || (engine.same p row && engine.afterClause order row)) := by
  have shifted : order.zipIdx 1 = order.zipIdx.map fun (q, i) => (q, i + 1) := by
    rw [show (1 : ℕ) = 0 + 1 from rfl, List.zipIdx_succ]
  have inner : ((order.zipIdx 1).any fun (q, i) =>
      ((p :: order).take i).all (fun r => engine.same r row) && engine.beyond q row) =
      (engine.same p row && engine.afterClause order row) := by
    rw [shifted, List.any_map, Engine.afterClause, Bool.eq_iff_iff]
    simp only [List.any_eq_true, Bool.and_eq_true, Function.comp_apply, List.take_succ_cons,
      List.all_cons]
    constructor
    · rintro ⟨q, mem, ⟨same, rest⟩, beyond⟩
      exact ⟨same, q, mem, rest, beyond⟩
    · rintro ⟨same, q, mem, rest, beyond⟩
      exact ⟨q, mem, ⟨same, rest⟩, beyond⟩
  have first : engine.afterClause (p :: order) row =
      (engine.beyond p row || (order.zipIdx 1).any fun (q, i) =>
        ((p :: order).take i).all (fun r => engine.same r row) && engine.beyond q row) := by
    simp [Engine.afterClause, List.zipIdx_cons]
  rw [first, inner]

/-- Nothing in the sorted columns is NULL. -/
def Placed (engine : Engine W) (sort : List SortSpec) (row : Row W) : Prop :=
  ∀ s ∈ sort, row s.column ≠ engine.null

theorem beyond_iff {s : SortSpec} {v : W} {row : Row W} (value : v ≠ engine.null)
    (placed : row s.column ≠ engine.null) :
    engine.beyond (s, v) row = true ↔
      place engine.null s v < place engine.null s (row s.column) := by
  rw [place_lt]
  cases direction : s.direction with
  | asc => simp [Engine.beyond, Engine.holds, direction, value, placed]
  | desc => simp [Engine.beyond, Engine.holds, direction, value, placed]

theorem same_iff {s : SortSpec} {v : W} {row : Row W} (value : v ≠ engine.null)
    (placed : row s.column ≠ engine.null) :
    engine.same (s, v) row = true ↔ v = row s.column := by
  simp [Engine.same, Engine.holds, value, placed, eq_comm]

/-- **The predicate of a page selects exactly the rows that rank past the tuple**, whatever the
directions. -/
theorem afterClause_iff {sort : List SortSpec} {values : List W} {row : Row W}
    (length : values.length = sort.length) (known : engine.null ∉ values)
    (placed : Placed engine sort row) :
    engine.afterClause (sort.zip values) row = true ↔
      rankOf engine.null sort values < rank engine.null sort row := by
  induction sort generalizing values with
  | nil => simp [Engine.afterClause, rankOf, rank, tupleOf]
  | cons s sort ih =>
    obtain ⟨v, values, rfl⟩ := List.exists_cons_of_length_eq_add_one length
    have value : v ≠ engine.null := fun null => known (null ▸ List.mem_cons_self)
    have here : row s.column ≠ engine.null := placed s List.mem_cons_self
    have rest := ih (Nat.succ.inj length) (fun mem => known (List.mem_cons_of_mem _ mem))
      fun s mem => placed s (List.mem_cons_of_mem _ mem)
    simp only [rank, rankOf, tupleOf] at rest
    rw [List.zip_cons_cons, afterClause_cons]
    simp only [Bool.or_eq_true, Bool.and_eq_true, beyond_iff value here, same_iff value here, rest,
      rank, rankOf, tupleOf, List.map_cons, List.zipWith_cons_cons, List.cons_lt_cons_iff, place_inj]

/-- A filter on a single key selects the rows past it in the order of the key. -/
theorem matches_gt_iff {c : String} {v : W} {row : Row W} (value : v ≠ engine.null)
    (placed : row c ≠ engine.null) :
    engine.matches_ row { column := c, operator := .gt, value := v } = true ↔
      rankOf engine.null [asc c] [v] < rank engine.null [asc c] row := by
  have beyond := beyond_iff (s := asc c) value placed
  simp only [rank, rankOf, tupleOf, List.map_cons, List.map_nil, List.zipWith_cons_cons,
    List.zipWith_nil_left, List.cons_lt_cons_iff, List.not_lt_nil, and_false, or_false]
  rw [← beyond]
  rfl

end Clauses

/-! ## The pages of an engine that keeps to its statements -/

section Pages

variable [LinearOrder W] {engine : Engine W} {table : List (Row W)}

/-- An engine answers with the rows that match, in an order that the ORDER BY allows. -/
structure Engine.Lawful (engine : Engine W) : Prop where
  maxRows_pos : 0 < engine.maxRows
  select : ∀ (table : List (Row W)) (q : Select W), ∃ rows : List (Row W),
    rows.Perm (table.filter q.where_) ∧
      (rows.Pairwise fun a b => rank engine.null q.sort a ≤ rank engine.null q.sort b) ∧
      engine.select table q = (rows.drop q.offset).take q.limit

/-- No two of the rows rank the same. -/
def Distinct (engine : Engine W) (sort : List SortSpec) (rows : List (Row W)) : Prop :=
  (rows.map (rank engine.null sort)).Nodup

/-- The rows that the bridge's filters let through. -/
def Engine.matching (engine : Engine W) (filters : List (FilterSpec W)) (table : List (Row W)) :
    List (Row W) :=
  table.filter fun row => filters.all (engine.matches_ row)

def Engine.limitOf (engine : Engine W) (limit : ℕ) : ℕ := min (max limit 1) engine.maxRows

theorem limitOf_pos (lawful : engine.Lawful) (limit : ℕ) : 0 < engine.limitOf limit := by
  have := lawful.maxRows_pos
  unfold Engine.limitOf
  omega

/-- One row more than the limit tells whether there is another. -/
theorem page_of_probe {α : Type*} (limit : ℕ) (rows : List α) :
    ({ rows := if (rows.take (limit + 1)).length > limit then (rows.take (limit + 1)).take limit
        else rows.take (limit + 1)
       hasMore := decide ((rows.take (limit + 1)).length > limit) } : Page α) =
      Page.of limit rows := by
  by_cases more : limit < rows.length
  · have probe : (rows.take (limit + 1)).length > limit := by
      rw [List.length_take]
      omega
    simp [Page.of, more, List.take_take]
  · have probe : ¬ (rows.take (limit + 1)).length > limit := by
      rw [List.length_take]
      omega
    have all : rows.take (limit + 1) = rows := List.take_of_length_le (by omega)
    have all' : rows.take limit = rows := List.take_of_length_le (by omega)
    rw [if_neg probe]
    simp [Page.of, more, all, all']

/-- The answer to a statement whose rows the sort tells apart. -/
theorem select_eq (lawful : engine.Lawful) (q : Select W)
    (distinct : Distinct engine q.sort (table.filter q.where_)) :
    engine.select table q =
      ((inOrder (rank engine.null q.sort) (table.filter q.where_)).drop q.offset).take q.limit := by
  obtain ⟨rows, perm, sorted, answer⟩ := lawful.select table q
  rw [answer, inOrder_eq distinct perm sorted]

/-- **A page by OFFSET** of rows that the sort tells apart. -/
theorem browse_offset (lawful : engine.Lawful) {params : BrowseParams W}
    (plain : params.after = none)
    (distinct : Distinct engine params.sort (engine.matching params.filters table)) :
    engine.browse table params =
      .ok (pageFrom (rank engine.null params.sort) params.offset (engine.limitOf params.limit)
        (engine.matching params.filters table)) := by
  have where_ : (fun row => params.filters.all (engine.matches_ row) && true) =
      fun row => params.filters.all (engine.matches_ row) := by
    funext row
    exact Bool.and_true _
  simp only [Engine.browse, plain, where_]
  rw [select_eq lawful _ distinct, page_of_probe]
  rfl

/-- The rows past a place, of those that match. -/
theorem filter_behind {sort : List SortSpec} {values : List W} {filters : List (FilterSpec W)}
    {clause : Row W → Bool}
    (selects : ∀ row ∈ engine.matching filters table, clause row = true ↔
      rankOf engine.null sort values < rank engine.null sort row) :
    (table.filter fun row => filters.all (engine.matches_ row) && clause row) =
      (engine.matching filters table).filter
        (behind (rank engine.null sort) (some (rankOf engine.null sort values))) := by
  have both : (table.filter fun row => filters.all (engine.matches_ row) && clause row) =
      (engine.matching filters table).filter clause := by
    rw [Engine.matching, List.filter_filter]
    exact List.filter_congr fun row _ => Bool.and_comm _ _
  rw [both]
  refine List.filter_congr fun row mem => ?_
  rw [Bool.eq_iff_iff, selects row mem]
  simp [behind]

/-- What lies past a place is the page after it. -/
theorem pageAfter_of_filter {sort : List SortSpec} {values : List W} {limit : ℕ}
    {rows : List (Row W)} (distinct : Distinct engine sort rows) :
    Page.of limit (inOrder (rank engine.null sort) (rows.filter
      (behind (rank engine.null sort) (some (rankOf engine.null sort values))))) =
      pageAfter (rank engine.null sort) (some (rankOf engine.null sort values)) limit rows := by
  rw [inOrder_filter distinct]
  rfl

/-- **The page after a tuple.** -/
theorem browse_after (lawful : engine.Lawful) {params : BrowseParams W} {values : List W}
    (after : params.after = some { columns := params.sort.map (·.column), values := values })
    (some_ : params.sort ≠ []) (length : values.length = params.sort.length)
    (known : engine.null ∉ values)
    (placed : ∀ row ∈ engine.matching params.filters table, Placed engine params.sort row)
    (distinct : Distinct engine params.sort (engine.matching params.filters table)) :
    engine.browse table params =
      .ok (pageAfter (rank engine.null params.sort) (some (rankOf engine.null params.sort values))
        (engine.limitOf params.limit) (engine.matching params.filters table)) := by
  have built : engine.buildAfter { columns := params.sort.map (·.column), values := values }
      params.sort = .ok (engine.afterClause (params.sort.zip values)) := by
    simp [Engine.buildAfter, some_, length, known]
  have selects : ∀ row ∈ engine.matching params.filters table,
      engine.afterClause (params.sort.zip values) row = true ↔
        rankOf engine.null params.sort values < rank engine.null params.sort row :=
    fun row mem => afterClause_iff length known (placed row mem)
  have where_ := filter_behind selects
  have apart : Distinct engine params.sort (table.filter fun row =>
      params.filters.all (engine.matches_ row) && engine.afterClause (params.sort.zip values) row) := by
    rw [where_]
    exact distinct.sublist (List.filter_sublist.map _)
  simp only [Engine.browse, after, built]
  rw [select_eq lawful _ apart, page_of_probe, List.drop_zero, where_, pageAfter_of_filter distinct]
  rfl

/-- **The page after a key**, by a filter. -/
theorem browse_gt (lawful : engine.Lawful) {params : BrowseParams W} {c : String} {v : W}
    {filters : List (FilterSpec W)} (plain : params.after = none) (top : params.offset = 0)
    (sort : params.sort = [asc c])
    (filters_ : params.filters = filters ++ [{ column := c, operator := .gt, value := v }])
    (known : v ≠ engine.null)
    (placed : ∀ row ∈ engine.matching filters table, row c ≠ engine.null)
    (distinct : Distinct engine [asc c] (engine.matching filters table)) :
    engine.browse table params =
      .ok (pageAfter (rank engine.null [asc c]) (some (rankOf engine.null [asc c] [v]))
        (engine.limitOf params.limit) (engine.matching filters table)) := by
  have where_ : engine.matching params.filters table = (engine.matching filters table).filter
      (behind (rank engine.null [asc c]) (some (rankOf engine.null [asc c] [v]))) := by
    have selects : ∀ row ∈ engine.matching filters table,
        engine.matches_ row { column := c, operator := .gt, value := v } = true ↔
          rankOf engine.null [asc c] [v] < rank engine.null [asc c] row :=
      fun row mem => matches_gt_iff known (placed row mem)
    rw [← filter_behind selects]
    refine List.filter_congr fun row _ => ?_
    simp [filters_, List.all_append]
  have apart : Distinct engine params.sort (engine.matching params.filters table) := by
    rw [where_, sort]
    exact distinct.sublist (List.filter_sublist.map _)
  rw [browse_offset lawful plain apart, where_, top, sort]
  unfold pageFrom
  rw [List.drop_zero, pageAfter_of_filter distinct]

end Pages

end Syncle.Tables
