import Mathlib.Data.List.Sort
import Mathlib.Data.String.Basic
import Syncle.Lib.Batches
import Syncle.Sql.Dialect

/-!
# Batched writes (`base-sql-adapter.ts`, `insertRows`, `upsertRows`, `deleteRows`)

Rows that carry the same columns go into one statement, as many as the driver binds. So the batch
writes the rows one by one, but column set by column set, the sets in the order they first come
(`batched_eq_inGroups`): on any engine that takes the rows of a statement in their order, all or
none. Where writes of rows with different keys do not depend on each other's order, that is what
writing them in the given order comes to (`batched_eq_inOrder`). A table with another unique column is
one where they do (`Members.email_freed_too_late`).

A `DELETE` takes all its rows away before the foreign keys are looked at. So a batch of deletes comes to
the deletes one by one where no delete of a row stands in the way of another's (`DeletesEach`), and a
table that refers to itself is one where it does (`Staff`).
-/

namespace Syncle.Sql

open Lib

variable {S V : Type*}

/-! ## Statements -/

/-- `Record<string, unknown>`: `Object.keys`, and what each of them holds. -/
structure Record (V : Type*) where
  columns : List String
  nodup : columns.Nodup
  value : String → V

/-- What the record says of a column. -/
def Record.get (row : Record V) (c : String) : Option V :=
  if c ∈ row.columns then some (row.value c) else none

/-- `ON CONFLICT (keys) DO UPDATE SET …`, or `ON DUPLICATE KEY UPDATE …`, and its columns. With none
there is nothing to update: `DO NOTHING`, or a key column is set to itself. -/
structure UpsertClause where
  keys : List String
  updates : List String

def upsertClause (keyColumns allColumns : List String) : UpsertClause :=
  { keys := keyColumns, updates := allColumns.filter fun c => c ∉ keyColumns }

/-- `INSERT INTO … (columns) VALUES (…), (…) tail` -/
structure InsertStatement (V : Type*) where
  columns : List String
  tuples : List (List Placeholder)
  tail : Option UpsertClause
  params : List V

inductive Where where
  /-- `column IN (…)` -/
  | inList (column : String) (list : List Placeholder)
  /-- `(a = ? AND b = ?) OR (…)` -/
  | anyOf (clauses : List (List (String × Placeholder)))

/-- `DELETE FROM … WHERE …` -/
structure DeleteStatement (V : Type*) where
  condition : Where
  params : List V

/-- As many placeholders as there are columns, for each row; `ph` counts them. -/
def tuplesFrom (d : Dialect) (width : ℕ) : ℕ → ℕ → List (List Placeholder)
  | _, 0 => []
  | ph, rows + 1 => (List.range' ph width).map d.placeholder :: tuplesFrom d width (ph + width) rows

/-- One statement of some rows. -/
def insertStatement (d : Dialect) (columns : List String) (tail : Option UpsertClause)
    (rows : List (Record V)) : InsertStatement V where
  columns := columns
  tuples := tuplesFrom d columns.length 1 rows.length
  tail := tail
  params := rows.flatMap fun row => columns.map row.value

def insertRow (d : Dialect) (row : Record V) : Except String (InsertStatement V) :=
  if row.columns = [] then .error "Cannot insert a row with no values"
  else .ok
    { columns := row.columns
      tuples := [(List.range' 1 row.columns.length).map d.placeholder]
      tail := none
      params := row.columns.map row.value }

def upsertRow (d : Dialect) (keyColumns : List String) (row : Record V) :
    Except String (InsertStatement V) :=
  if row.columns = [] then .error "Cannot upsert a row with no values"
  else if keyColumns = [] then .error "Cannot upsert without key columns to match on"
  else .ok
    { columns := row.columns
      tuples := [(List.range' 1 row.columns.length).map d.placeholder]
      tail := some (upsertClause keyColumns row.columns)
      params := row.columns.map row.value }

def deleteRow (d : Dialect) (identity : Record V) : Except String (DeleteStatement V) :=
  if identity.columns = [] then .error "Cannot delete a row without a primary key identity"
  else .ok
    { condition := .anyOf
        [identity.columns.zip ((List.range' 1 identity.columns.length).map d.placeholder)]
      params := identity.columns.map identity.value }

/-! ## Batches -/

structure Group (V : Type*) where
  columns : List String
  rows : List (Record V)

/-- `JSON.stringify([...columns].sort())`: the columns whatever their order. (That the order sorted by
is one of code units makes no difference: two lists sort alike or they do not.) -/
def signature (row : Record V) : List String := row.columns.insertionSort (· ≤ ·)

def groupByColumns (rows : List (Record V)) : OrderedMap (List String) (Group V) :=
  gather signature (fun row => { columns := row.columns, rows := [row] })
    (fun group row => { group with rows := group.rows ++ [row] })
    (rows.filter fun row => row.columns ≠ [])

def chunkSize (d : Dialect) (columnCount : ℕ) : ℕ := max 1 (d.maxBindParams / max 1 columnCount)

def insertGrouped (d : Dialect) (rows : List (Record V)) (tail : List String → Option UpsertClause) :
    List (InsertStatement V) :=
  (groupByColumns rows).values.flatMap fun group =>
    (slices (chunkSize d group.columns.length) group.rows.length group.rows).map
      (insertStatement d group.columns (tail group.columns))

def insertRows (d : Dialect) (rows : List (Record V)) : List (InsertStatement V) :=
  insertGrouped d rows fun _ => none

def upsertRows (d : Dialect) (keyColumns : List String) (rows : List (Record V)) :
    Except String (List (InsertStatement V)) :=
  if rows = [] then .ok []
  else if keyColumns = [] then .error "Cannot upsert without key columns to match on"
  else .ok (insertGrouped d rows fun columns => some (upsertClause keyColumns columns))

def maxOrClauses : ℕ := 200

/-- One statement of some identities. -/
def deleteStatement (d : Dialect) (columns : List String) (identities : List (Record V)) :
    DeleteStatement V where
  condition :=
    match columns with
    | [single] => .inList single ((List.range' 1 identities.length).map d.placeholder)
    | columns => .anyOf ((tuplesFrom d columns.length 1 identities.length).map columns.zip)
  params := identities.flatMap fun identity => columns.map identity.value

def deleteSize (d : Dialect) (columns : List String) : ℕ :=
  match columns with
  | [_] => chunkSize d 1
  | columns => min (chunkSize d columns.length) maxOrClauses

def deleteRows (d : Dialect) (identities : List (Record V)) : List (DeleteStatement V) :=
  (groupByColumns identities).values.flatMap fun group =>
    (slices (deleteSize d group.columns) group.rows.length group.rows).map
      (deleteStatement d group.columns)

/-! ## What an engine makes of a statement -/

/-- The value of a placeholder, the so-and-so-many-th of its statement. -/
def Placeholder.pick (params : List V) (occurrence : ℕ) : Placeholder → Option V
  | .numbered n => params[n - 1]?
  | .question => params[occurrence]?

def bindFrom (params : List V) : ℕ → List Placeholder → Option (List V)
  | _, [] => some []
  | i, p :: rest => (p.pick params i).bind fun v => (bindFrom params (i + 1) rest).map (v :: ·)

def bindTuples (params : List V) : ℕ → List (List Placeholder) → Option (List (List V))
  | _, [] => some []
  | i, tuple :: rest =>
    (bindFrom params i tuple).bind fun values =>
      (bindTuples params (i + tuple.length) rest).map (values :: ·)

/-- What columns and values say of a column, in whatever order they come. -/
def rowOf (columns : List String) (values : List V) (c : String) : Option V :=
  (columns.zip values).lookup c

def InsertStatement.placeholders (st : InsertStatement V) : List Placeholder := st.tuples.flatten

/-- The rows of a statement; none where a placeholder has no value. -/
def InsertStatement.rows (st : InsertStatement V) : Option (List (String → Option V)) :=
  (bindTuples st.params 0 st.tuples).map fun tuples => tuples.map (rowOf st.columns)

/-- `c IN (…)` is `c = … OR c = …` -/
def Where.clauses : Where → List (List (String × Placeholder))
  | .inList column list => list.map fun p => [(column, p)]
  | .anyOf clauses => clauses

def DeleteStatement.placeholders (st : DeleteStatement V) : List Placeholder :=
  st.condition.clauses.flatten.map Prod.snd

/-- The identities of a statement, each what one of its clauses asks for. -/
def DeleteStatement.identities (st : DeleteStatement V) : Option (List (String → Option V)) :=
  (bindTuples st.params 0 (st.condition.clauses.map (·.map Prod.snd))).map fun tuples =>
    List.zipWith (fun clause values => rowOf (clause.map Prod.fst) values) st.condition.clauses tuples

/-- A clause as the engine takes it: the columns it updates are a set. -/
structure Conflict where
  keys : List String
  updates : String → Bool

def UpsertClause.read (clause : UpsertClause) : Conflict :=
  { keys := clause.keys, updates := fun c => c ∈ clause.updates }

/-- An engine, and what it does to a table. -/
structure Engine (S V : Type*) where
  /-- one row; none where it is refused -/
  insertRow : S → Option Conflict → (String → Option V) → Option S
  /-- the rows that have what one of the identities says; none where the statement is refused -/
  deleteWhere : S → List (String → Option V) → Option S

namespace Engine

variable (engine : Engine S V)

/-- A statement takes its rows one after the other, and it is refused if one of them is. -/
def insert (s : S) (st : InsertStatement V) : Option S :=
  st.rows.bind fun rows => rows.foldlM (fun s row => engine.insertRow s (st.tail.map UpsertClause.read) row) s

def delete (s : S) (st : DeleteStatement V) : Option S :=
  st.identities.bind (engine.deleteWhere s)

/-- A `DELETE` of some rows comes to a `DELETE` of each, in any order: as where no foreign key leads
from the table to itself. -/
structure DeletesEach (engine : Engine S V) : Prop where
  nothing : ∀ s, engine.deleteWhere s [] = some s
  each : ∀ s a rest, engine.deleteWhere s (a :: rest) =
    (engine.deleteWhere s [a]).bind (engine.deleteWhere · rest)
  commute : ∀ s a b, (engine.deleteWhere s [a]).bind (engine.deleteWhere · [b]) =
    (engine.deleteWhere s [b]).bind (engine.deleteWhere · [a])

theorem DeletesEach.all {engine : Engine S V} (apart : engine.DeletesEach)
    (identities : List (String → Option V)) (s : S) :
    engine.deleteWhere s identities =
      identities.foldlM (fun s identity => engine.deleteWhere s [identity]) s := by
  induction identities generalizing s with
  | nil => exact apart.nothing s
  | cons a rest ih =>
    rw [apart.each, List.foldlM_cons]
    exact congrArg _ (funext ih)

end Engine

/-! ## A statement's rows are the rows it was made of -/

/-- The placeholders of a row take its values. -/
theorem bindFrom_range (d : Dialect) {params pre values post : List V}
    (is : params = pre ++ (values ++ post)) :
    bindFrom params pre.length ((List.range' (pre.length + 1) values.length).map d.placeholder) =
      some values := by
  induction values generalizing pre with
  | nil => rfl
  | cons v values ih =>
    have here : params[pre.length]? = some v := by simp [is]
    have picked : (d.placeholder (pre.length + 1)).pick params pre.length = some v := by
      cases d <;> exact here
    have rest := @ih (pre ++ [v]) (by simp [is])
    rw [List.length_append, List.length_singleton] at rest
    rw [List.length_cons, List.range'_succ, List.map_cons, bindFrom, picked, Option.bind_some, rest]
    rfl

theorem bindTuples_from (d : Dialect) {width : ℕ} {params pre post : List V} {values : List (List V)}
    (each : ∀ tuple ∈ values, tuple.length = width) (is : params = pre ++ (values.flatten ++ post)) :
    bindTuples params pre.length (tuplesFrom d width (pre.length + 1) values.length) = some values := by
  induction values generalizing pre with
  | nil => rfl
  | cons tuple values ih =>
    obtain ⟨rfl, each⟩ := List.forall_mem_cons.mp each
    rw [List.flatten_cons, List.append_assoc] at is
    have rest := @ih (pre ++ tuple) each (by simp [is])
    rw [List.length_append, Nat.add_right_comm] at rest
    rw [List.length_cons, tuplesFrom, bindTuples, bindFrom_range d is, Option.bind_some,
      List.length_map, List.length_range', rest]
    rfl

/-- A row's tuples take the values of the rows. -/
theorem bindTuples_rows (d : Dialect) (columns : List String) (rows : List (Record V)) :
    bindTuples (rows.flatMap fun row => columns.map row.value) 0
      (tuplesFrom d columns.length 1 rows.length) = some (rows.map fun row => columns.map row.value) := by
  have bound := @bindTuples_from V d columns.length (rows.flatMap fun row => columns.map row.value) [] []
    (rows.map fun row => columns.map row.value) (by simp) (by simp [List.flatMap_def])
  simpa using bound

theorem rowOf_map (columns : List String) (value : String → V) (c : String) :
    rowOf columns (columns.map value) c = if c ∈ columns then some (value c) else none := by
  unfold rowOf
  induction columns with
  | nil => rfl
  | cons column columns ih =>
    rw [List.map_cons, List.zip_cons_cons, List.lookup_cons]
    by_cases here : c = column
    · subst here
      simp
    · have other : (c == column) = false := beq_eq_false_iff_ne.mpr here
      simp [other, here, ih]

/-- In whatever order a statement lists a row's columns. -/
theorem rowOf_perm {columns : List String} {row : Record V} (same : row.columns.Perm columns) :
    rowOf columns (columns.map row.value) = row.get := by
  funext c
  rw [rowOf_map, Record.get]
  simp only [same.mem_iff]

theorem rows_insertStatement (d : Dialect) {columns : List String} (tail : Option UpsertClause)
    {rows : List (Record V)} (same : ∀ row ∈ rows, row.columns.Perm columns) :
    (insertStatement d columns tail rows).rows = some (rows.map Record.get) := by
  unfold InsertStatement.rows insertStatement
  simp only [bindTuples_rows, Option.map_some, List.map_map]
  refine congrArg some (List.map_congr_left fun row mem => ?_)
  exact rowOf_perm (same row mem)

theorem length_tuplesFrom (d : Dialect) (width ph rows : ℕ) :
    (tuplesFrom d width ph rows).flatten.length = rows * width := by
  induction rows generalizing ph with
  | zero => simp [tuplesFrom]
  | succ rows ih =>
    rw [tuplesFrom, List.flatten_cons, List.length_append, ih, List.length_map, List.length_range',
      Nat.add_mul, Nat.one_mul, Nat.add_comm]

theorem length_params (columns : List String) (rows : List (Record V)) :
    (rows.flatMap fun row => columns.map row.value).length = rows.length * columns.length := by
  simp [List.length_flatMap]

/-! ## The groups -/

/-- The rows, column set by column set, the sets in the order they first come. -/
def inGroups (rows : List (Record V)) : List (Record V) := gathered signature rows

theorem perm_inGroups (rows : List (Record V)) : (inGroups rows).Perm rows :=
  perm_gathered signature rows

theorem perm_of_signature {a b : Record V} (same : signature a = signature b) :
    a.columns.Perm b.columns := by
  have left : (signature a).Perm a.columns := List.perm_insertionSort _ a.columns
  have right : (signature b).Perm b.columns := List.perm_insertionSort _ b.columns
  exact left.symm.trans (same ▸ right)

/-- **The groups hold the rows**, column set by column set. -/
theorem rows_groups {rows : List (Record V)} (some_ : ∀ row ∈ rows, row.columns ≠ []) :
    (groupByColumns rows).values.flatMap (·.rows) = inGroups rows := by
  have all : (rows.filter fun row => row.columns ≠ []) = rows :=
    List.filter_eq_self.mpr fun row mem => by simpa using some_ row mem
  unfold groupByColumns inGroups
  rw [all]
  exact flatMap_gather (fun _ => rfl) (fun _ _ => rfl) rows

/-- Rows are pushed to the group of the first. -/
theorem groupOf_rows {rows : List (Record V)} {group : Group V}
    (h : groupOf (fun row => ({ columns := row.columns, rows := [row] } : Group V))
      (fun group row => { group with rows := group.rows ++ [row] }) rows = some group) :
    group.rows = rows ∧ ∃ row ∈ rows, group.columns = row.columns := by
  induction rows using List.reverseRecOn generalizing group with
  | nil => cases h
  | append_singleton rows row ih =>
    rw [groupOf_concat] at h
    obtain rfl := Option.some.inj h
    cases found : groupOf (fun row => ({ columns := row.columns, rows := [row] } : Group V))
        (fun group row => { group with rows := group.rows ++ [row] }) rows with
    | none =>
      cases rows with
      | nil => exact ⟨rfl, row, List.mem_cons_self, rfl⟩
      | cons _ _ => cases found
    | some g =>
      obtain ⟨members, first, mem, columns⟩ := ih found
      exact ⟨by rw [← members], first, List.mem_append_left _ mem, columns⟩

/-- A group's rows have its columns. -/
theorem of_mem_groups {rows : List (Record V)} {group : Group V}
    (mem : group ∈ (groupByColumns rows).values) :
    (∃ row ∈ rows, group.columns = row.columns) ∧
      ∀ row ∈ group.rows, row ∈ rows ∧ row.columns.Perm group.columns := by
  obtain ⟨signed, found⟩ := mem_gather mem
  obtain ⟨members, first, there, columns⟩ := groupOf_rows found
  have each : ∀ row ∈ group.rows, row ∈ rows ∧ signature row = signed := by
    intro row mem
    rw [members, List.mem_filter, List.mem_filter] at mem
    exact ⟨mem.1.1, by simpa using mem.2⟩
  have firstOf := each first (members ▸ there)
  refine ⟨⟨first, firstOf.1, columns⟩, fun row mem => ⟨(each row mem).1, ?_⟩⟩
  rw [columns]
  exact perm_of_signature ((each row mem).2.trans firstOf.2.symm)

/-! ## The chunks of the groups -/

/-- The columns and the rows that go into each statement. -/
def chunksOf (size : List String → ℕ) (rows : List (Record V)) : List (List String × List (Record V)) :=
  (groupByColumns rows).values.flatMap fun group =>
    (slices (size group.columns) group.rows.length group.rows).map fun chunk => (group.columns, chunk)

section Chunks

variable {size : List String → ℕ} {rows : List (Record V)}

theorem of_mem_chunksOf (pos : ∀ columns, 0 < size columns) {chunk : List String × List (Record V)}
    (mem : chunk ∈ chunksOf size rows) :
    (∃ row ∈ rows, row.columns.length = chunk.1.length) ∧ chunk.2.length ≤ size chunk.1 ∧
      ∀ row ∈ chunk.2, row.columns.Perm chunk.1 := by
  obtain ⟨group, grouped, there⟩ := List.mem_flatMap.mp mem
  obtain ⟨slice, sliced, rfl⟩ := List.mem_map.mp there
  have whole := flatten_slices (pos group.columns) (Nat.le_refl group.rows.length)
  obtain ⟨⟨first, given, columns⟩, same⟩ := of_mem_groups grouped
  refine ⟨⟨first, given, by rw [columns]⟩, length_of_mem_slices sliced, fun row here => (same row ?_).2⟩
  rw [← whole]
  exact List.mem_flatten.mpr ⟨slice, sliced, here⟩

/-- **The chunks hold the rows**, column set by column set. -/
theorem rows_chunksOf (pos : ∀ columns, 0 < size columns) (some_ : ∀ row ∈ rows, row.columns ≠ []) :
    (chunksOf size rows).flatMap Prod.snd = inGroups rows := by
  unfold chunksOf
  rw [← rows_groups some_, List.flatMap_assoc]
  refine List.flatMap_congr fun group _ => ?_
  rw [List.flatMap_map, List.flatMap_id']
  exact flatten_slices (pos group.columns) (Nat.le_refl _)

/-- What is done chunk by chunk is done row by row. -/
theorem foldlM_chunksOf (pos : ∀ columns, 0 < size columns) (some_ : ∀ row ∈ rows, row.columns ≠ [])
    {run : S → List String × List (Record V) → Option S} {step : S → Record V → Option S}
    (each : ∀ columns chunk, (∀ row ∈ chunk, row.columns.Perm columns) →
      ∀ s, run s (columns, chunk) = chunk.foldlM step s) (s : S) :
    (chunksOf size rows).foldlM run s = (inGroups rows).foldlM step s := by
  rw [← rows_chunksOf pos some_, foldlM_flatMap]
  exact foldlM_eq_of (fun chunk mem s => each _ _ (of_mem_chunksOf pos mem).2.2 s) s

end Chunks

/-! ## A batch -/

theorem chunkSize_pos (d : Dialect) (columnCount : ℕ) : 0 < chunkSize d columnCount :=
  Nat.lt_of_lt_of_le Nat.zero_lt_one (Nat.le_max_left _ _)

/-- A chunk of rows that are no wider than the cap stays under it. -/
theorem chunkSize_mul_le {d : Dialect} {columnCount : ℕ} (narrow : columnCount ≤ d.maxBindParams) :
    chunkSize d columnCount * columnCount ≤ d.maxBindParams := by
  rcases Nat.eq_zero_or_pos columnCount with rfl | pos
  · rw [Nat.mul_zero]
    exact Nat.zero_le _
  · have width : max 1 columnCount = columnCount := Nat.max_eq_right pos
    have one : 1 ≤ d.maxBindParams / columnCount := (Nat.one_le_div_iff pos).mpr narrow
    rw [chunkSize, width, Nat.max_eq_right one]
    exact Nat.div_mul_le_self _ _

variable {engine : Engine S V} {d : Dialect}

/-- **A statement writes its rows** one after the other. -/
theorem insert_insertStatement (tail : Option UpsertClause) {columns : List String}
    {rows : List (Record V)} (same : ∀ row ∈ rows, row.columns.Perm columns) (s : S) :
    engine.insert s (insertStatement d columns tail rows) =
      rows.foldlM (fun s row => engine.insertRow s (tail.map UpsertClause.read) row.get) s := by
  unfold Engine.insert
  rw [rows_insertStatement d tail same, Option.bind_some, List.foldlM_map]
  rfl

/-- What is written row by row: an insert, or an upsert on some columns. -/
inductive Write where
  | insert
  | upsert (keyColumns : List String)
  deriving DecidableEq

def Write.tail : Write → List String → Option UpsertClause
  | .insert, _ => none
  | .upsert keyColumns, columns => some (upsertClause keyColumns columns)

/-- The clause of a row's statement, as the engine takes it. -/
def Write.conflict (w : Write) (row : String → Option V) : Option Conflict :=
  match w with
  | .insert => none
  | .upsert keyColumns =>
    some { keys := keyColumns, updates := fun c => (row c).isSome && c ∉ keyColumns }

theorem read_tail (w : Write) {columns : List String} {row : Record V}
    (same : row.columns.Perm columns) :
    (w.tail columns).map UpsertClause.read = w.conflict row.get := by
  cases w with
  | insert => rfl
  | upsert keyColumns =>
    have updates : ∀ c, decide (c ∈ columns.filter fun c => c ∉ keyColumns) =
        ((row.get c).isSome && decide (c ∉ keyColumns)) := by
      intro c
      by_cases has : c ∈ row.columns
      · simp [Record.get, has, same.mem_iff.mp has]
      · have hasNot : c ∉ columns := fun mem => has (same.mem_iff.mpr mem)
        simp [Record.get, has, hasNot]
    simp only [Write.tail, Write.conflict, Option.map_some, UpsertClause.read, upsertClause, updates]

/-- The statements of a batch. -/
def Write.batch (d : Dialect) (rows : List (Record V)) : Write → Except String (List (InsertStatement V))
  | .insert => .ok (insertRows d rows)
  | .upsert keyColumns => upsertRows d keyColumns rows

/-- The statement of a row alone. -/
def Write.alone (d : Dialect) (row : Record V) : Write → Except String (InsertStatement V)
  | .insert => insertRow d row
  | .upsert keyColumns => upsertRow d keyColumns row

/-- The batch, statement by statement; none where one is refused, or where there is none. -/
def Engine.batched (engine : Engine S V) (d : Dialect) (w : Write) (rows : List (Record V)) (s : S) :
    Option S :=
  (w.batch d rows).toOption.bind fun statements => statements.foldlM engine.insert s

/-- The rows, each in a statement of its own. -/
def Engine.oneByOne (engine : Engine S V) (d : Dialect) (w : Write) (rows : List (Record V)) (s : S) :
    Option S :=
  rows.foldlM (fun s row => (w.alone d row).toOption.bind (engine.insert s)) s

/-- An upsert on no columns is refused; every other write of a row is the engine's. -/
def Engine.write (engine : Engine S V) (w : Write) (s : S) (row : Record V) : Option S :=
  if w = .upsert [] then none else engine.insertRow s (w.conflict row.get) row.get

theorem alone_eq (engine : Engine S V) (d : Dialect) (w : Write) {row : Record V}
    (some_ : row.columns ≠ []) (s : S) :
    (w.alone d row).toOption.bind (engine.insert s) = engine.write w s row := by
  have single : ∀ tail, ({ columns := row.columns
                           tuples := [(List.range' 1 row.columns.length).map d.placeholder]
                           tail := tail
                           params := row.columns.map row.value } : InsertStatement V) =
      insertStatement d row.columns tail [row] := by
    intro tail
    simp [insertStatement, tuplesFrom]
  have written : ∀ tail, engine.insert s (insertStatement d row.columns tail [row]) =
      engine.insertRow s (tail.map UpsertClause.read) row.get := by
    intro tail
    rw [insert_insertStatement tail (by simp)]
    simp
  have conflict := read_tail w (.refl row.columns)
  unfold Engine.write
  cases w with
  | insert =>
    simp only [Write.alone, insertRow, if_neg some_, single, reduceCtorEq, if_false]
    exact (written none).trans (congrArg (engine.insertRow s · row.get) conflict)
  | upsert keyColumns =>
    by_cases none : keyColumns = []
    · subst none
      rw [Write.alone, upsertRow, if_neg some_, if_pos rfl]
      rfl
    · simp only [Write.alone, upsertRow, if_neg some_, if_neg none, single, Write.upsert.injEq]
      exact (written _).trans (congrArg (engine.insertRow s · row.get) conflict)

theorem insertGrouped_eq (d : Dialect) (rows : List (Record V)) (tail : List String → Option UpsertClause) :
    insertGrouped d rows tail = (chunksOf (fun columns => chunkSize d columns.length) rows).map
      fun chunk => insertStatement d chunk.1 (tail chunk.1) chunk.2 := by
  simp [insertGrouped, chunksOf, List.map_flatMap, Function.comp_def]

/-- **Grouped, a batch writes its rows column set by column set.** -/
theorem foldlM_insertGrouped (engine : Engine S V) (d : Dialect) (w : Write) {rows : List (Record V)}
    (some_ : ∀ row ∈ rows, row.columns ≠ []) (s : S) :
    (insertGrouped d rows w.tail).foldlM engine.insert s =
      (inGroups rows).foldlM (fun s row => engine.insertRow s (w.conflict row.get) row.get) s := by
  rw [insertGrouped_eq, List.foldlM_map]
  refine foldlM_chunksOf (fun columns => chunkSize_pos d columns.length) some_ (fun columns chunk same s => ?_) s
  rw [insert_insertStatement _ same]
  exact foldlM_eq_of (fun row mem s => by rw [read_tail w (same row mem)]) s

/-- **A batch writes its rows one by one, column set by column set.** -/
theorem batched_eq_inGroups (engine : Engine S V) (d : Dialect) (w : Write) {rows : List (Record V)}
    (some_ : ∀ row ∈ rows, row.columns ≠ []) (s : S) :
    engine.batched d w rows s = engine.oneByOne d w (inGroups rows) s := by
  have alone : engine.oneByOne d w (inGroups rows) s =
      (inGroups rows).foldlM (engine.write w) s :=
    foldlM_eq_of (fun row mem s => alone_eq engine d w (some_ row ((perm_inGroups rows).subset mem)) s) s
  have grouped := foldlM_insertGrouped engine d w some_ s
  rw [alone]
  unfold Engine.batched
  cases w with
  | insert => exact grouped
  | upsert keyColumns =>
    by_cases empty : rows = []
    · subst empty
      rfl
    · by_cases none : keyColumns = []
      · -- nothing is written either way: the first row is refused
        obtain ⟨first, rest, is⟩ : ∃ first rest, inGroups rows = first :: rest :=
          List.exists_cons_of_ne_nil fun nothing => empty (nothing ▸ perm_inGroups rows).symm.eq_nil
        subst none
        rw [is, List.foldlM_cons, Write.batch, upsertRows, if_neg empty, if_pos rfl]
        rfl
      · have written : ∀ row, engine.write (.upsert keyColumns) s row = _ := fun row =>
          if_neg fun same => none (Write.upsert.inj same)
        rw [Write.batch, upsertRows, if_neg empty, if_neg none]
        refine grouped.trans (foldlM_eq_of (fun row _ s => ?_) s)
        exact (if_neg fun same => none (Write.upsert.inj same)).symm

/-- The writes of rows that hold different keys do not depend on each other's order: as in a table
whose key is all that its rows must differ in, and whose defaults are constants. -/
def Engine.Independent (engine : Engine S V) (w : Write) (keys : List String) : Prop :=
  ∀ a b : Record V, keys ⊆ a.columns → keys ⊆ b.columns → keys.map a.get ≠ keys.map b.get → ∀ s,
    (engine.write w s a).bind (engine.write w · b) = (engine.write w s b).bind (engine.write w · a)

/-- **And in the given order**, where writes of rows with different keys are independent. -/
theorem batched_eq_inOrder {engine : Engine S V} (d : Dialect) {w : Write} {keys : List String}
    (independent : engine.Independent w keys) {rows : List (Record V)}
    (some_ : ∀ row ∈ rows, row.columns ≠ []) (keyed : ∀ row ∈ rows, keys ⊆ row.columns)
    (distinct : rows.Pairwise fun a b => keys.map a.get ≠ keys.map b.get) (s : S) :
    engine.batched d w rows s = engine.oneByOne d w rows s := by
  have alone : ∀ list : List (Record V), (∀ row ∈ list, row ∈ rows) →
      engine.oneByOne d w list s = list.foldlM (engine.write w) s := fun list sub =>
    foldlM_eq_of (fun row mem s => alone_eq engine d w (some_ row (sub row mem)) s) s
  have commute : rows.Pairwise fun a b => ∀ s,
      (engine.write w s a).bind (engine.write w · b) = (engine.write w s b).bind (engine.write w · a) :=
    distinct.imp_of_mem fun memA memB differ => independent _ _ (keyed _ memA) (keyed _ memB) differ
  rw [batched_eq_inGroups engine d w some_, alone _ fun _ mem => (perm_inGroups rows).subset mem,
    alone rows fun _ mem => mem]
  exact (foldlM_perm (perm_inGroups rows).symm commute s).symm

/-! ## Deletes -/

/-- The clauses of a statement: one for each identity, whichever of the two forms it has. -/
theorem clauses_deleteStatement (d : Dialect) (columns : List String) (identities : List (Record V)) :
    (deleteStatement d columns identities).condition.clauses =
      (tuplesFrom d columns.length 1 identities.length).map columns.zip := by
  have single : ∀ (column : String) ph n, (tuplesFrom d 1 ph n).map [column].zip =
      ((List.range' ph n).map d.placeholder).map fun p => [(column, p)] := by
    intro column ph n
    induction n generalizing ph with
    | zero => rfl
    | succ n ih =>
      have rest := ih (ph + 1)
      simp only [tuplesFrom, List.range'_succ, List.map_cons] at rest ⊢
      rw [rest]
      rfl
  match columns with
  | [] => rfl
  | [column] => exact (single column 1 identities.length).symm
  | _ :: _ :: _ => rfl

/-- The tuples are as wide as the columns are many. -/
theorem length_of_mem_tuplesFrom {d : Dialect} {width ph rows : ℕ} {tuple : List Placeholder}
    (mem : tuple ∈ tuplesFrom d width ph rows) : tuple.length = width := by
  induction rows generalizing ph with
  | zero => cases mem
  | succ rows ih =>
    rcases List.mem_cons.mp mem with rfl | mem
    · rw [List.length_map, List.length_range']
    · exact ih mem

/-- So a clause's placeholders are its tuple, and its columns the statement's. -/
theorem map_snd_clauses (d : Dialect) (columns : List String) (ph rows : ℕ) :
    ((tuplesFrom d columns.length ph rows).map columns.zip).map (·.map Prod.snd) =
      tuplesFrom d columns.length ph rows := by
  rw [List.map_map]
  refine (List.map_congr_left fun tuple mem => ?_).trans (List.map_id _)
  exact List.map_snd_zip (length_of_mem_tuplesFrom mem).le

/-- What is bound in the clauses of some identities is the identities. -/
theorem identities_of {d : Dialect} {columns : List String} {identities : List (Record V)}
    {st : DeleteStatement V} (same : ∀ identity ∈ identities, identity.columns.Perm columns)
    (clauses : st.condition.clauses =
      (tuplesFrom d columns.length 1 identities.length).map columns.zip)
    (params : st.params = identities.flatMap fun identity => columns.map identity.value) :
    st.identities = some (identities.map Record.get) := by
  unfold DeleteStatement.identities
  rw [clauses, params, map_snd_clauses, bindTuples_rows, Option.map_some]
  refine congrArg some ?_
  generalize 1 = ph
  clear clauses params
  induction identities generalizing ph with
  | nil => rfl
  | cons identity identities ih =>
    rw [List.forall_mem_cons] at same
    have columnsOf : (columns.zip ((List.range' ph columns.length).map d.placeholder)).map Prod.fst =
        columns := List.map_fst_zip (by simp)
    rw [List.length_cons, tuplesFrom, List.map_cons, List.map_cons, List.map_cons, List.zipWith_cons_cons,
      columnsOf, rowOf_perm same.1, ih same.2]

theorem delete_of (apart : engine.DeletesEach) {st : DeleteStatement V}
    {identities : List (Record V)} (bound : st.identities = some (identities.map Record.get)) (s : S) :
    engine.delete s st =
      identities.foldlM (fun s identity => engine.deleteWhere s [identity.get]) s := by
  rw [Engine.delete, bound, Option.bind_some, apart.all, List.foldlM_map]

/-- A batch of deletes, and the deletes one by one. -/
def Engine.deletedBatch (engine : Engine S V) (d : Dialect) (identities : List (Record V)) (s : S) :
    Option S :=
  (deleteRows d identities).foldlM engine.delete s

def Engine.deletedOneByOne (engine : Engine S V) (d : Dialect) (identities : List (Record V)) (s : S) :
    Option S :=
  identities.foldlM (fun s identity => (deleteRow d identity).toOption.bind (engine.delete s)) s

theorem deleteSize_pos (d : Dialect) (columns : List String) : 0 < deleteSize d columns := by
  unfold deleteSize
  split
  · exact chunkSize_pos d 1
  · exact Nat.lt_min.mpr ⟨chunkSize_pos d _, by decide⟩

/-- A statement of a chunk has the chunk's identities. -/
theorem identities_deleteStatement (d : Dialect) {columns : List String} {identities : List (Record V)}
    (same : ∀ identity ∈ identities, identity.columns.Perm columns) :
    (deleteStatement d columns identities).identities = some (identities.map Record.get) :=
  identities_of same (clauses_deleteStatement d columns identities) rfl

theorem deleteRows_eq (d : Dialect) (identities : List (Record V)) :
    deleteRows d identities = (chunksOf (deleteSize d) identities).map
      fun chunk => deleteStatement d chunk.1 chunk.2 := by
  simp [deleteRows, chunksOf, List.map_flatMap, Function.comp_def]

/-- **Deletes batched are the deletes one by one**, where no row's delete stands in the way of
another's. -/
theorem deletedBatch_eq {engine : Engine S V} (apart : engine.DeletesEach) (d : Dialect)
    {identities : List (Record V)} (some_ : ∀ identity ∈ identities, identity.columns ≠ []) (s : S) :
    engine.deletedBatch d identities s = engine.deletedOneByOne d identities s := by
  have alone : ∀ identity ∈ identities, ∀ s, (deleteRow d identity).toOption.bind (engine.delete s) =
      engine.deleteWhere s [identity.get] := by
    intro identity mem s
    let st : DeleteStatement V :=
      { condition := .anyOf
          [identity.columns.zip ((List.range' 1 identity.columns.length).map d.placeholder)]
        params := identity.columns.map identity.value }
    have bound : st.identities = some ([identity].map Record.get) :=
      @identities_of V d identity.columns [identity] st (by simp) rfl (by simp [st])
    rw [deleteRow, if_neg (some_ identity mem)]
    exact (delete_of apart bound s).trans (by simp)
  have commute : (inGroups identities).Pairwise fun a b => ∀ s : S,
      (engine.deleteWhere s [a.get]).bind (engine.deleteWhere · [b.get]) =
        (engine.deleteWhere s [b.get]).bind (engine.deleteWhere · [a.get]) :=
    List.pairwise_of_forall fun a b s => apart.commute s a.get b.get
  rw [Engine.deletedOneByOne, foldlM_eq_of alone, ← foldlM_perm (perm_inGroups identities) commute]
  unfold Engine.deletedBatch
  rw [deleteRows_eq, List.foldlM_map]
  exact foldlM_chunksOf (deleteSize_pos d) some_
    (fun columns chunk same s => delete_of apart (identities_deleteStatement d same) s) s

/-! ## What the statements bind -/

/-- The statements bind as many values as they have placeholders, no more than the driver takes unless
a row alone is wider, and each row is in one of them, once. -/
structure BindsEachOnce {T : Type*} (d : Dialect) (placeholders : T → List Placeholder)
    (params : T → List V) (read : T → Option (List (String → Option V))) (rows : List (Record V))
    (statements : List T) : Prop where
  counted : ∀ st ∈ statements, (placeholders st).length = (params st).length
  capped : (∀ row ∈ rows, row.columns.length ≤ d.maxBindParams) →
    ∀ st ∈ statements, (params st).length ≤ d.maxBindParams
  bound : ∀ st ∈ statements, (read st).isSome
  once : (statements.flatMap fun st => (read st).getD []).Perm (rows.map Record.get)

/-- Statements that are made chunk by chunk, of chunks that fit. -/
theorem bindsEachOnce_chunks {T : Type*} {placeholders : T → List Placeholder} {params : T → List V}
    {read : T → Option (List (String → Option V))} {size : List String → ℕ}
    {build : List String × List (Record V) → T} {rows : List (Record V)}
    (pos : ∀ columns, 0 < size columns) (some_ : ∀ row ∈ rows, row.columns ≠ [])
    (fits : ∀ columns, columns ≠ [] → size columns ≤ chunkSize d columns.length)
    (counted : ∀ columns chunk, columns ≠ [] →
      (placeholders (build (columns, chunk))).length = chunk.length * columns.length)
    (bound : ∀ columns chunk,
      (params (build (columns, chunk))).length = chunk.length * columns.length)
    (reads : ∀ columns chunk, (∀ row ∈ chunk, row.columns.Perm columns) →
      read (build (columns, chunk)) = some (chunk.map Record.get)) :
    BindsEachOnce d placeholders params read rows ((chunksOf size rows).map build) := by
  have columnsOf : ∀ chunk ∈ chunksOf size rows, chunk.1 ≠ [] := by
    intro chunk mem none
    obtain ⟨⟨row, given, same⟩, -⟩ := of_mem_chunksOf pos mem
    rw [none, List.length_nil] at same
    exact some_ row given (List.length_eq_zero_iff.mp same)
  refine ⟨?_, fun narrow => ?_, ?_, ?_⟩
  · rw [List.forall_mem_map]
    intro chunk mem
    rw [counted _ _ (columnsOf chunk mem), bound]
  · rw [List.forall_mem_map]
    intro chunk mem
    obtain ⟨⟨row, given, same⟩, few, -⟩ := of_mem_chunksOf pos mem
    rw [bound]
    calc chunk.2.length * chunk.1.length
        ≤ chunkSize d chunk.1.length * chunk.1.length :=
          Nat.mul_le_mul_right _ (few.trans (fits _ (columnsOf chunk mem)))
      _ ≤ d.maxBindParams := chunkSize_mul_le (same ▸ narrow row given)
  · rw [List.forall_mem_map]
    intro chunk mem
    rw [reads _ _ (of_mem_chunksOf pos mem).2.2]
    rfl
  · have whole : ((chunksOf size rows).map build).flatMap (fun st => (read st).getD []) =
        (inGroups rows).map Record.get := by
      rw [← rows_chunksOf pos some_, List.flatMap_map, List.map_flatMap]
      refine List.flatMap_congr fun chunk mem => ?_
      rw [reads _ _ (of_mem_chunksOf pos mem).2.2]
      rfl
    rw [whole]
    exact (perm_inGroups rows).map _

theorem binds_insertGrouped (d : Dialect) (tail : List String → Option UpsertClause)
    {rows : List (Record V)} (some_ : ∀ row ∈ rows, row.columns ≠ []) :
    BindsEachOnce d InsertStatement.placeholders InsertStatement.params InsertStatement.rows rows
      (insertGrouped d rows tail) := by
  rw [insertGrouped_eq]
  refine bindsEachOnce_chunks (fun columns => chunkSize_pos d columns.length) some_
    (fun _ _ => Nat.le_refl _) (fun columns chunk _ => length_tuplesFrom d _ 1 _)
    (fun columns chunk => length_params columns chunk)
    fun columns chunk same => rows_insertStatement d (tail columns) same

theorem binds_deleteRows (d : Dialect) {identities : List (Record V)}
    (some_ : ∀ identity ∈ identities, identity.columns ≠ []) :
    BindsEachOnce d DeleteStatement.placeholders DeleteStatement.params DeleteStatement.identities
      identities (deleteRows d identities) := by
  rw [deleteRows_eq]
  refine bindsEachOnce_chunks (deleteSize_pos d) some_ (fun columns _ => ?_) (fun columns chunk _ => ?_)
    (fun columns chunk => length_params columns chunk)
    fun columns chunk same => identities_deleteStatement d same
  · unfold deleteSize
    split
    · exact Nat.le_refl _
    · exact Nat.min_le_left _ _
  · have flat : (deleteStatement d columns chunk).placeholders =
        (tuplesFrom d columns.length 1 chunk.length).flatten := by
      rw [← map_snd_clauses d columns 1 chunk.length, ← clauses_deleteStatement, ← List.map_flatten]
      rfl
    rw [flat, length_tuplesFrom]

/-! ## A table with a key -/

/-- A table whose rows must differ in their key, and in nothing else. -/
structure KeyedTable (V : Type*) where
  key : List String
  columns : List String
  /-- of a column that a row leaves out -/
  default : String → V
  /-- types, `NOT NULL` and the checks of a row -/
  accepts : (String → V) → Bool
  /-- SQL's `=`, which nothing is to a `NULL` -/
  equal : V → V → Bool

namespace KeyedTable

variable (t : KeyedTable V)

/-- The row that is proposed. -/
def proposed (row : String → Option V) (c : String) : V := (row c).getD (t.default c)

/-- What is stored where there was `old`, if it is accepted. -/
def stored (conflict : Option Conflict) (row : String → Option V) :
    Option (String → V) → Option (String → V)
  | none => if t.accepts (t.proposed row) then some (t.proposed row) else none
  | some old => conflict.bind fun on =>
      let new := fun c => if on.updates c then t.proposed row c else old c
      if t.accepts new then some new else none

/-- The rows by their keys. -/
abbrev Contents (V : Type*) := List V → Option (String → V)

variable [DecidableEq V]

def insertRow (s : Contents V) (conflict : Option Conflict) (row : String → Option V) :
    Option (Contents V) :=
  let key := t.key.map (t.proposed row)
  if (conflict.all fun on => on.keys = t.key) = true then
    (t.stored conflict row (s key)).map fun new => Function.update s key (some new)
  else none

def deleteRow (s : Contents V) (identity : String → Option V) : Contents V := fun key =>
  (s key).filter fun row => !t.columns.all fun c => (identity c).all fun v => t.equal (row c) v

def asEngine : Engine (Contents V) V where
  insertRow := t.insertRow
  deleteWhere s identities := some (identities.foldl t.deleteRow s)

theorem deletesEach : t.asEngine.DeletesEach where
  nothing _ := rfl
  each _ _ _ := rfl
  commute s a b := by
    refine congrArg some (funext fun key => ?_)
    simp only [List.foldl_cons, List.foldl_nil, deleteRow]
    cases s key with
    | none => rfl
    | some row => simp only [Option.filter_filter, Bool.and_comm]

/-- What is written where the key is `key`, by what was there. -/
def writeAt (key : List V) (stored : Option (String → V) → Option (String → V)) (s : Contents V) :
    Option (Contents V) :=
  (stored (s key)).map fun new => Function.update s key (some new)

/-- Writes at two keys. -/
theorem writeAt_comm {a b : List V} (apart : a ≠ b) (f g : Option (String → V) → Option (String → V))
    (s : Contents V) :
    (writeAt a f s).bind (writeAt b g) = (writeAt b g s).bind (writeAt a f) := by
  unfold writeAt
  cases first : f (s a) with
  | none =>
    cases g (s b) with
    | none => rfl
    | some new => simp [Function.update_of_ne apart, first]
  | some old =>
    cases second : g (s b) with
    | none => simp [Function.update_of_ne apart.symm, second]
    | some new =>
      simp only [Option.map_some, Option.bind_some, Function.update_of_ne apart,
        Function.update_of_ne apart.symm, first, second]
      exact congrArg some (Function.update_comm apart _ _ _)

/-- A write of a row looks at the row of its key, and touches no other. -/
theorem write_eq {t : KeyedTable V} (w : Write) {row : Record V} (keyed : t.key ⊆ row.columns) :
    ∃ stored, ∀ s, t.asEngine.write w s row = writeAt (t.key.map row.value) stored s := by
  have key : t.key.map (t.proposed row.get) = t.key.map row.value := by
    refine List.map_congr_left fun c mem => ?_
    simp [proposed, Record.get, keyed mem]
  by_cases refused : w = .upsert []
  · exact ⟨fun _ => none, fun s => if_pos refused⟩
  · by_cases known : ((w.conflict row.get).all fun on => on.keys = t.key) = true
    · refine ⟨t.stored (w.conflict row.get) row.get, fun s => ?_⟩
      have written : t.asEngine.write w s row = t.insertRow s (w.conflict row.get) row.get := if_neg refused
      rw [written, insertRow, if_pos known, key]
      rfl
    · exact ⟨fun _ => none, fun s => (if_neg refused).trans (if_neg known)⟩

/-- **So writes of rows with different keys are independent.** -/
theorem independent (t : KeyedTable V) (w : Write) : t.asEngine.Independent w t.key := by
  intro a b keyedA keyedB differ s
  have apart : t.key.map a.value ≠ t.key.map b.value := by
    intro same
    refine differ (List.map_congr_left fun c mem => ?_)
    have value := List.map_inj_left.mp same c mem
    simp [Record.get, keyedA mem, keyedB mem, value]
  obtain ⟨f, writeA⟩ := write_eq w keyedA
  obtain ⟨g, writeB⟩ := write_eq w keyedB
  rw [writeA, writeB]
  simp only [writeA, writeB]
  exact writeAt_comm apart f g s

end KeyedTable

/-! ## Batches and single rows -/

namespace Members

/-- A row of the columns that it names. -/
def record (fields : List (String × ℕ)) (nodup : (fields.map Prod.fst).Nodup) : Record ℕ :=
  { columns := fields.map Prod.fst, nodup := nodup, value := fun c => (fields.lookup c).getD 0 }

/-- Three members; the second leaves an address that the third takes. -/
def moves : List (Record ℕ) :=
  [record [("id", 3), ("email", 30)] (by decide),
    record [("id", 1), ("email", 11), ("name", 5)] (by decide),
    record [("email", 10), ("id", 2)] (by decide)]

/-- Members with no constraint but their key. -/
def plain : KeyedTable ℕ where
  key := ["id"]
  columns := ["id", "email", "name"]
  default _ := 0
  accepts _ := true
  equal v v' := v = v'

/-- The table before the moves. -/
def stored : KeyedTable.Contents ℕ := fun key =>
  if key = [1] then some fun c => if c = "id" then 1 else if c = "email" then 10 else 0 else none

structure Member where
  id : ℕ
  email : ℕ
  name : ℕ
  deriving DecidableEq

/-- The address is unique. -/
def put (s : List Member) (m : Member) : Option (List Member) :=
  if (s.any fun other => other.id ≠ m.id ∧ other.email = m.email) = true then none
  else some (s.filter (·.id ≠ m.id) ++ [m])

def insertMember (s : List Member) (conflict : Option Conflict) (row : String → Option ℕ) :
    Option (List Member) :=
  let proposed := fun c => (row c).getD 0
  match s.find? fun m => m.id = proposed "id" with
  | none => put s { id := proposed "id", email := proposed "email", name := proposed "name" }
  | some old => conflict.bind fun on =>
      put s
        { old with
          email := if on.updates "email" then proposed "email" else old.email
          name := if on.updates "name" then proposed "name" else old.name }

def uniqueEmails : Engine (List Member) ℕ where
  insertRow := insertMember
  deleteWhere s identities := some (s.filter fun m => !identities.any fun identity =>
    (identity "id").all (· = m.id) && (identity "email").all (· = m.email) &&
      (identity "name").all (· = m.name))

def before : List Member := [⟨1, 10, 0⟩, ⟨2, 20, 0⟩]

end Members

namespace Staff

/-- Somebody, and who leads them; the second refers to the table itself. -/
abbrev Person := ℕ × Option ℕ

/-- Who is gone may not be referred to by who is left. -/
def selfReferring : Engine (List Person) ℕ where
  insertRow s _ row := some (s ++ [((row "id").getD 0, row "leader")])
  deleteWhere s identities :=
    let gone := s.filter fun p => identities.any fun identity => (identity "id").any (· = p.1)
    let left := s.filter fun p => p ∉ gone
    if (left.any fun p => gone.any fun q => p.2 = some q.1) = true then none else some left

/-- Somebody and their leader. -/
def both : List (Record ℕ) :=
  [Members.record [("id", 1)] (by decide), Members.record [("id", 2)] (by decide)]

/-- Both go in one statement. One by one the leader is refused, whom the other refers to. -/
example : selfReferring.deletedBatch .sqlite both [(1, none), (2, some 1)] = some [] ∧
    selfReferring.deletedOneByOne .sqlite both [(1, none), (2, some 1)] = none := by
  decide +kernel

end Staff

end Syncle.Sql
