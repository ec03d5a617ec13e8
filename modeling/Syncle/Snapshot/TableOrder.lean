import Mathlib.Tactic.Common

/-!
# The order a table is read in

`TableReaderService.resolveOrder`: from what the engine can do, what is known of the table's shape
and the sort the bridge asks for, the order of the read and how it is paged. A read that pages by
OFFSET in an order of the bridge's own carries no warning; `ReadByOffset` says of the inputs when
that happens.
-/

namespace Syncle.Snapshot

inductive SortDirection where
  | asc | desc
  deriving DecidableEq

structure SortSpec where
  column : String
  direction : SortDirection
  deriving DecidableEq

structure TableOrder where
  sort : List SortSpec
  total : Option Nat
  keysetColumn : Option String
  keysetColumns : List String := []
  cursorPaging : Bool := false
  warning : Option String := none
  deriving DecidableEq

/-- A column of the probe or of the schema. `unorderable`: its base type is one no ORDER BY
takes. -/
structure Column where
  name : String
  nullable : Bool := true
  unorderable : Bool := false
  deriving DecidableEq

structure Index where
  columns : List String
  unique : Bool
  deriving DecidableEq

structure TableInfo where
  columns : List Column
  indexes : List Index
  deriving DecidableEq

/-- What `browse` says of a table besides its rows. -/
structure Probe where
  primaryKey : List String
  columns : List Column
  total : Option Nat
  deriving DecidableEq

/-- A bridge's source table, and what its engine can do and tells. -/
structure TableSource where
  table : String
  sort : List SortSpec
  probe : Probe
  cursorPaging : Bool
  keysetPaging : Bool
  /-- none: introspection failed, or the table is not in what it returned -/
  schema : Option TableInfo
  deriving DecidableEq

structure TableFacts where
  /-- none: every column can hold NULL -/
  nullable : Option (List String)
  uniqueKeys : List (List String)
  columns : List String
  unorderable : List String
  deriving DecidableEq

namespace TableSource

def unorderableOf (columns : List Column) : List String :=
  (columns.filter (·.unorderable)).map (·.name)

/-- A unique index joins the keys unless its columns, joined, are those of one already there. -/
def addIndex (keys : List (List String)) (index : Index) : List (List String) :=
  if index.unique && !index.columns.isEmpty &&
      !keys.any fun k => ",".intercalate k = ",".intercalate index.columns
  then keys ++ [index.columns] else keys

def facts (s : TableSource) : TableFacts :=
  let probed := if s.probe.primaryKey.isEmpty then [] else [s.probe.primaryKey]
  match s.schema with
  | none =>
    { nullable := none
      uniqueKeys := probed
      columns := s.probe.columns.map (·.name)
      unorderable := unorderableOf s.probe.columns }
  | some table =>
    { nullable := some ((table.columns.filter (·.nullable)).map (·.name))
      uniqueKeys := table.indexes.foldl addIndex probed
      columns := table.columns.map (·.name)
      unorderable := unorderableOf table.columns }

/-- The shape is looked up only where it can matter. -/
def knownFacts (s : TableSource) : Option TableFacts :=
  if s.keysetPaging || s.probe.primaryKey.isEmpty then some s.facts else none

def nullable (s : TableSource) : Option (List String) := s.knownFacts.bind (·.nullable)

def neverNull (s : TableSource) (column : String) : Bool :=
  s.nullable.any fun columns => !columns.contains column

/-- What identifies a row: the primary key, or a unique index none of whose columns can be
NULL. -/
def key (s : TableSource) : List String :=
  if s.probe.primaryKey.isEmpty then
    ((s.knownFacts.bind fun facts => facts.uniqueKeys.find? fun columns =>
      columns.all s.neverNull)).getD []
  else s.probe.primaryKey

/-- The bridge asks for the order of the table's single-column primary key. -/
def byKey (s : TableSource) : Bool :=
  match s.sort, s.probe.primaryKey with
  | [x], [c] => x.column = c && x.direction = .asc
  | _, _ => false

def ownOrder (s : TableSource) : Bool := !s.sort.isEmpty && !s.byKey

def canKeyset (s : TableSource) : Bool :=
  s.keysetPaging && !s.key.isEmpty && s.nullable.isSome &&
    s.sort.all fun x => s.neverNull x.column

def singlePk (s : TableSource) : Option String :=
  match s.probe.primaryKey with
  | [c] => some c
  | _ => none

end TableSource

def asc (column : String) : SortSpec := { column := column, direction := .asc }

/-- The bridge's own order, made total by the key behind it. -/
def TableSource.totalSort (s : TableSource) : List SortSpec :=
  s.sort ++ (s.key.filter fun c => !(s.sort.map (·.column)).contains c).map asc

def unorderedError (table : String) : String :=
  "Table \"" ++ table ++ "\" has no primary key, so rows cannot be paged in a stable order. " ++
    "Add a sort to the bridge to replay it safely."

def offsetWarning (table : String) : String :=
  "\"" ++ table ++ "\" has no primary key and no unique index, so it is read by OFFSET in the " ++
    "order of all its columns. Rows added, removed or changed while it is being read can be " ++
    "skipped or delivered twice; a key would make the read exact."

/-- The engine's cursor runs in the engine's own order; an order the bridge asks for is paged by
OFFSET. -/
def cursorOrder (s : TableSource) : TableOrder :=
  if s.ownOrder then { sort := s.sort, total := s.probe.total, keysetColumn := none }
  else { sort := [], total := s.probe.total, keysetColumn := s.singlePk, cursorPaging := true }

def sortedOrder (s : TableSource) : TableOrder :=
  if s.byKey then { sort := s.sort, total := s.probe.total, keysetColumn := s.singlePk }
  else
    if s.canKeyset then
      { sort := s.totalSort, total := s.probe.total, keysetColumn := none
        keysetColumns := s.totalSort.map (·.column) }
    else { sort := s.sort, total := s.probe.total, keysetColumn := none }

def keyOrder (s : TableSource) (c : String) (cs : List String) : TableOrder :=
  if cs = [] then { sort := [asc c], total := s.probe.total, keysetColumn := some c }
  else
    { sort := (c :: cs).map asc, total := s.probe.total, keysetColumn := none
      keysetColumns := if s.keysetPaging then c :: cs else [] }

/-- Nothing identifies a row: every column that can be ordered, and a warning. -/
def columnOrder (s : TableSource) : Except String TableOrder :=
  let known := s.knownFacts.elim [] (·.columns)
  let columns := (if known.isEmpty then s.probe.columns.map (·.name) else known).filter
    fun c => !(s.knownFacts.elim [] (·.unorderable)).contains c
  if columns.isEmpty then .error (unorderedError s.table)
  else .ok { sort := columns.map asc, total := s.probe.total, keysetColumn := none,
             warning := some (offsetWarning s.table) }

def resolveOrder (s : TableSource) : Except String TableOrder :=
  if s.cursorPaging then .ok (cursorOrder s)
  else
    if s.sort = [] then
      match s.key with
      | [] => columnOrder s
      | c :: cs => .ok (keyOrder s c cs)
    else .ok (sortedOrder s)

/-- Which of its loops `rows` reads a table in. -/
inductive Paging where
  | cursor
  | keyset (columns : List String)
  | offset
  deriving DecidableEq

def TableOrder.paging (o : TableOrder) : Paging :=
  if o.cursorPaging then .cursor
  else if !o.keysetColumns.isEmpty then .keyset o.keysetColumns
  else o.keysetColumn.elim .offset fun c => .keyset [c]

/-- The read is by OFFSET, in an order the bridge asks for or over a composite key, and nothing
warns of it. -/
def TableSource.ReadByOffset (s : TableSource) : Prop :=
  if s.cursorPaging then s.ownOrder = true
  else if s.sort = [] then 1 < s.key.length ∧ s.keysetPaging = false
  else s.byKey = false ∧ s.canKeyset = false

instance (s : TableSource) : Decidable s.ReadByOffset := by
  unfold TableSource.ReadByOffset
  infer_instance

theorem TableSource.singlePk_of_byKey {s : TableSource} (h : s.byKey = true) :
    ∃ c, s.singlePk = some c ∧ s.key = [c] := by
  unfold TableSource.byKey at h
  split at h
  · next x c _ hpk => exact ⟨c, by simp [singlePk, hpk], by simp [key, hpk]⟩
  · cases h

theorem cursorOrder_paging (s : TableSource) :
    (cursorOrder s).paging = if s.ownOrder then .offset else .cursor := by
  unfold cursorOrder TableOrder.paging
  cases s.ownOrder <;> simp

theorem sortedOrder_paging {s : TableSource} (hs : s.sort ≠ []) :
    (sortedOrder s).paging =
      if s.byKey then .keyset s.key
      else if s.canKeyset then .keyset (s.totalSort.map (·.column)) else .offset := by
  unfold sortedOrder TableOrder.paging
  cases hb : s.byKey with
  | true =>
    obtain ⟨c, hpk, hkey⟩ := TableSource.singlePk_of_byKey hb
    simp [hpk, hkey]
  | false => cases s.canKeyset <;> simp [TableSource.totalSort, hs]

theorem keyOrder_paging (s : TableSource) (c : String) (cs : List String) :
    (keyOrder s c cs).paging =
      if cs = [] ∨ s.keysetPaging = true then .keyset (c :: cs) else .offset := by
  unfold keyOrder TableOrder.paging
  by_cases hcs : cs = []
  · simp [hcs]
  · cases s.keysetPaging <;> simp [hcs]

theorem columnOrder_warns {s : TableSource} {o : TableOrder} (h : columnOrder s = .ok o) :
    o.warning ≠ none := by
  unfold columnOrder at h
  dsimp only at h
  intro quiet
  generalize List.filter _ _ = columns at h
  cases columns with
  | nil => cases h
  | cons c cs =>
    obtain rfl := Except.ok.inj h
    cases quiet

/-- The three ways an order comes without a warning. -/
theorem resolveOrder_cases {s : TableSource} {o : TableOrder} (h : resolveOrder s = .ok o)
    (quiet : o.warning = none) :
    s.cursorPaging = true ∧ o = cursorOrder s ∨
    s.cursorPaging = false ∧ s.sort ≠ [] ∧ o = sortedOrder s ∨
    ∃ c cs, s.cursorPaging = false ∧ s.sort = [] ∧ s.key = c :: cs ∧ o = keyOrder s c cs := by
  unfold resolveOrder at h
  split at h
  · next hc => exact Or.inl ⟨hc, (Except.ok.inj h).symm⟩
  · next hc =>
    have hc : s.cursorPaging = false := (Bool.not_eq_true _).mp hc
    split at h
    · next hs =>
      cases hk : s.key with
      | nil =>
        rw [hk] at h
        exact absurd quiet (columnOrder_warns h)
      | cons c cs =>
        rw [hk] at h
        exact Or.inr (Or.inr ⟨c, cs, hc, hs, rfl, (Except.ok.inj h).symm⟩)
    · next hs => exact Or.inr (Or.inl ⟨hc, hs, (Except.ok.inj h).symm⟩)

/-- **OFFSET without a warning, in terms of the inputs.** -/
theorem paging_offset_iff {s : TableSource} {o : TableOrder} (h : resolveOrder s = .ok o)
    (quiet : o.warning = none) : o.paging = .offset ↔ s.ReadByOffset := by
  unfold TableSource.ReadByOffset
  rcases resolveOrder_cases h quiet with ⟨hc, rfl⟩ | ⟨hc, hs, rfl⟩ | ⟨c, cs, hc, hs, hk, rfl⟩
  · rw [cursorOrder_paging]
    cases s.ownOrder <;> simp [hc]
  · rw [sortedOrder_paging hs]
    cases s.byKey <;> cases s.canKeyset <;> simp [hc, hs]
  · rw [keyOrder_paging]
    cases cs <;> cases s.keysetPaging <;> simp [hc, hs, hk]

/-- The columns the pages of a read follow one another by; the engine's own cursor runs over what
identifies a row. -/
def TableSource.pagedBy (s : TableSource) : Paging → List String
  | .cursor => s.key
  | .keyset columns => columns
  | .offset => []

/-- A read that is not by OFFSET is paged by columns that identify a row. -/
theorem key_subset_pagedBy {s : TableSource} {o : TableOrder} (h : resolveOrder s = .ok o)
    (quiet : o.warning = none) (hp : o.paging ≠ .offset) : s.key ⊆ s.pagedBy o.paging := by
  rcases resolveOrder_cases h quiet with ⟨-, rfl⟩ | ⟨-, hs, rfl⟩ | ⟨c, cs, -, -, hk, rfl⟩
  · rw [cursorOrder_paging] at hp ⊢
    cases ho : s.ownOrder
    · simp [TableSource.pagedBy]
    · simp [ho] at hp
  · rw [sortedOrder_paging hs] at hp ⊢
    cases hb : s.byKey
    · cases hk : s.canKeyset
      · simp [hb, hk] at hp
      · intro c hc
        by_cases hin : c ∈ s.sort.map (·.column)
        · exact List.mem_map.mpr <| by
            obtain ⟨x, hx, rfl⟩ := List.mem_map.mp hin
            exact ⟨x, List.mem_append_left _ hx, rfl⟩
        · exact List.mem_map.mpr ⟨asc c, List.mem_append_right _
            (List.mem_map.mpr ⟨c, List.mem_filter.mpr ⟨hc, by simpa using hin⟩, rfl⟩), rfl⟩
    · simp [TableSource.pagedBy]
  · rw [keyOrder_paging] at hp ⊢
    split
    · simp [TableSource.pagedBy, hk]
    · next wide => simp [wide] at hp

/-- The order of a copy that changes arrive under; none when `copyThenFollow` refuses the table, or
the order cannot be resolved. -/
def TableSource.copyOrder (s : TableSource) : Option TableOrder :=
  match resolveOrder s with
  | .ok o => if o.warning.isSome then none else some o
  | .error _ => none

theorem TableSource.copyOrder_eq_some {s : TableSource} {o : TableOrder} :
    s.copyOrder = some o ↔ resolveOrder s = .ok o ∧ o.warning = none := by
  unfold TableSource.copyOrder
  cases h : resolveOrder s with
  | error message => simp
  | ok o' =>
    cases hw : o'.warning with
    | none => simpa [hw] using fun e : o' = o => e ▸ hw
    | some warning =>
      simp only [hw, Option.isSome_some, if_true, reduceCtorEq, false_iff, not_and]
      intro e
      rw [← Except.ok.inj e, hw]
      exact Option.some_ne_none _

end Syncle.Snapshot
