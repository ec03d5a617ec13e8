import Syncle.Tables.Reader

/-!
# A read goes on where it stopped

What is left of a read of a table that stays as it is depends only on where the read stands, so a
read that is started anew at the same place yields the same. By keys that place is the checkpoint of
the last row, or, where there is none, the key of the row before the first one wanted, which is
looked up by its position. By OFFSET it is the position itself.

Two things that look like a place are none. Past the last row the look-up finds no row, and a read by
keys takes "no row" for "no place yet": it starts over. And a read by the engine's own cursor has no
place inside a page: it is resumed with the page that its last row came in.

A key is taken to have no NULL in it among the rows that are read (`Known`). SQLite allows one in a
key that is not the rowid, and there a read by keys does not even come to its end.
-/

namespace Syncle.Tables

open Lib Snapshot

variable {W : Type*}

/-! ## The order of a read -/

section Order

variable {s : TableSource} {o : TableOrder}

/-- All columns for an order: by OFFSET. -/
theorem columnOrder_offset (h : columnOrder s = .ok o) :
    o.keysetColumns = [] ∧ o.keysetColumn = none := by
  unfold columnOrder at h
  dsimp only at h
  generalize List.filter _ _ = columns at h
  cases columns with
  | nil => cases h
  | cons c cs =>
    obtain rfl := Except.ok.inj h
    exact ⟨rfl, rfl⟩

/-- After a tuple the sort is that of the tuple, which has the key in it and nothing that can be
NULL. -/
theorem tuple_order (h : resolveOrder s = .ok o) (sql : o.cursorPaging = false)
    (tuple : o.keysetColumns ≠ []) :
    o.sort.map (·.column) = o.keysetColumns ∧ s.key ≠ [] ∧ s.key ⊆ o.keysetColumns ∧
      ∀ c ∈ o.keysetColumns, c ∈ s.key ∨ s.neverNull c = true := by
  unfold resolveOrder at h
  split at h
  · obtain rfl := Except.ok.inj h
    unfold cursorOrder at sql tuple
    split at tuple
    · exact absurd rfl tuple
    · exact absurd rfl tuple
  · split at h
    · next unsorted =>
      cases key : s.key with
      | nil =>
        simp only [key] at h
        exact absurd (columnOrder_offset h).1 tuple
      | cons c cs =>
        simp only [key] at h
        obtain rfl := Except.ok.inj h
        unfold keyOrder at tuple ⊢
        split at tuple
        · exact absurd rfl tuple
        · next composite =>
          rw [if_neg composite]
          dsimp only at tuple ⊢
          cases paging : s.keysetPaging with
          | false => simp [paging] at tuple
          | true =>
            refine ⟨?_, by simp, fun x mem => ?_, fun x mem => .inl ?_⟩
            · simp [asc, Function.comp_def]
            · simpa using mem
            · simpa using mem
    · next sorted =>
      obtain rfl := Except.ok.inj h
      unfold sortedOrder at tuple ⊢
      split at tuple
      · exact absurd rfl tuple
      · next other =>
        rw [if_neg other]
        split at tuple
        · next can =>
          rw [if_pos can]
          simp only [TableSource.canKeyset, Bool.and_eq_true, Bool.not_eq_true',
            List.isEmpty_eq_false_iff, List.all_eq_true] at can
          obtain ⟨⟨⟨_, keyed⟩, _⟩, known⟩ := can
          refine ⟨rfl, keyed, fun c mem => ?_, fun c mem => ?_⟩
          · by_cases there : c ∈ s.sort.map (·.column)
            · simp only [TableSource.totalSort, List.map_append, List.mem_append]
              exact .inl there
            · simp only [TableSource.totalSort, List.map_append, List.mem_append, List.map_map]
              right
              refine List.mem_map.mpr ⟨c, List.mem_filter.mpr ⟨mem, by simpa using there⟩, rfl⟩
          · simp only [TableSource.totalSort, List.map_append, List.mem_append, List.map_map] at mem
            rcases mem with own | added
            · obtain ⟨x, mem, rfl⟩ := List.mem_map.mp own
              exact .inr (known x mem)
            · obtain ⟨x, mem, rfl⟩ := List.mem_map.mp added
              exact .inl (List.mem_filter.mp mem).1
        · exact absurd rfl tuple

/-- After a single key the sort is by the key. -/
theorem key_order (h : resolveOrder s = .ok o) (sql : o.cursorPaging = false) {c : String}
    (single : o.keysetColumn = some c) : o.sort = [asc c] ∧ s.key = [c] := by
  unfold resolveOrder at h
  split at h
  · obtain rfl := Except.ok.inj h
    unfold cursorOrder at sql single
    split at sql
    · next own => simp [own] at single
    · cases sql
  · split at h
    · cases key : s.key with
      | nil =>
        simp only [key] at h
        rw [(columnOrder_offset h).2] at single
        cases single
      | cons x xs =>
        simp only [key] at h
        obtain rfl := Except.ok.inj h
        unfold keyOrder at single ⊢
        split at single
        · next alone =>
          obtain rfl := Option.some.inj single
          rw [if_pos alone, alone]
          exact ⟨rfl, rfl⟩
        · cases single
    · obtain rfl := Except.ok.inj h
      unfold sortedOrder at single ⊢
      split at single
      · next byKey =>
        rw [if_pos byKey]
        unfold TableSource.byKey at byKey
        split at byKey
        · next x c' sort pk =>
          simp only [Bool.and_eq_true, decide_eq_true_eq] at byKey
          have is : c' = c := by simpa [TableSource.singlePk, pk] using single
          refine ⟨?_, by simp [TableSource.key, pk, is]⟩
          obtain ⟨column, direction⟩ := x
          simp only at byKey
          rw [sort, byKey.1, byKey.2, is, asc]
        · cases byKey
      · next other =>
        split at single
        · cases single
        · cases single

end Order

/-! ## What a database keeps of its tables -/

section Table

variable [LinearOrder W] {engine : Engine W} {s : TableSource} {o : TableOrder}
  {table : List (Row W)} {filters : List (FilterSpec W)}

/-- A key tells rows apart, but for those with a NULL in it, and a column that is declared NOT NULL
is not NULL. -/
structure Fits (engine : Engine W) (s : TableSource) (table : List (Row W)) : Prop where
  unique : table.Pairwise fun a b => s.key ≠ [] → (∀ c ∈ s.key, a c ≠ engine.null) →
    s.key.map a ≠ s.key.map b
  declared : ∀ row ∈ table, ∀ c, s.neverNull c = true → row c ≠ engine.null

/-- No row has a NULL in its key. -/
def Known (engine : Engine W) (s : TableSource) (rows : List (Row W)) : Prop :=
  ∀ row ∈ rows, ∀ c ∈ s.key, row c ≠ engine.null

theorem mem_table {row : Row W} (mem : row ∈ engine.matching filters table) : row ∈ table :=
  (List.mem_filter.mp mem).1

/-- Rows that the sort does not tell apart have the same key. -/
theorem distinct_of_key (fits : Fits engine s table) (keyed : s.key ≠ [])
    (known : Known engine s (engine.matching filters table))
    {sort : List SortSpec} (subset : s.key ⊆ sort.map (·.column)) :
    Distinct engine sort (engine.matching filters table) := by
  have apart : (engine.matching filters table).Pairwise fun a b => s.key.map a ≠ s.key.map b :=
    (fits.unique.sublist List.filter_sublist).imp_of_mem fun mem _ differ =>
      differ keyed (known _ mem)
  refine List.pairwise_map.mpr (apart.imp fun {a b} differ same => differ ?_)
  have tuple : tupleOf sort a = tupleOf sort b := rank_inj.mp same
  refine List.map_congr_left fun c mem => ?_
  obtain ⟨x, there, rfl⟩ := List.mem_map.mp (subset mem)
  exact List.map_inj_left.mp tuple x there

theorem placed_of_tuple (fits : Fits engine s table)
    (known : Known engine s (engine.matching filters table)) (h : resolveOrder s = .ok o)
    (sql : o.cursorPaging = false) (tuple : o.keysetColumns ≠ []) {row : Row W}
    (mem : row ∈ engine.matching filters table) : Placed engine o.sort row := by
  obtain ⟨columns, -, -, either⟩ := tuple_order h sql tuple
  intro x there
  have column : x.column ∈ o.keysetColumns := columns ▸ List.mem_map_of_mem there
  rcases either _ column with key | never
  · exact known row mem _ key
  · exact fits.declared row (mem_table mem) _ never

end Table

/-! ## What is left of a read -/

section Left

variable [LinearOrder W] {engine : Engine W} {table : List (Row W)} {src : Source W}
  {sort : List SortSpec}

/-- The rows that match, in the order of the read. -/
def ordered (engine : Engine W) (src : Source W) (sort : List SortSpec) (table : List (Row W)) :
    List (Row W) :=
  inOrder (rank engine.null sort) (engine.matching src.filters table)

/-- Behind a row lie the rows after it. -/
theorem filter_behind_row {null : W} {rows : List (Row W)}
    (distinct : (rows.map (rank null sort)).Nodup) {n : ℕ} {row : Row W}
    (at_ : (inOrder (rank null sort) rows)[n]? = some row) :
    (inOrder (rank null sort) rows).filter (behind (rank null sort) (some (rank null sort row))) =
      (inOrder (rank null sort) rows).drop (n + 1) := by
  have all : (inOrder (rank null sort) rows).filter (behind (rank null sort) none) =
      inOrder (rank null sort) rows := List.filter_eq_self.mpr fun _ _ => rfl
  have last : ((inOrder (rank null sort) rows).filter (behind (rank null sort) none)).take (n + 1) =
      (inOrder (rank null sort) rows).take n ++ [row] := by
    rw [all, List.take_add_one, at_, Option.toList_some]
  rw [filter_behind_last distinct last, all]

omit [LinearOrder W] in
theorem tupleOf_eq (sort : List SortSpec) (row : Row W) :
    (sort.map (·.column)).map row = tupleOf sort row := by
  rw [List.map_map]
  rfl

/-- The first page of a read. -/
theorem browse_top (lawful : engine.Lawful) {params : BrowseParams W} (plain : params.after = none)
    (top : params.offset = 0)
    (distinct : Distinct engine params.sort (engine.matching params.filters table)) :
    engine.browse table params =
      .ok (Page.of (engine.limitOf params.limit)
        (inOrder (rank engine.null params.sort) (engine.matching params.filters table))) := by
  rw [browse_offset lawful plain distinct, top]
  rfl

/-- **The pages after a tuple**: each is of what is left. -/
theorem browse_tuple (lawful : engine.Lawful) (some_ : sort ≠ [])
    (placed : ∀ row ∈ engine.matching src.filters table, Placed engine sort row)
    (distinct : Distinct engine sort (engine.matching src.filters table)) {last : Option (List W)}
    {l : List (Row W)}
    (h : LeftAt (ordered engine src sort table) (fun row => (sort.map (·.column)).map row) last l) :
    engine.browse table (tupleParams src sort (sort.map (·.column)) last) =
      .ok (Page.of (engine.limitOf src.pageSize) l) := by
  cases h with
  | top => exact browse_top lawful rfl rfl distinct
  | @after n row at_ =>
    have mem : row ∈ engine.matching src.filters table := mem_inOrder.mp (List.mem_of_getElem? at_)
    have known : engine.null ∉ tupleOf sort row := by
      intro null
      obtain ⟨x, there, is⟩ := List.mem_map.mp null
      exact placed row mem x there is
    have length : (tupleOf sort row).length = sort.length := by simp [tupleOf]
    rw [tupleOf_eq, browse_after lawful rfl some_ length known placed distinct]
    refine congrArg Except.ok ?_
    rw [pageAfter]
    exact congrArg _ (filter_behind_row distinct at_)

/-- **The pages after a single key.** -/
theorem browse_key (lawful : engine.Lawful) {c : String}
    (placed : ∀ row ∈ engine.matching src.filters table, row c ≠ engine.null)
    (distinct : Distinct engine [asc c] (engine.matching src.filters table)) {last : Option W}
    {l : List (Row W)} (h : LeftAt (ordered engine src [asc c] table) (fun row => row c) last l) :
    engine.browse table (keyParams engine.null src [asc c] c last) =
      .ok (Page.of (engine.limitOf src.pageSize) l) := by
  cases h with
  | top =>
    have none_ : (keyParams engine.null src [asc c] c none).filters = src.filters :=
      List.append_nil _
    rw [browse_top lawful rfl rfl (none_ ▸ distinct), none_]
    rfl
  | @after n row at_ =>
    have known : row c ≠ engine.null :=
      placed row (mem_inOrder.mp (List.mem_of_getElem? at_))
    have filters_ : (keyParams engine.null src [asc c] c (some (row c))).filters =
        src.filters ++ [{ column := c, operator := .gt, value := row c }] := by
      simp [keyParams, known]
    rw [browse_gt lawful rfl rfl rfl filters_ known placed distinct]
    refine congrArg Except.ok ?_
    rw [pageAfter]
    exact congrArg _ (filter_behind_row distinct at_)

/-- **The pages by OFFSET.** -/
theorem browse_from (lawful : engine.Lawful)
    (distinct : Distinct engine sort (engine.matching src.filters table)) (offset : ℕ) :
    engine.browse table (offsetParams src sort offset) =
      .ok (Page.of (engine.limitOf src.pageSize) ((ordered engine src sort table).drop offset)) := by
  rw [browse_offset lawful rfl distinct]
  rfl

end Left

/-! ## The reads -/

section Reads

/-- A read of a table can be resumed anywhere: `all` is what it yields from the top, `own` says of a
checkpoint that it is one of this order. -/
structure Resumes (read : ℕ → Option (KeysetCheckpoint W) → ℕ → Option (List (TableRow W)))
    (own : KeysetCheckpoint W → Prop) (all : List (TableRow W)) : Prop where
  whole : ∀ fuel, all.length < fuel → read 0 none fuel = some all
  position : ∀ (n : ℕ) (r : TableRow W), all[n]? = some r → r.index = n
  checkpoint : ∀ (n : ℕ) (r : TableRow W) (fuel : ℕ), all[n]? = some r → all.length < fuel →
    read (n + 1) r.keyset fuel = some (all.drop (n + 1))
  without : ∀ n key fuel, n ≤ all.length → (∀ k, key = some k → ¬ own k) → all.length < fuel →
    read n key fuel = some (all.drop n)

variable {keyset : Row W → Option (KeysetCheckpoint W)} {rows : List (Row W)}

@[simp] theorem length_numbered (index : ℕ) : (numbered keyset index rows).length = rows.length := by
  simp [numbered]

theorem numbered_getElem? {index n : ℕ} : (numbered keyset index rows)[n]? =
    (rows[n]?).map fun row => { row := row, index := index + n, keyset := keyset row } := by
  simp [numbered, List.getElem?_mapIdx]

/-- What is yielded from a position on has the numbers it would have had. -/
theorem numbered_drop (index n : ℕ) :
    (numbered keyset index rows).drop n = numbered keyset (index + n) (rows.drop n) := by
  refine List.ext_getElem? fun i => ?_
  rw [List.getElem?_drop, numbered_getElem?, numbered_getElem?, List.getElem?_drop, Nat.add_assoc]

/-- A read that is by the place of the last row resumes, where `seek` finds the row before the
first one wanted. -/
theorem resumes_of_places {read : ℕ → Option (KeysetCheckpoint W) → ℕ → Option (List (TableRow W))}
    {own : KeysetCheckpoint W → Prop}
    (top : ∀ key fuel, rows.length < fuel → read 0 key fuel = some (numbered keyset 0 rows))
    (checkpoint : ∀ n row fuel, rows[n]? = some row → rows.length < fuel →
      read (n + 1) (keyset row) fuel = some (numbered keyset (n + 1) (rows.drop (n + 1))))
    (without : ∀ n row key fuel, rows[n]? = some row → (∀ k, key = some k → ¬ own k) →
      rows.length < fuel → read (n + 1) key fuel =
        some (numbered keyset (n + 1) (rows.drop (n + 1)))) :
    Resumes read own (numbered keyset 0 rows) where
  whole fuel enough := top none fuel (by simpa using enough)
  position n r at_ := by
    rw [numbered_getElem?] at at_
    obtain ⟨row, -, rfl⟩ := Option.map_eq_some_iff.mp at_
    exact Nat.zero_add n
  checkpoint n r fuel at_ enough := by
    rw [numbered_getElem?] at at_
    obtain ⟨row, here, rfl⟩ := Option.map_eq_some_iff.mp at_
    rw [numbered_drop, Nat.zero_add (n + 1)]
    exact checkpoint n row fuel here (by simpa using enough)
  without n key fuel le foreign enough := by
    rw [length_numbered] at le enough
    rw [numbered_drop, Nat.zero_add]
    cases n with
    | zero => exact top key fuel enough
    | succ n => exact without n _ key fuel (List.getElem?_eq_getElem le) foreign enough

variable [LinearOrder W] {engine : Engine W} {table : List (Row W)} {src : Source W}
  {sort : List SortSpec}

/-- The row before the first one wanted. -/
theorem browse_seek (lawful : engine.Lawful)
    (distinct : Distinct engine sort (engine.matching src.filters table)) {n : ℕ} {row : Row W}
    (at_ : (ordered engine src sort table)[n]? = some row) :
    ∃ seek, engine.browse table (seekParams src sort (n + 1)) = .ok seek ∧
      seek.rows.head? = some row := by
  have one : engine.limitOf 1 = 1 := by
    have := lawful.maxRows_pos
    unfold Engine.limitOf
    omega
  refine ⟨_, browse_offset lawful rfl distinct, ?_⟩
  show (((ordered engine src sort table).drop n).take (engine.limitOf 1)).head? = some row
  rw [one, List.head?_take, if_neg Nat.one_ne_zero, List.head?_drop, at_]

/-- Past the last row there is none to be found. -/
theorem browse_seek_none (lawful : engine.Lawful)
    (distinct : Distinct engine sort (engine.matching src.filters table)) {n : ℕ}
    (past : (ordered engine src sort table).length ≤ n) :
    ∃ seek, engine.browse table (seekParams src sort (n + 1)) = .ok seek ∧
      seek.rows.head? = none := by
  refine ⟨_, browse_offset lawful rfl distinct, ?_⟩
  show (((ordered engine src sort table).drop n).take (engine.limitOf 1)).head? = none
  rw [List.drop_of_length_le past, List.take_nil, List.head?_nil]

/-- What the pages after a tuple come to, from any place. -/
theorem readPages_tuple (lawful : engine.Lawful) (some_ : sort ≠ [])
    (placed : ∀ row ∈ engine.matching src.filters table, Placed engine sort row)
    (distinct : Distinct engine sort (engine.matching src.filters table)) (call : ℕ) {fuel : ℕ}
    {last : Option (List W)} {l : List (Row W)}
    (at_ : LeftAt (ordered engine src sort table) (fun row => (sort.map (·.column)).map row) last l)
    (enough : (ordered engine src sort table).length < fuel) :
    readPages (fun _ last => engine.browse table (tupleParams src sort (sort.map (·.column)) last))
      (lastTuple (sort.map (·.column))) fuel call last = some l := by
  have pos := limitOf_pos lawful src.pageSize
  exact readPages_eq pos
    (LeftAt (ordered engine src sort table) fun row => (sort.map (·.column)).map row)
    (fun _ _ _ h => browse_tuple lawful some_ placed distinct h)
    (fun _ _ h longer => h.goesOn pos longer) at_ (Nat.lt_of_le_of_lt at_.length_le enough)

/-- **A read after a tuple resumes.** -/
theorem resumes_tuple (lawful : engine.Lawful) (some_ : sort ≠ [])
    (placed : ∀ row ∈ engine.matching src.filters table, Placed engine sort row)
    (distinct : Distinct engine sort (engine.matching src.filters table)) :
    Resumes (tupleRows (staticBrowser engine table) src sort (sort.map (·.column)))
      (fun k => resumeTuple (sort.map (·.column)) (some k) ≠ none)
      (numbered (tupleCheckpoint (sort.map (·.column))) 0 (ordered engine src sort table)) := by
  let columns := sort.map (·.column)
  have left := readPages_tuple lawful some_ placed distinct
  refine resumes_of_places ?_ ?_ ?_
  · intro key fuel enough
    have all := left 0 .top enough
    simp only [tupleRows, if_true, staticBrowser]
    rw [all]
    rfl
  · intro n row fuel at_ enough
    have rest := left 0 (.after at_) enough
    have resume : resumeTuple columns (tupleCheckpoint columns row) = some (columns.map row) := by
      simp [resumeTuple, tupleCheckpoint]
    simp only [tupleRows, Nat.succ_ne_zero, if_false]
    rw [resume]
    simp only [staticBrowser]
    rw [rest]
    rfl
  · intro n row key fuel at_ foreign enough
    have rest := left 1 (.after at_) enough
    obtain ⟨seek, found, head⟩ := browse_seek lawful distinct at_
    have resume : resumeTuple columns key = none := by
      cases key with
      | none => rfl
      | some k => exact not_not.mp (foreign k rfl)
    simp only [tupleRows, Nat.succ_ne_zero, if_false]
    rw [resume]
    simp only [staticBrowser, found, head, Option.map_some]
    rw [rest]
    rfl

/-- Past the last row, and with no checkpoint, it starts over. -/
theorem tupleRows_past (lawful : engine.Lawful) (some_ : sort ≠ [])
    (placed : ∀ row ∈ engine.matching src.filters table, Placed engine sort row)
    (distinct : Distinct engine sort (engine.matching src.filters table)) {n fuel : ℕ}
    {key : Option (KeysetCheckpoint W)} (past : (ordered engine src sort table).length < n)
    (foreign : ∀ k, key = some k → resumeTuple (sort.map (·.column)) (some k) = none)
    (enough : (ordered engine src sort table).length < fuel) :
    tupleRows (staticBrowser engine table) src sort (sort.map (·.column)) n key fuel =
      some (numbered (tupleCheckpoint (sort.map (·.column))) n (ordered engine src sort table)) := by
  obtain ⟨n, rfl⟩ : ∃ m, n = m + 1 := ⟨n - 1, by omega⟩
  have all := readPages_tuple lawful some_ placed distinct 1 .top enough
  obtain ⟨seek, found, head⟩ := browse_seek_none lawful distinct
    (Nat.le_of_lt_succ past)
  have resume : resumeTuple (sort.map (·.column)) key = none := by
    cases key with
    | none => rfl
    | some k => exact foreign k rfl
  simp only [tupleRows, Nat.succ_ne_zero, if_false]
  rw [resume]
  simp only [staticBrowser, found, head, Option.map_none]
  rw [all]
  rfl

/-- What the pages after a single key come to, from any place. -/
theorem readPages_key (lawful : engine.Lawful) {c : String}
    (placed : ∀ row ∈ engine.matching src.filters table, row c ≠ engine.null)
    (distinct : Distinct engine [asc c] (engine.matching src.filters table)) (call : ℕ) {fuel : ℕ}
    {last : Option W} {l : List (Row W)}
    (at_ : LeftAt (ordered engine src [asc c] table) (fun row => row c) last l)
    (enough : (ordered engine src [asc c] table).length < fuel) :
    readPages (fun _ last => engine.browse table (keyParams engine.null src [asc c] c last))
      (lastKey c) fuel call last = some l := by
  have pos := limitOf_pos lawful src.pageSize
  exact readPages_eq pos (LeftAt (ordered engine src [asc c] table) fun row => row c)
    (fun _ _ _ h => browse_key lawful placed distinct h)
    (fun _ _ h longer => h.goesOn pos longer) at_ (Nat.lt_of_le_of_lt at_.length_le enough)

/-- **A read after a single key resumes.** -/
theorem resumes_key (lawful : engine.Lawful) {c : String}
    (placed : ∀ row ∈ engine.matching src.filters table, row c ≠ engine.null)
    (distinct : Distinct engine [asc c] (engine.matching src.filters table)) :
    Resumes (keyRows (staticBrowser engine table) engine.null src [asc c] c)
      (fun k => k.column = c)
      (numbered (keyCheckpoint c) 0 (ordered engine src [asc c] table)) := by
  have left := readPages_key lawful placed distinct
  refine resumes_of_places ?_ ?_ ?_
  · intro key fuel enough
    have all := left 0 .top enough
    simp only [keyRows, if_true, staticBrowser]
    rw [all]
    rfl
  · intro n row fuel at_ enough
    have rest := left 0 (.after at_) enough
    simp only [keyRows, Nat.succ_ne_zero, if_false, keyCheckpoint, if_true]
    simp only [staticBrowser]
    rw [rest]
    rfl
  · intro n row key fuel at_ foreign enough
    have rest := left 1 (.after at_) enough
    obtain ⟨seek, found, head⟩ := browse_seek lawful distinct at_
    simp only [keyRows, Nat.succ_ne_zero, if_false]
    cases key with
    | none =>
      simp only [staticBrowser, found]
      simp only [head, Option.map_some, rest]
    | some k =>
      simp only [if_neg (foreign k rfl), staticBrowser, found]
      simp only [head, Option.map_some, rest]

/-- Past the last row, and with no checkpoint, it starts over. -/
theorem keyRows_past (lawful : engine.Lawful) {c : String}
    (placed : ∀ row ∈ engine.matching src.filters table, row c ≠ engine.null)
    (distinct : Distinct engine [asc c] (engine.matching src.filters table)) {n fuel : ℕ}
    {key : Option (KeysetCheckpoint W)} (past : (ordered engine src [asc c] table).length < n)
    (foreign : ∀ k, key = some k → k.column ≠ c)
    (enough : (ordered engine src [asc c] table).length < fuel) :
    keyRows (staticBrowser engine table) engine.null src [asc c] c n key fuel =
      some (numbered (keyCheckpoint c) n (ordered engine src [asc c] table)) := by
  obtain ⟨n, rfl⟩ : ∃ m, n = m + 1 := ⟨n - 1, by omega⟩
  have all := readPages_key lawful placed distinct 1 .top enough
  obtain ⟨seek, found, head⟩ := browse_seek_none lawful distinct
    (Nat.le_of_lt_succ past)
  simp only [keyRows, Nat.succ_ne_zero, if_false]
  cases key with
  | none =>
    simp only [staticBrowser, found]
    simp only [head, Option.map_none, all, Option.map_some]
  | some k =>
    simp only [if_neg (foreign k rfl), staticBrowser, found]
    simp only [head, Option.map_none, all, Option.map_some]

/-- A read by OFFSET, from any position. -/
theorem offsetRows_eq (lawful : engine.Lawful)
    (distinct : Distinct engine sort (engine.matching src.filters table)) {n fuel : ℕ}
    (enough : (ordered engine src sort table).length < fuel) :
    offsetRows (staticBrowser engine table) src sort n fuel =
      some (numbered (fun _ => none) n ((ordered engine src sort table).drop n)) := by
  have read : readPages (fun _ offset => engine.browse table (offsetParams src sort offset))
      (fun offset rows => offset + rows.length) fuel 0 n =
        some ((ordered engine src sort table).drop n) := by
    refine readPages_eq (limitOf_pos lawful src.pageSize)
      (fun offset l => l = (ordered engine src sort table).drop offset)
      (fun _ offset l is => ?_) (fun offset l is longer => ?_) rfl ?_
    · rw [is]
      exact browse_from lawful distinct offset
    · rw [is] at longer ⊢
      rw [List.length_take, Nat.min_eq_left longer.le, List.drop_drop]
    · exact Nat.lt_of_le_of_lt (List.drop_sublist _ _).length_le enough
  simp only [offsetRows, staticBrowser]
  rw [read]
  rfl

/-- **A read by OFFSET resumes**, whatever it is told of a checkpoint. -/
theorem resumes_offset (lawful : engine.Lawful)
    (distinct : Distinct engine sort (engine.matching src.filters table)) :
    Resumes (fun n _ => offsetRows (staticBrowser engine table) src sort n) (fun _ => False)
      (numbered (fun _ => none) 0 (ordered engine src sort table)) := by
  refine resumes_of_places ?_ ?_ ?_
  · intro key fuel enough
    exact offsetRows_eq lawful distinct enough
  · intro n row fuel at_ enough
    exact offsetRows_eq lawful distinct enough
  · intro n row key fuel at_ foreign enough
    exact offsetRows_eq lawful distinct enough

end Reads

/-! ## By the engine's cursor -/

section Cursor

variable {browser : Browser W}

/-- The same rows, under other positions. -/
def renumbered (index : ℕ) (all : List (TableRow W)) : List (TableRow W) :=
  all.mapIdx fun i r => { r with index := index + i }

theorem renumbered_append (index : ℕ) (a b : List (TableRow W)) :
    renumbered index (a ++ b) = renumbered index a ++ renumbered (index + a.length) b := by
  simp [renumbered, List.mapIdx_append, Nat.add_comm, Nat.add_left_comm]

theorem renumbered_numbered (index index' : ℕ) (keyset : Row W → Option (KeysetCheckpoint W))
    (rows : List (Row W)) :
    renumbered index' (numbered keyset index rows) = numbered keyset index' rows := by
  simp [renumbered, numbered, List.mapIdx_mapIdx, Function.comp_def]

/-- What a page adds, and the rest. -/
theorem cursorPages_cases {fuel index : ℕ} {cursor : String} {all : List (TableRow W)}
    (h : cursorPages browser (fuel + 1) cursor index = some all) :
    ∃ kept : List (Row W), ∀ read : ℕ → List (TableRow W),
      (read = fun i => numbered (fun _ => some { column := cursorColumn, value := .cursor cursor })
        i kept) →
      (all = read index ∧ ∀ fuel i, cursorPages browser (fuel + 1) cursor i = some (read i)) ∨
        ∃ next rest, cursorPages browser fuel next (index + kept.length) = some rest ∧
          all = read index ++ rest ∧ ∀ fuel i,
            cursorPages browser (fuel + 1) cursor i =
              (cursorPages browser fuel next (i + kept.length)).map (read i ++ ·) := by
  refine ⟨(browser.browseFrom cursor).rows.filter fun row => !browser.isSyncleOwnKey row,
    fun read is => ?_⟩
  subst is
  simp only [cursorPages] at h ⊢
  cases end_ : (browser.browseFrom cursor).nextCursor with
  | none =>
    simp only [end_] at h
    exact .inl ⟨(Option.some.inj h).symm, fun _ _ => rfl⟩
  | some next =>
    simp only [end_] at h ⊢
    by_cases empty : next.isEmpty = true
    · rw [if_pos empty] at h
      exact .inl ⟨(Option.some.inj h).symm, fun _ _ => if_pos empty⟩
    · rw [if_neg empty] at h
      obtain ⟨rest, more, is⟩ := Option.map_eq_some_iff.mp h
      exact .inr ⟨next, rest, more, is.symm, fun _ _ => if_neg empty⟩

/-- **A read from a cursor yields the same rows whenever it is begun.** -/
theorem cursorPages_again {fuel fuel' index : ℕ} {cursor : String} {all : List (TableRow W)}
    (h : cursorPages browser fuel cursor index = some all) (le : fuel ≤ fuel') (index' : ℕ) :
    cursorPages browser fuel' cursor index' = some (renumbered index' all) := by
  induction fuel generalizing fuel' cursor index index' all with
  | zero => cases h
  | succ fuel ih =>
    obtain ⟨fuel', rfl⟩ : ∃ n, fuel' = n + 1 := ⟨fuel' - 1, by omega⟩
    obtain ⟨kept, cases_⟩ := cursorPages_cases h
    rcases cases_ _ rfl with ⟨rfl, again⟩ | ⟨next, rest, more, rfl, again⟩
    · rw [again, renumbered_numbered]
    · rw [again, ih more (Nat.le_of_succ_le_succ le), Option.map_some, renumbered_append,
        renumbered_numbered, length_numbered]

/-- A read that is resumed at a row's checkpoint begins with the page of that row. -/
theorem cursorPages_resume {fuel index : ℕ} {cursor : String} {all : List (TableRow W)}
    (h : cursorPages browser fuel cursor index = some all) {n : ℕ} {r : TableRow W}
    (at_ : all[n]? = some r) :
    r.index = index + n ∧ ∃ from_ k, r.keyset = some { column := cursorColumn, value := .cursor from_ } ∧
      k ≤ n ∧ (∀ i x, k ≤ i → i ≤ n → all[i]? = some x → x.keyset = r.keyset) ∧
      ∀ index', cursorPages browser fuel from_ index' =
        some (renumbered index' (all.drop k)) := by
  induction fuel generalizing cursor index all n with
  | zero => cases h
  | succ fuel ih =>
    have again := fun index' => cursorPages_again h le_rfl index'
    obtain ⟨kept, cases_⟩ := cursorPages_cases h
    -- a row of the page that the cursor points at
    have here : ∀ {n x}, (numbered (fun _ => some
        { column := cursorColumn, value := .cursor cursor }) index kept)[n]? = some x →
          x.index = index + n ∧ x.keyset = some { column := cursorColumn, value := .cursor cursor } := by
      intro n x at_
      rw [numbered_getElem?] at at_
      obtain ⟨row, -, rfl⟩ := Option.map_eq_some_iff.mp at_
      exact ⟨rfl, rfl⟩
    rcases cases_ _ rfl with ⟨rfl, -⟩ | ⟨next, rest, more, rfl, -⟩
    · obtain ⟨position, keyset⟩ := here at_
      exact ⟨position, cursor, 0, keyset, Nat.zero_le n,
        fun i x _ _ there => (here there).2.trans keyset.symm, again⟩
    · by_cases inside : n < kept.length
      · rw [List.getElem?_append_left (by simpa using inside)] at at_
        obtain ⟨position, keyset⟩ := here at_
        refine ⟨position, cursor, 0, keyset, Nat.zero_le n, fun i x _ le there => ?_, again⟩
        rw [List.getElem?_append_left (by simpa using Nat.lt_of_le_of_lt le inside)] at there
        exact (here there).2.trans keyset.symm
      · rw [List.getElem?_append_right (by simpa using inside), length_numbered] at at_
        obtain ⟨position, from_, k, keyset, le, together, resumed⟩ := ih more at_
        refine ⟨by omega, from_, kept.length + k, keyset, by omega, fun i x ge le there => ?_,
          fun index' => ?_⟩
        · rw [List.getElem?_append_right (by simp; omega), length_numbered] at there
          exact together (i - kept.length) x (by omega) (by omega) there
        · have longer := cursorPages_again (resumed index') (Nat.le_succ fuel) index'
          have rest_ : (numbered (fun _ => some
              { column := cursorColumn, value := .cursor cursor }) index kept ++ rest).drop
                (kept.length + k) = rest.drop k := by
            rw [List.drop_append, List.drop_of_length_le (by simp), List.nil_append, length_numbered]
            congr 1
            omega
          rw [rest_, longer]
          simp [renumbered, List.mapIdx_mapIdx, Function.comp_def]

end Cursor

/-! ## Any read -/

section Any

variable [LinearOrder W]

/-- The checkpoint of a row. -/
def checkpointOf (o : TableOrder) : Row W → Option (KeysetCheckpoint W) :=
  if o.keysetColumns ≠ [] then tupleCheckpoint o.keysetColumns
  else
    match o.keysetColumn with
    | some c => keyCheckpoint c
    | none => fun _ => none

/-- A checkpoint that the read takes for its own. -/
def ownCheckpoint (o : TableOrder) (k : KeysetCheckpoint W) : Prop :=
  if o.cursorPaging then resumeCursor (some k) ≠ "0"
  else if o.keysetColumns ≠ [] then resumeTuple o.keysetColumns (some k) ≠ none
  else o.keysetColumn = some k.column

/-- By OFFSET. -/
def byOffset (o : TableOrder) : Prop := o.keysetColumns = [] ∧ o.keysetColumn = none

variable {src : Source W} {o : TableOrder} {engine : Engine W} {table : List (Row W)}

/-- What a database promises for a read in this order: its keys and declarations, no NULL in a key
that is read by, and no ties where the read goes by OFFSET. -/
structure Readable (engine : Engine W) (src : Source W) (o : TableOrder) (table : List (Row W)) :
    Prop where
  fits : Fits engine src.shape table
  known : ¬ byOffset o → Known engine src.shape (engine.matching src.filters table)
  total : byOffset o → Distinct engine o.sort (engine.matching src.filters table)

/-- What a single key needs of the table. -/
theorem Readable.single (readable : Readable engine src o table)
    (resolved : resolveOrder src.shape = .ok o) (sql : o.cursorPaging = false) {c : String}
    (single : o.keysetColumn = some c) :
    o.sort = [asc c] ∧ Distinct engine [asc c] (engine.matching src.filters table) ∧
      ∀ row ∈ engine.matching src.filters table, row c ≠ engine.null := by
  obtain ⟨sort, key⟩ := key_order resolved sql single
  have keyed : src.shape.key ≠ [] := by simp [key]
  have known := readable.known fun off => by cases single.symm.trans off.2
  refine ⟨sort, ?_, fun row mem => known row mem c (by simp [key])⟩
  exact distinct_of_key readable.fits keyed known (by simp [key, asc])

/-- What a tuple needs of the table. -/
theorem Readable.tuple (readable : Readable engine src o table)
    (resolved : resolveOrder src.shape = .ok o) (sql : o.cursorPaging = false)
    (tuple : o.keysetColumns ≠ []) :
    o.sort.map (·.column) = o.keysetColumns ∧ o.sort ≠ [] ∧
      Distinct engine o.sort (engine.matching src.filters table) ∧
      ∀ row ∈ engine.matching src.filters table, Placed engine o.sort row := by
  obtain ⟨columns, keyed, subset, -⟩ := tuple_order resolved sql tuple
  have known := readable.known fun off => tuple off.1
  refine ⟨columns, fun none => ?_, ?_, fun row mem => ?_⟩
  · rw [none] at columns
    exact tuple columns.symm
  · exact distinct_of_key readable.fits keyed known (columns ▸ subset)
  · exact placed_of_tuple readable.fits known resolved sql tuple mem

/-- What an SQL read of a table resumes as. -/
theorem rows_resumes (resolved : resolveOrder src.shape = .ok o) (sql : o.cursorPaging = false)
    (lawful : engine.Lawful) (readable : Readable engine src o table) :
    Resumes (rows (staticBrowser engine table) engine.null src o) (ownCheckpoint o)
      (numbered (checkpointOf o) 0 (ordered engine src o.sort table)) := by
  by_cases tuple : o.keysetColumns = []
  · cases single : o.keysetColumn with
    | some c =>
      obtain ⟨sort, distinct, placed⟩ := readable.single resolved sql single
      have resumes := resumes_key lawful placed distinct
      have read : rows (staticBrowser engine table) engine.null src o =
          keyRows (staticBrowser engine table) engine.null src [asc c] c := by
        funext start key fuel
        simp [rows, sql, tuple, single, sort]
      have own : ownCheckpoint (W := W) o = fun k => k.column = c := by
        funext k
        simp [ownCheckpoint, sql, tuple, single, eq_comm]
      simp only [read, own, checkpointOf, tuple, single, sort]
      exact resumes
    | none =>
      have resumes := resumes_offset lawful (readable.total ⟨tuple, single⟩)
      have read : rows (staticBrowser engine table) engine.null src o =
          fun n _ => offsetRows (staticBrowser engine table) src o.sort n := by
        funext start key fuel
        simp [rows, sql, tuple, single]
      have own : ownCheckpoint (W := W) o = fun _ => False := by
        funext k
        simp [ownCheckpoint, sql, tuple, single]
      simp only [read, own, checkpointOf, tuple, single]
      exact resumes
  · obtain ⟨columns, some_, distinct, placed⟩ := readable.tuple resolved sql tuple
    have resumes := resumes_tuple lawful some_ placed distinct
    rw [columns] at resumes
    have read : rows (staticBrowser engine table) engine.null src o =
        tupleRows (staticBrowser engine table) src o.sort o.keysetColumns := by
      funext start key fuel
      simp [rows, sql, tuple]
    have own : ownCheckpoint (W := W) o = fun k => resumeTuple o.keysetColumns (some k) ≠ none := by
      funext k
      simp [ownCheckpoint, sql, tuple]
    have checkpoint : checkpointOf (W := W) o = tupleCheckpoint o.keysetColumns := by
      simp [checkpointOf, tuple]
    rw [read, own, checkpoint]
    exact resumes

/-- Past the last row a read by keys that has no checkpoint yields the whole table again. -/
theorem rows_past (resolved : resolveOrder src.shape = .ok o) (sql : o.cursorPaging = false)
    (lawful : engine.Lawful) (readable : Readable engine src o table) (keys : ¬ byOffset o)
    {n fuel : ℕ} {key : Option (KeysetCheckpoint W)}
    (past : (ordered engine src o.sort table).length < n)
    (foreign : ∀ k, key = some k → ¬ ownCheckpoint o k)
    (enough : (ordered engine src o.sort table).length < fuel) :
    rows (staticBrowser engine table) engine.null src o n key fuel =
      some (numbered (checkpointOf o) n (ordered engine src o.sort table)) := by
  by_cases tuple : o.keysetColumns = []
  · cases single : o.keysetColumn with
    | none => exact absurd ⟨tuple, single⟩ keys
    | some c =>
      obtain ⟨sort, distinct, placed⟩ := readable.single resolved sql single
      have other : ∀ k, key = some k → k.column ≠ c := by
        intro k is own
        exact foreign k is (by simp [ownCheckpoint, sql, tuple, single, own])
      rw [sort] at past enough
      have read := keyRows_past lawful placed distinct past other enough
      simpa [rows, sql, tuple, single, sort, checkpointOf] using read
  · obtain ⟨columns, some_, distinct, placed⟩ := readable.tuple resolved sql tuple
    have other : ∀ k, key = some k → resumeTuple (o.sort.map (·.column)) (some k) = none := by
      intro k is
      have not_own := foreign k is
      simpa [ownCheckpoint, sql, tuple, columns] using not_own
    have read := tupleRows_past lawful some_ placed distinct past other enough
    rw [columns] at read
    simpa [rows, sql, tuple, checkpointOf] using read

/-- What a read of `all` can be resumed with after `n` rows: the checkpoint that was recorded there,
or none of this order. -/
inductive Recorded (o : TableOrder) (all : List (TableRow W)) :
    ℕ → Option (KeysetCheckpoint W) → Prop where
  | there {n : ℕ} {r : TableRow W} (at_ : all[n]? = some r) : Recorded o all (n + 1) r.keyset
  | without {n : ℕ} {key : Option (KeysetCheckpoint W)}
      (foreign : ∀ k, key = some k → ¬ ownCheckpoint o k) : Recorded o all n key

/-- A read of an SQL table goes on after `n` rows exactly if there are so many, or it goes by
OFFSET. -/
theorem sql_goes_on_iff (resolved : resolveOrder src.shape = .ok o) (sql : o.cursorPaging = false)
    (lawful : engine.Lawful) (readable : Readable engine src o table) {n fuel : ℕ}
    {key : Option (KeysetCheckpoint W)}
    (recorded : Recorded o (numbered (checkpointOf o) 0 (ordered engine src o.sort table)) n key)
    (enough : (ordered engine src o.sort table).length < fuel) :
    rows (staticBrowser engine table) engine.null src o n key fuel =
        some ((numbered (checkpointOf o) 0 (ordered engine src o.sort table)).drop n) ↔
      n ≤ (ordered engine src o.sort table).length ∨ byOffset o ∨
        ordered engine src o.sort table = [] := by
  have resumes := rows_resumes resolved sql lawful readable
  have enough_ : (numbered (checkpointOf o) 0 (ordered engine src o.sort table)).length < fuel := by
    simpa using enough
  cases recorded with
  | @there n r at_ =>
    have within := (List.getElem?_eq_some_iff.mp at_).1
    rw [length_numbered] at within
    exact iff_of_true (resumes.checkpoint n r fuel at_ enough_) (.inl within)
  | without foreign =>
    rcases Nat.lt_or_ge (ordered engine src o.sort table).length n with past | within
    · have none_left : (numbered (checkpointOf o) 0 (ordered engine src o.sort table)).drop n = [] :=
        List.drop_of_length_le (by simpa using past.le)
      rw [none_left]
      by_cases off : byOffset o
      · have read := offsetRows_eq (n := n) lawful (readable.total off) enough
        rw [List.drop_of_length_le past.le] at read
        refine iff_of_true ?_ (.inr (.inl off))
        simp only [rows, sql, off.1, off.2, ne_eq, not_true_eq_false, if_false, Bool.false_eq_true]
        exact read
      · rw [rows_past resolved sql lawful readable off past foreign enough, Option.some_inj,
          ← List.length_eq_zero_iff, length_numbered, List.length_eq_zero_iff]
        exact ⟨fun empty => .inr (.inr empty), fun h => (h.resolve_left past.not_ge).resolve_left off⟩
    · exact iff_of_true (resumes.without n key fuel (by simpa using within) foreign enough_)
        (.inl within)

/-- A read by the engine's own cursor goes on only from its beginning: a recorded cursor brings the
whole page of the last row again. -/
theorem cursor_goes_on_iff (paging : o.cursorPaging = true) {browser : Browser W} {null : W}
    {fuel : ℕ} {all : List (TableRow W)} (h : rows browser null src o 0 none fuel = some all) {n : ℕ}
    {key : Option (KeysetCheckpoint W)} (recorded : Recorded o all n key) :
    rows browser null src o n key fuel = some (all.drop n) ↔ n = 0 ∨ all = [] := by
  have read : ∀ start key, rows browser null src o start key fuel =
      cursorPages browser fuel (resumeCursor key) start := by
    intro start key
    simp only [rows, paging, if_true]
  have top : cursorPages browser fuel "0" 0 = some all := by
    rw [read] at h
    exact h
  cases recorded with
  | @there n r at_ =>
    obtain ⟨-, from_, k, keyset, le, -, again⟩ := cursorPages_resume top at_
    have within := (List.getElem?_eq_some_iff.mp at_).1
    have cursor : resumeCursor r.keyset = from_ := by rw [keyset]; rfl
    rw [read, cursor, again]
    refine iff_of_false (fun same => ?_) ?_
    · have lengths := congrArg List.length (Option.some.inj same)
      simp only [renumbered, List.length_mapIdx, List.length_drop] at lengths
      omega
    · rintro (zero | rfl)
      · exact absurd zero (Nat.succ_ne_zero n)
      · exact absurd within (Nat.not_lt_zero n)
  | without foreign =>
    have start : resumeCursor key = "0" := by
      cases key with
      | none => rfl
      | some k =>
        have not_own := foreign k rfl
        simpa [ownCheckpoint, paging] using not_own
    rw [read, start, cursorPages_again top le_rfl n]
    constructor
    · intro same
      have lengths := congrArg List.length (Option.some.inj same)
      simp only [renumbered, List.length_mapIdx, List.length_drop] at lengths
      rcases Nat.eq_zero_or_pos all.length with empty | some_
      · exact .inr (List.length_eq_zero_iff.mp empty)
      · exact .inl (by omega)
    · rintro (rfl | rfl)
      · exact (cursorPages_again top le_rfl 0).symm.trans top
      · simp [renumbered]

end Any

/-! ## An engine that sorts -/

/-- An engine that takes the rows that match, sorts them and cuts the page out. -/
def sortingEngine [LinearOrder W] (null : W) (like : FilterOperator → W → W → Bool) (maxRows : ℕ) :
    Engine W :=
  { null := null, like := like, maxRows := maxRows
    select := fun table q =>
      ((inOrder (rank null q.sort) (table.filter q.where_)).drop q.offset).take q.limit }

theorem sortingEngine_lawful [LinearOrder W] {null : W} {like : FilterOperator → W → W → Bool}
    {maxRows : ℕ} (pos : 0 < maxRows) : (sortingEngine null like maxRows).Lawful where
  maxRows_pos := pos
  select _ _ :=
    ⟨_, List.perm_insertionSort _ _, pairwise_inOrder _, rfl⟩

namespace Orders

/-- `orders`, by its primary key. -/
def source : Source ℕ :=
  { shape :=
      { table := "orders", sort := []
        probe := { primaryKey := ["id"], columns := [{ name := "id", nullable := false }], total := none }
        cursorPaging := false, keysetPaging := true, schema := none }
    filters := [], pageSize := 2 }

def byId : TableOrder := { sort := [asc "id"], total := none, keysetColumn := some "id" }

def engine : Engine ℕ := sortingEngine 0 (fun _ _ _ => false) 500

def table : List (Row ℕ) := [fun _ => 3, fun _ => 1, fun _ => 2]

theorem table_fits : Fits engine source.shape table where
  unique := by decide
  declared row mem c never := by
    have none : source.shape.neverNull c = false := rfl
    rw [none] at never
    cases never

theorem table_known : Known engine source.shape (engine.matching source.filters table) := by
  intro row mem c key
  have is : c = "id" := by simpa [source, TableSource.key] using key
  have positive : ∀ row ∈ table, row "id" ≠ 0 := by decide
  rw [is]
  exact positive row (mem_table mem)

theorem table_readable : Readable engine source byId table :=
  ⟨table_fits, fun _ => table_known, fun off => by cases off.2⟩

end Orders

end Syncle.Tables
