import Syncle.Cdc.Change
import Syncle.Spool.RowCodec

/-!
# Spooled entries, and the runs they go out in

An entry of the spool (`cdc-spool.service.ts`) is one change, or a notice that takes its place in
line among them. The consumer reads entries oldest first and cuts what it has read into runs
(`deliverableRuns`, `bridge-cdc.service.ts`): each can go out as one delivery.
-/

namespace Syncle.Spool

open Js Cdc

/-- `SpoolOp` -/
inductive SpoolOp where
  | change (op : CdcOperation)
  | notice
  deriving DecidableEq

structure SpoolEntry where
  op : SpoolOp
  row : Row
  cursor : String
  deriving DecidableEq

/-! ## The text of an entry -/

/-- The properties an entry's text may hold. `row` is how entries were written before the codec. -/
structure EntryText where
  op : SpoolOp
  cursor : String
  r : Option Json := none
  o : Option (List String) := none
  row : Option Row := none
  deriving DecidableEq

def encodeEntry (entry : SpoolEntry) : EntryText :=
  { op := entry.op
    cursor := entry.cursor
    r := some (encodeRows [entry.row])
    o := if entry.row.origins.length > 0 then some entry.row.origins else none }

/-- `decodeEntry`; none where it throws. -/
def decodeEntry (raw : EntryText) : Option SpoolEntry :=
  match raw.r with
  | some r =>
    match decodeRows r with
    | some (row :: _) =>
      some { op := raw.op, cursor := raw.cursor, row := row.withOrigins (raw.o.getD []) }
    | _ => none
  | none => raw.row.map fun row => { op := raw.op, cursor := raw.cursor, row := row }

/-- Can the row be stored and read back? -/
def SpoolEntry.Storable (entry : SpoolEntry) : Prop := survivesFields entry.row.columns = true

instance (entry : SpoolEntry) : Decidable entry.Storable := by
  unfold SpoolEntry.Storable
  infer_instance

theorem decodeRows_encodeRows (row : Row) :
    decodeRows (encodeRows [row]) =
      (decodeRow (encodeValue (.object row.columns))).map fun row => [row] := by
  cases h : decodeRow (encodeValue (.object row.columns)) <;>
    simp [encodeRows, ofList, decodeRows, rowList, h]

/-- **An entry comes out as it went in**, where it has been included. -/
theorem decodeEntry_encodeEntry {entry : SpoolEntry} (storable : entry.Storable) :
    decodeEntry (encodeEntry entry) = some entry := by
  have columns := decodeValue_encodeValue (.object entry.row.columns) storable
  have row : decodeRow (encodeValue (.object entry.row.columns)) =
      some { columns := entry.row.columns } := by
    simp [decodeRow, columns]
  obtain ⟨op, ⟨columns, origins⟩, cursor⟩ := entry
  simp only [decodeEntry, encodeEntry, decodeRows_encodeRows, row, Option.map_some]
  cases origins <;> simp [Row.withOrigins]

theorem storable_of_decodeEntry {raw : EntryText} {entry : SpoolEntry} (coded : raw.r.isSome)
    (h : decodeEntry raw = some entry) : entry.Storable := by
  obtain ⟨r, hr⟩ := Option.isSome_iff_exists.mp coded
  simp only [decodeEntry, hr] at h
  split at h
  · next row rest hrows =>
    cases r with
    | array items =>
      cases items with
      | nil => cases hrows
      | cons head tail =>
        simp only [decodeRows, rowList, Option.bind_eq_some_iff, Option.map_eq_some_iff] at hrows
        obtain ⟨first, hfirst, _, _, hcons⟩ := hrows
        obtain ⟨rfl, -⟩ := List.cons.inj hcons
        obtain rfl := Option.some.inj h
        unfold decodeRow at hfirst
        split at hfirst
        · next columns hcolumns =>
          obtain rfl := Option.some.inj hfirst
          have plain := survives_of_decodeValue head hcolumns
          -- where a row has been is no column of it
          simp only [SpoolEntry.Storable, Row.withOrigins]
          split <;> exact plain
        · cases hfirst
    | null | bool _ | number _ | string _ | object _ => cases hrows
  · cases h

/-- An entry survives the spool if and only if its row can be stored. -/
theorem decodeEntry_encodeEntry_iff (entry : SpoolEntry) :
    decodeEntry (encodeEntry entry) = some entry ↔ entry.Storable :=
  ⟨storable_of_decodeEntry rfl, decodeEntry_encodeEntry⟩

/-! ## Runs -/

/-- A stream's ids are a time in milliseconds and a counter, in lexicographic order. -/
structure StreamId where
  ms : ℕ
  seq : ℕ
  deriving DecidableEq

def StreamId.before (a b : StreamId) : Bool := decide (a.ms < b.ms ∨ a.ms = b.ms ∧ a.seq < b.seq)

/-- `nextStreamId` -/
def nextStreamId (id : StreamId) : StreamId := { id with seq := id.seq + 1 }

structure SpooledItem where
  id : StreamId
  entry : SpoolEntry
  deriving DecidableEq

/-- `pk.map((c) => row[c])` as an array's elements: a column the row does not have is `undefined`,
which is written as `null`. -/
def keyItems (row : Row) : List String → Items
  | [] => .nil
  | c :: rest => .cons ((row.get c).getD .null) (keyItems row rest)

/-- The serialised key of a row, none for a source without a key; the outer none is `JSON.stringify`
throwing. -/
def signature (pk : Option (List String)) (row : Row) : Option (Option Json) :=
  match pk with
  | some (c :: rest) => (stringifyItems (keyItems row (c :: rest))).map fun items => some (.array items)
  | _ => some none

/-- A truncate or a notice is never part of a larger delivery. -/
def alone (op : SpoolOp) : Bool := op = .change .truncate || op = .notice

/-- The state of `deliverableRuns`' loop. -/
structure Cutting where
  runs : List (List SpooledItem) := []
  current : List SpooledItem := []
  currentOp : Option SpoolOp := none
  seen : List Json := []

namespace Cutting

def breaks (s : Cutting) (op : SpoolOp) (sig : Option Json) : Bool :=
  !s.current.isEmpty && (s.currentOp ≠ some op || alone op || sig.any fun x => x ∈ s.seen)

def cut (s : Cutting) : Cutting :=
  { s with runs := s.runs ++ [s.current], current := [], seen := [] }

def push (s : Cutting) (item : SpooledItem) (sig : Option Json) : Cutting :=
  { s with
    current := s.current ++ [item]
    currentOp := some item.entry.op
    seen := s.seen ++ sig.toList }

/-- One turn of the loop. -/
def next (pk : Option (List String)) (s : Cutting) (item : SpooledItem) : Option Cutting :=
  (signature pk item.entry.row).map fun sig =>
    (if s.breaks item.entry.op sig then s.cut else s).push item sig

def finish (s : Cutting) : List (List SpooledItem) :=
  if s.current.length > 0 then s.runs ++ [s.current] else s.runs

end Cutting

def deliverableRuns (items : List SpooledItem) (pk : Option (List String)) :
    Option (List (List SpooledItem)) :=
  (items.foldlM (Cutting.next pk) {}).map Cutting.finish

/-! ## What a run is -/

/-- The key of a row, by the source's key columns. -/
def keyOf (pk : List String) (row : Row) : List (Option Value) := pk.map row.get

/-- The rows' keys are of the source's, where it has one. -/
def SameKey (pk : Option (List String)) (row row' : Row) : Prop :=
  ∃ c cs, pk = some (c :: cs) ∧ keyOf (c :: cs) row = keyOf (c :: cs) row'

/-- A run can go out as one delivery. -/
structure Deliverable (pk : Option (List String)) (run : List SpooledItem) : Prop where
  nonempty : run ≠ []
  /-- the same operation throughout -/
  op : ∀ i ∈ run, ∀ j ∈ run, i.entry.op = j.entry.op
  /-- a truncate or a notice stands alone -/
  alone : ∀ i ∈ run, alone i.entry.op → run = [i]
  /-- no repeated key -/
  keys : run.Pairwise fun i j => ¬ SameKey pk i.entry.row j.entry.row

theorem keyItems_congr {row row' : Row} {cs : List String} (h : keyOf cs row = keyOf cs row') :
    keyItems row cs = keyItems row' cs := by
  induction cs with
  | nil => rfl
  | cons c cs ih =>
    simp only [keyOf, List.map_cons, List.cons.injEq] at h
    simp [keyItems, h.1, ih h.2]

/-- Rows of one key have one signature. -/
theorem signature_congr {pk : Option (List String)} {row row' : Row} (h : SameKey pk row row') :
    signature pk row = signature pk row' ∧ signature pk row ≠ some none := by
  obtain ⟨c, cs, rfl, same⟩ := h
  simp [signature, keyItems_congr same]

/-- The loop's invariant: what it has taken stands in the runs and in the current one, in order. -/
structure Cutting.Good (pk : Option (List String)) (taken : List SpooledItem) (s : Cutting) :
    Prop where
  taken : s.runs.flatten ++ s.current = taken
  runs : ∀ run ∈ s.runs, Deliverable pk run
  current : s.current ≠ [] → Deliverable pk s.current
  op : ∀ i ∈ s.current, s.currentOp = some i.entry.op
  seen : ∀ i ∈ s.current, ∀ sig, signature pk i.entry.row = some (some sig) → sig ∈ s.seen

namespace Cutting

variable {pk : Option (List String)} {taken : List SpooledItem} {s : Cutting} {item : SpooledItem}

theorem breaks_eq_false {op : SpoolOp} {sig : Option Json} (nonempty : s.current ≠ []) :
    s.breaks op sig = false ↔
      s.currentOp = some op ∧ alone op = false ∧ ∀ x, sig = some x → x ∉ s.seen := by
  have full : s.current.isEmpty = false := by simpa using nonempty
  cases sig <;> simp [breaks, full, and_assoc]

theorem Good.start : ({} : Cutting).Good pk [] where
  taken := rfl
  runs := by simp
  current h := absurd rfl h
  op := by simp
  seen := by simp

theorem Good.cut (h : s.Good pk taken) (nonempty : s.current ≠ []) : s.cut.Good pk taken where
  taken := by simpa [Cutting.cut] using h.taken
  runs run hrun := by
    rcases List.mem_append.mp hrun with before | last
    · exact h.runs run before
    · rw [List.mem_singleton.mp last]
      exact h.current nonempty
  current h := absurd rfl h
  op := by simp [Cutting.cut]
  seen := by simp [Cutting.cut]

/-- An item that breaks nothing joins the current run. -/
theorem Good.push {sig : Option Json} (h : s.Good pk taken)
    (hsig : signature pk item.entry.row = some sig) (joins : s.breaks item.entry.op sig = false) :
    (s.push item sig).Good pk (taken ++ [item]) where
  taken := by simp [Cutting.push, ← h.taken]
  runs := h.runs
  current _ := by
    by_cases empty : s.current = []
    · simp only [Cutting.push, empty, List.nil_append]
      exact ⟨by simp, by simp, by simp, by simp⟩
    · obtain ⟨same, goesAlong, fresh⟩ := (breaks_eq_false empty).mp joins
      have run := h.current empty
      have op : ∀ i ∈ s.current, i.entry.op = item.entry.op := by
        intro i hi
        exact Option.some.inj ((h.op i hi).symm.trans same)
      constructor
      · simp [Cutting.push]
      · intro i hi j hj
        simp only [Cutting.push, List.mem_append, List.mem_singleton] at hi hj
        rcases hi with hi | rfl <;> rcases hj with hj | rfl
        · exact run.op i hi j hj
        · exact op i hi
        · exact (op j hj).symm
        · rfl
      · intro i hi solitary
        simp only [Cutting.push, List.mem_append, List.mem_singleton] at hi
        rcases hi with hi | rfl
        · rw [op i hi, goesAlong] at solitary
          cases solitary
        · rw [goesAlong] at solitary
          cases solitary
      · simp only [Cutting.push]
        refine List.pairwise_append.mpr ⟨run.keys, by simp, ?_⟩
        intro i hi j hj sameKey
        obtain rfl := List.mem_singleton.mp hj
        -- the key of the row that joins has been seen
        obtain ⟨hsame, keyed⟩ := signature_congr sameKey
        rw [hsame, hsig] at keyed
        cases sig with
        | none => exact keyed rfl
        | some x =>
          exact fresh x rfl (h.seen i hi x (hsame.trans hsig))
  op i hi := by
    simp only [Cutting.push, List.mem_append, List.mem_singleton] at hi ⊢
    rcases hi with hi | rfl
    · by_cases empty : s.current = []
      · simp [empty] at hi
      · rw [← ((breaks_eq_false empty).mp joins).1]
        exact h.op i hi
    · rfl
  seen i hi x hx := by
    simp only [Cutting.push, List.mem_append, List.mem_singleton] at hi ⊢
    rcases hi with hi | rfl
    · exact Or.inl (h.seen i hi x hx)
    · obtain rfl := Option.some.inj (hsig.symm.trans hx)
      exact Or.inr (by simp)

theorem Good.next {t : Cutting} (h : s.Good pk taken) (hnext : s.next pk item = some t) :
    t.Good pk (taken ++ [item]) := by
  obtain ⟨sig, hsig, rfl⟩ := Option.map_eq_some_iff.mp hnext
  split
  · next breaks =>
    have nonempty : s.current ≠ [] := by
      intro empty
      simp [Cutting.breaks, empty] at breaks
    exact (h.cut nonempty).push hsig (by simp [Cutting.breaks, Cutting.cut])
  · next joins => exact h.push hsig (by simpa using joins)

theorem Good.foldlM {items : List SpooledItem} {t : Cutting} (h : s.Good pk taken)
    (hrun : items.foldlM (Cutting.next pk) s = some t) : t.Good pk (taken ++ items) := by
  induction items generalizing s taken with
  | nil =>
    obtain rfl : s = t := by simpa using hrun
    simpa using h
  | cons item items ih =>
    simp only [List.foldlM_cons, Option.bind_eq_bind, Option.bind_eq_some_iff] at hrun
    obtain ⟨u, hu, rest⟩ := hrun
    simpa using ih (h.next hu) rest

end Cutting

/-- **What `deliverableRuns` cuts**: the items in order, in runs that can each go out as one
delivery. -/
theorem deliverableRuns_spec {items : List SpooledItem} {pk : Option (List String)}
    {runs : List (List SpooledItem)} (h : deliverableRuns items pk = some runs) :
    runs.flatten = items ∧ ∀ run ∈ runs, Deliverable pk run := by
  obtain ⟨t, ht, rfl⟩ := Option.map_eq_some_iff.mp h
  have good := Cutting.Good.start.foldlM ht
  have taken := good.taken
  unfold Cutting.finish
  split
  · next nonempty =>
    constructor
    · simpa using taken
    · intro run hrun
      rcases List.mem_append.mp hrun with before | last
      · exact good.runs run before
      · rw [List.mem_singleton.mp last]
        exact good.current (List.ne_nil_of_length_pos nonempty)
  · next empty =>
    have empty : t.current = [] := by simpa using empty
    rw [empty] at taken
    exact ⟨by simpa using taken, good.runs⟩

/-- Can the row's key be serialised? -/
def Keyable (pk : Option (List String)) (row : Row) : Prop :=
  ∀ cs, pk = some cs → (keyItems row cs).hasBigint = false

theorem signature_isSome {pk : Option (List String)} {row : Row} :
    (signature pk row).isSome ↔ Keyable pk row := by
  cases pk with
  | none => simp [signature, Keyable]
  | some cs =>
    cases cs with
    | nil => simp [signature, Keyable, keyItems, Items.hasBigint]
    | cons c cs => simp [signature, Keyable, stringifyItems_isSome]

/-- `deliverableRuns` throws where a key holds a `bigint`, and nowhere else. -/
theorem deliverableRuns_isSome {items : List SpooledItem} {pk : Option (List String)} :
    (deliverableRuns items pk).isSome ↔ ∀ item ∈ items, Keyable pk item.entry.row := by
  have fold : ∀ s : Cutting, (items.foldlM (Cutting.next pk) s).isSome ↔
      ∀ item ∈ items, Keyable pk item.entry.row := by
    induction items with
    | nil => simp
    | cons item items ih =>
      intro s
      have key := @signature_isSome pk item.entry.row
      simp only [List.foldlM_cons, Option.bind_eq_bind, List.forall_mem_cons, ← key]
      cases hsig : signature pk item.entry.row with
      | none => simp [Cutting.next, hsig]
      | some sig => simp [Cutting.next, hsig, ih]
  simp [deliverableRuns, fold]

end Syncle.Spool
