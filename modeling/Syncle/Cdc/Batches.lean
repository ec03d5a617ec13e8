import Syncle.Cdc.Failed
import Syncle.Js.Value
import Syncle.Lib.Run

/-!
# No batch holds a key twice

What `flush` takes out of the buffer is one statement at the destination: one operation, and no row
that an earlier one of it has already touched. `accept` keeps it so by the text of the row's key. Rows
with the same key have the same text, so a repeated key is always found, as long as there is a text:
`JSON.stringify` throws on a `bigint`, and a row whose key holds one is taken for a row without a key.
-/

namespace Syncle.Cdc

open Lib Js

/-!
## The key of a row

The signature is a JSON text of the key's values, and two rows have one text if and only if they have
one key, where the values have text.
-/

def itemsOf : List Value → Items
  | [] => .nil
  | head :: tail => .cons head (itemsOf tail)

/-- `keySignature`: identity of a row within a batch, or none when the source has no key. -/
def keySignature (primaryKey : List String) (row : Row) : Option Json :=
  if primaryKey.isEmpty then none
  else stringify (.array (itemsOf (primaryKey.map fun c => (row.get c).getD .undefined)))

/-- A column of the key, as a destination is given it: what is not there is null. -/
def keyValue (row : Row) (column : String) : Value :=
  match row.get column with
  | none | some .undefined => .null
  | some value => value

/-- Both rows have a key, and it is the same one. -/
def SameKey (primaryKey : List String) (a b : Row) : Prop :=
  primaryKey ≠ [] ∧ ∀ c ∈ primaryKey, keyValue a c = keyValue b c

/-- There is no `bigint` in the row's key. -/
def KeyHasText (primaryKey : List String) (row : Row) : Prop :=
  ∀ c ∈ primaryKey, (keyValue row c).hasBigint = false

instance (primaryKey : List String) (row : Row) : Decidable (KeyHasText primaryKey row) :=
  inferInstanceAs (Decidable (∀ c ∈ primaryKey, _))

section Key

variable {primaryKey : List String} {a b row : Row}

/-- What is not there is written as what is null. -/
theorem stringify_keyValue (row : Row) (column : String) :
    stringify ((row.get column).getD .undefined) = stringify (keyValue row column) := by
  unfold keyValue
  cases row.get column with
  | none => simp [stringify]
  | some value =>
    cases value with
    | undefined => simp [stringify]
    | _ => rfl

theorem stringifyItems_congr {columns : List String} {f g : String → Value}
    (same : ∀ c ∈ columns, stringify (f c) = stringify (g c)) :
    stringifyItems (itemsOf (columns.map f)) = stringifyItems (itemsOf (columns.map g)) := by
  induction columns with
  | nil => rfl
  | cons column columns ih =>
    have rest := ih fun c mem => same c (List.mem_cons_of_mem _ mem)
    simp only [List.map_cons, itemsOf, stringifyItems, same column List.mem_cons_self, rest]

theorem keySignature_eq (primaryKey : List String) (row : Row) :
    keySignature primaryKey row =
      if primaryKey.isEmpty then none
      else stringify (.array (itemsOf (primaryKey.map (keyValue row)))) := by
  simp only [keySignature, stringify]
  rw [stringifyItems_congr fun c _ => stringify_keyValue row c]

/-- **Rows with the same key have the same signature.** -/
theorem keySignature_of_sameKey (h : SameKey primaryKey a b) :
    keySignature primaryKey a = keySignature primaryKey b := by
  have same : primaryKey.map (keyValue a) = primaryKey.map (keyValue b) :=
    List.map_congr_left h.2
  rw [keySignature_eq, keySignature_eq, same]

/-- **There is a signature** wherever there is a key and its text. -/
theorem keySignature_isSome (keyed : primaryKey ≠ []) (text : KeyHasText primaryKey row) :
    ∃ k, keySignature primaryKey row = some k := by
  have items : ∀ {columns : List String}, (∀ c ∈ columns, (keyValue row c).hasBigint = false) →
      (itemsOf (columns.map (keyValue row))).hasBigint = false := by
    intro columns text
    induction columns with
    | nil => rfl
    | cons column columns ih =>
      have rest := ih fun c mem => text c (List.mem_cons_of_mem _ mem)
      simp [itemsOf, Items.hasBigint, text column List.mem_cons_self, rest]
  have array : (stringify (.array (itemsOf (primaryKey.map (keyValue row))))).isSome = true := by
    rw [stringify_isSome, Value.hasBigint, items text]
    rfl
  rw [keySignature_eq, if_neg (by simpa using keyed)]
  exact Option.isSome_iff_exists.mp array

end Key

/-!
## What the buffer holds

One operation, and one row of a key: whatever would break that goes out first, in a batch of its own.
-/

variable {γ : Type*}

/-- The bridge, whose source has that primary key. -/
def Bridge.keyedBy (b : Bridge γ Row Json) (primaryKey : List String) : Bridge γ Row Json :=
  { b with keySignature := Cdc.keySignature primaryKey }

/-- No two of them have the same key. -/
def DistinctKeys (primaryKey : List String) (items : List (Buffered γ Row Json)) : Prop :=
  items.Pairwise fun a b => ¬ SameKey primaryKey a.row b.row

def OneOperation (op : Option CdcOperation) (items : List (Buffered γ Row Json)) : Prop :=
  ∀ i ∈ items, op = some i.change.op

/-- A change that is to join a batch. -/
structure Joins (primaryKey : List String) (item : Buffered γ Row Json) : Prop where
  signed : item.keySig = keySignature primaryKey item.row
  notTruncate : item.change.op ≠ .truncate

/-- The batch that is being gathered. -/
structure Gathers (primaryKey : List String) (s : Stream γ Row Json) : Prop where
  tail : s.tailCursor = none → s.buffer = []
  op : OneOperation s.bufferOp s.buffer
  keys : ∀ i ∈ s.buffer, i.change.op ≠ .truncate →
    ∀ k, keySignature primaryKey i.row = some k → k ∈ s.bufferKeys
  distinct : DistinctKeys primaryKey s.buffer

def Then.Fits (primaryKey : List String) : Then γ Row Json → Prop
  | .join item => Joins primaryKey item
  | .emptied c => c.op = .truncate
  | .done | .notice _ | .halt _ => True

/-- What the chain may go on with: a truncate finds the buffer empty. -/
def TaskFits (primaryKey : List String) (s : Stream γ Row Json) : Prop :=
  match s.task with
  | .examining c => c.op ≠ .truncate
  | .flushing next => next.Fits primaryKey
  | .recognising c => c.op = .truncate ∧ (s.halted = none → s.buffer = [])
  | .idle | .draining _ | .noticing _ _ => True

def Then.cursors : Then γ Row Json → List γ
  | .join item => [item.change.cursor]
  | .emptied c => [c.cursor]
  | .done | .notice _ | .halt _ => []

/-- The changes that wait for their turn. -/
def Task.cursors : Task γ Row Json → List γ
  | .examining c | .recognising c => [c.cursor]
  | .flushing next => next.cursors
  | .idle | .draining _ | .noticing _ _ => []

def cursorsOf (items : List (Buffered γ Row Json)) : List γ := items.map (·.change.cursor)

/-- The stream has come to `s'`, and has not gathered anything but what is in `from_`, in order. -/
structure Goes (primaryKey : List String) (from_ : List γ) (s' : Stream γ Row Json) : Prop where
  gathers : s'.halted = none → Gathers primaryKey s'
  ready : TaskFits primaryKey s'
  order : (cursorsOf s'.buffer ++ s'.task.cursors).Sublist from_

section Chain

variable {b : Bridge γ Row Json} {primaryKey : List String} {s s' : Stream γ Row Json}
  {from_ : List γ}

/-- A stream that gathers the same. -/
structure SameGathered (s s' : Stream γ Row Json) : Prop where
  buffer : s'.buffer = s.buffer
  bufferOp : s'.bufferOp = s.bufferOp
  bufferKeys : s'.bufferKeys = s.bufferKeys
  tailCursor : s'.tailCursor = s.tailCursor
  halted : s'.halted = none → s.halted = none

theorem SameGathered.refl (s : Stream γ Row Json) : SameGathered s s := ⟨rfl, rfl, rfl, rfl, id⟩

theorem SameGathered.gathers (same : SameGathered s s')
    (h : s.halted = none → Gathers primaryKey s) (live : s'.halted = none) :
    Gathers primaryKey s' := by
  have h := h (same.halted live)
  refine ⟨?_, ?_, ?_, ?_⟩
  · rw [same.tailCursor, same.buffer]
    exact h.tail
  · rw [same.bufferOp, same.buffer]
    exact h.op
  · rw [same.bufferKeys, same.buffer]
    exact h.keys
  · rw [same.buffer]
    exact h.distinct

theorem sameGathered_goto (s : Stream γ Row Json) (task : Task γ Row Json) :
    SameGathered s (s.goto task) := ⟨rfl, rfl, rfl, rfl, id⟩

theorem sameGathered_clearTimer (s : Stream γ Row Json) : SameGathered s s.clearTimer :=
  ⟨rfl, rfl, rfl, rfl, id⟩

theorem sameGathered_scheduleFlush (s : Stream γ Row Json) : SameGathered s s.scheduleFlush := by
  unfold Stream.scheduleFlush
  split
  · exact .refl s
  · exact ⟨rfl, rfl, rfl, rfl, id⟩

theorem sameGathered_halt (s : Stream γ Row Json) (status : HaltStatus) :
    SameGathered s (s.halt status) := by
  unfold Stream.halt
  split
  · exact .refl s
  · exact ⟨rfl, rfl, rfl, rfl, fun h => absurd h (by simp)⟩

theorem sameGathered_see (s : Stream γ Row Json) (c : CdcChange γ Row) :
    SameGathered s (s.see b c) := by
  unfold Stream.see
  split
  · exact ⟨rfl, rfl, rfl, rfl, id⟩
  · exact .refl s

/-- The chain goes on to a task that asks for nothing. -/
theorem Goes.goto (h : s.halted = none → Gathers primaryKey s) {task : Task γ Row Json}
    (ready : TaskFits primaryKey (s.goto task)) (order : (cursorsOf s.buffer ++ task.cursors).Sublist from_) :
    Goes primaryKey from_ (s.goto task) :=
  ⟨(sameGathered_goto s task).gathers h, ready, order⟩

theorem Goes.idle (h : s.halted = none → Gathers primaryKey s)
    (order : (cursorsOf s.buffer).Sublist from_) : Goes primaryKey from_ (s.goto .idle) :=
  .goto h trivial (by simpa [Task.cursors] using order)

/-- The batch reaches further. -/
theorem Gathers.empty (buffer : s.buffer = []) : Gathers primaryKey s where
  tail _ := buffer
  op i mem := by simp [buffer] at mem
  keys i mem := by simp [buffer] at mem
  distinct := by
    rw [buffer]
    exact .nil

theorem Gathers.extendTo (h : Gathers primaryKey s) (cursor : γ) :
    Gathers primaryKey (s.extendTo cursor) :=
  ⟨nofun, h.op, h.keys, h.distinct⟩

theorem Goes.notePosition (h : s.halted = none → Gathers primaryKey s) (cursor : γ)
    (idle : s.task = .idle) (order : (cursorsOf s.buffer).Sublist from_) :
    Goes primaryKey from_ (s.notePosition b cursor) := by
  have stays : Goes primaryKey from_ s := by
    refine ⟨h, by rw [TaskFits, idle]; trivial, ?_⟩
    simpa [idle, Task.cursors] using order
  unfold Stream.notePosition
  split
  · exact stays
  · split
    · exact stays
    · have same := sameGathered_scheduleFlush (s.extendTo cursor)
      have task : (s.extendTo cursor).scheduleFlush.task = .idle := by
        rw [scheduleFlush_task]
        exact idle
      refine ⟨same.gathers fun live => (h live).extendTo cursor, by rw [TaskFits, task]; trivial, ?_⟩
      rw [same.buffer, task]
      simpa [Task.cursors, Stream.extendTo] using order

/-- After a flush there is nothing to wait for, or everything. -/
theorem Goes.flushAndFinish (h : s.halted = none → Gathers primaryKey s)
    (order : (cursorsOf s.buffer).Sublist from_) : Goes primaryKey from_ s.flushAndFinish := by
  have clear := (sameGathered_clearTimer s).gathers h
  have order : (cursorsOf s.buffer ++ []).Sublist from_ := by simpa using order
  unfold Stream.flushAndFinish
  split
  · exact .goto clear trivial order
  · exact .goto clear trivial order

/-- **A change joins the batch**: the batch is of its operation, and has no row of its key. -/
theorem Gathers.push (h : Gathers primaryKey s) {item : Buffered γ Row Json}
    (joins : Joins primaryKey item)
    (fits : s.buffer = [] ∨ s.bufferOp = some item.change.op ∧
      ∀ i ∈ s.buffer, ¬ SameKey primaryKey i.row item.row) :
    Gathers primaryKey (s.push b item) where
  tail := nofun
  op i mem := by
    rcases List.mem_append.mp mem with was | new
    · rcases fits with empty | ⟨op, -⟩
      · simp [empty] at was
      · exact op.symm.trans (h.op i was)
    · rw [List.mem_singleton.mp new]
      rfl
  keys i mem notTruncate k signed := by
    have kept : ∀ k ∈ s.bufferKeys, k ∈ (s.push b item).bufferKeys := by
      intro k mem
      simp only [Stream.push]
      split
      · exact List.mem_cons_of_mem _ mem
      · exact mem
    rcases List.mem_append.mp mem with was | new
    · exact kept k (h.keys i was notTruncate k signed)
    · obtain rfl := List.mem_singleton.mp new
      simp [Stream.push, joins.signed, signed]
  distinct := by
    refine List.pairwise_append.mpr ⟨h.distinct, List.pairwise_singleton _ _, fun i was j new => ?_⟩
    rw [List.mem_singleton.mp new]
    rcases fits with empty | ⟨-, apart⟩
    · simp [empty] at was
    · exact apart i was

theorem Goes.joinBatch (h : s.halted = none → Gathers primaryKey s) {item : Buffered γ Row Json}
    (joins : Joins primaryKey item)
    (fits : s.halted = none → s.buffer = [] ∨ s.bufferOp = some item.change.op ∧
      ∀ i ∈ s.buffer, ¬ SameKey primaryKey i.row item.row)
    (order : (cursorsOf s.buffer ++ [item.change.cursor]).Sublist from_) :
    Goes primaryKey from_ (s.joinBatch b item) := by
  have pushed : (s.push b item).halted = none → Gathers primaryKey (s.push b item) :=
    fun live => (h live).push joins (fits live)
  have order : (cursorsOf (s.push b item).buffer).Sublist from_ := by
    simpa [cursorsOf, Stream.push] using order
  unfold Stream.joinBatch
  dsimp only
  split
  · exact .flushAndFinish pushed order
  · have same := sameGathered_scheduleFlush (s.push b item)
    exact .idle (same.gathers pushed) (same.buffer ▸ order)

/-- What the caller of `flush` goes on with finds the buffer empty. -/
theorem Goes.afterFlush (h : s.halted = none → Gathers primaryKey s)
    (empty : s.halted = none → s.buffer = []) {next : Then γ Row Json}
    (ready : next.Fits primaryKey)
    (order : (cursorsOf s.buffer ++ next.cursors).Sublist from_) :
    Goes primaryKey from_ (s.afterFlush b next) := by
  have front : (cursorsOf s.buffer).Sublist from_ :=
    (List.sublist_append_left _ _).trans order
  cases next with
  | done => exact .idle h front
  | join item => exact .joinBatch h ready (fun live => .inl (empty live)) order
  | emptied c =>
    simp only [Stream.afterFlush]
    split
    · exact .idle h front
    · exact .goto h ⟨ready, empty⟩ order
  | notice cursor => exact .goto h trivial (by simpa [Task.cursors] using front)
  | halt status => exact .goto h trivial (by simpa [Task.cursors] using front)

theorem Goes.startFlush (h : s.halted = none → Gathers primaryKey s) {next : Then γ Row Json}
    (ready : next.Fits primaryKey)
    (order : (cursorsOf s.buffer ++ next.cursors).Sublist from_) :
    Goes primaryKey from_ (s.startFlush b next) := by
  have clear := (sameGathered_clearTimer s).gathers h
  unfold Stream.startFlush
  split
  · next done =>
    refine .afterFlush clear (fun live => ?_) ready order
    rcases done with tail | halted
    · exact (h live).tail (by simpa using tail)
    · rw [show s.halted = none from live] at halted
      cases halted
  · exact .goto clear ready order

theorem Gathers.takeBatch (h : s.halted = none → Gathers primaryKey s)
    (live : s.takeBatch.halted = none) :
    Gathers primaryKey s.takeBatch ∧ s.takeBatch.buffer = [] := by
  have live : s.halted = none := (Stream.takeBatch_frame s).2.2 ▸ live
  have h := h live
  unfold Stream.takeBatch
  split
  · next tail => exact ⟨h, h.tail tail⟩
  · simp only [live, Option.isSome_none, Bool.false_eq_true, if_false]
    exact ⟨.empty rfl, trivial⟩

end Chain

/-!
## `accept`

The way of a change to the buffer, function by function.
-/

section Accept

variable {b : Bridge γ Row Json} {primaryKey : List String} {s : Stream γ Row Json} {from_ : List γ}

/-- **A change whose key has a text** joins a batch that it fits in, or waits for the next. -/
theorem Goes.acceptRow (h : s.halted = none → Gathers primaryKey s) {c : CdcChange γ Row}
    (text : KeyHasText primaryKey c.row) (notTruncate : c.op ≠ .truncate)
    (order : (cursorsOf s.buffer ++ [c.cursor]).Sublist from_) :
    Goes primaryKey from_ (s.acceptRow (b.keyedBy primaryKey) c) := by
  let item : Buffered γ Row Json :=
    { change := c, row := c.row, keySig := keySignature primaryKey c.row }
  have joins : Joins primaryKey item := ⟨rfl, notTruncate⟩
  have unfolded : s.acceptRow (b.keyedBy primaryKey) c =
      if s.conflicts item then s.startFlush (b.keyedBy primaryKey) (.join item)
      else s.joinBatch (b.keyedBy primaryKey) item := rfl
  rw [unfolded]
  split
  · exact .startFlush h joins order
  · next fits =>
    refine .joinBatch h joins (fun live => ?_) order
    by_cases empty : s.buffer = []
    · exact .inl empty
    · right
      have gathers := h live
      simp only [Stream.conflicts, Bool.and_eq_true, not_and, Bool.not_eq_true] at fits
      have fits := fits (by simpa using empty)
      obtain ⟨op, new⟩ := Bool.or_eq_false_iff.mp fits
      have op : s.bufferOp = some c.op := by simpa using op
      refine ⟨op, fun i mem same => ?_⟩
      -- a row with the same key would have been found by its signature
      obtain ⟨k, signed⟩ := keySignature_isSome same.1 text
      have other : keySignature primaryKey i.row = some k :=
        (keySignature_of_sameKey same).trans signed
      have iOp : i.change.op = c.op := Option.some.inj ((gathers.op i mem).symm.trans op)
      have there := gathers.keys i mem (iOp ▸ notTruncate) k other
      simp only [item, signed, List.contains_eq_mem, decide_eq_false_iff_not] at new
      exact new there

theorem Goes.acceptMatching (h : s.halted = none → Gathers primaryKey s) {c : CdcChange γ Row}
    {echo : Echo Row}
    (text : KeyHasText primaryKey (match echo with | .forward row => row | _ => c.row))
    (notTruncate : c.op ≠ .truncate) (order : (cursorsOf s.buffer ++ [c.cursor]).Sublist from_) :
    Goes primaryKey from_ (s.acceptMatching (b.keyedBy primaryKey) c echo).1 := by
  have front : (cursorsOf s.buffer).Sublist from_ :=
    (List.sublist_append_left _ _).trans order
  have idle := (sameGathered_goto s .idle).gathers h
  unfold Stream.acceptMatching
  split
  · exact .notePosition idle _ rfl front
  · cases echo with
    | none => exact .acceptRow h text notTruncate order
    | drop =>
      dsimp only
      split
      · exact .idle h front
      · exact .notePosition idle _ rfl front
    | forward row =>
      dsimp only
      split
      · exact .idle h front
      · exact .acceptRow h text notTruncate order

theorem Goes.acceptChecked (h : s.halted = none → Gathers primaryKey s) {c : CdcChange γ Row}
    {drift : Drift} {echo : Echo Row}
    (text : KeyHasText primaryKey (match echo with | .forward row => row | _ => c.row))
    (notTruncate : c.op ≠ .truncate) (order : (cursorsOf s.buffer ++ [c.cursor]).Sublist from_) :
    Goes primaryKey from_ (s.acceptChecked (b.keyedBy primaryKey) c drift echo).1 := by
  have front : (cursorsOf s.buffer).Sublist from_ :=
    (List.sublist_append_left _ _).trans order
  have same := @sameGathered_see _ (b.keyedBy primaryKey) s c
  have matching : Goes primaryKey from_
      ((s.see (b.keyedBy primaryKey) c).acceptMatching (b.keyedBy primaryKey) c echo).1 :=
    .acceptMatching (same.gathers h) text notTruncate (same.buffer ▸ order)
  unfold Stream.acceptChecked
  split
  · cases drift with
    | throws => exact .idle h front
    | stop =>
      dsimp only
      split
      · exact .idle h front
      · exact .startFlush h trivial (by simpa [Then.cursors] using front)
    | clear =>
      dsimp only
      split
      · exact .idle h front
      · exact matching
  · exact matching

/-- The row that is signed, when `accept` has got all its answers. -/
def signedRow (b : Bridge γ Row Json) (c : CdcChange γ Row) (a : Examined Row) : Row :=
  match a.echo with
  | .forward row => row
  | .none | .drop => (Stream.completeRow b c a.completion).elim c.row (·.row)

/-- **`accept`**, of a change whose key has a text when it is signed. -/
theorem Goes.examine (h : s.halted = none → Gathers primaryKey s) {c : CdcChange γ Row}
    {a : Examined Row} (text : KeyHasText primaryKey (signedRow (b.keyedBy primaryKey) c a))
    (notTruncate : c.op ≠ .truncate) (order : (cursorsOf s.buffer ++ [c.cursor]).Sublist from_) :
    Goes primaryKey from_ (s.examine (b.keyedBy primaryKey) c a).1 := by
  have front : (cursorsOf s.buffer).Sublist from_ :=
    (List.sublist_append_left _ _).trans order
  unfold Stream.examine
  cases completed : Stream.completeRow (b.keyedBy primaryKey) c a.completion with
  | none =>
    have same := sameGathered_halt s .failed
    exact .idle (same.gathers h) (same.buffer ▸ front)
  | some c' =>
    have kept : c'.op = c.op ∧ c'.cursor = c.cursor := by
      unfold Stream.completeRow at completed
      split at completed
      · split at completed
        · obtain rfl := Option.some.inj completed
          exact ⟨rfl, rfl⟩
        · cases completed
      · obtain rfl := Option.some.inj completed
        exact ⟨rfl, rfl⟩
    refine .acceptChecked h ?_ (kept.1 ▸ notTruncate) (kept.2 ▸ order)
    rw [signedRow, completed] at text
    cases echo : a.echo with
    | none => simpa [echo] using text
    | drop => simpa [echo] using text
    | forward row => simpa [echo] using text

theorem Goes.acceptTruncate (h : s.halted = none → Gathers primaryKey s)
    {c : CdcChange γ Row} {echo : Echo Row} (truncate : c.op = .truncate)
    (empty : s.halted = none → s.buffer = [])
    (order : (cursorsOf s.buffer ++ [c.cursor]).Sublist from_) :
    Goes primaryKey from_ (s.acceptTruncate b c echo).1 := by
  have front : (cursorsOf s.buffer).Sublist from_ :=
    (List.sublist_append_left _ _).trans order
  have idle := (sameGathered_goto s .idle).gathers h
  unfold Stream.acceptTruncate
  split
  · exact .idle h front
  · next live =>
    have empty := empty (by simpa using live)
    -- it goes alone
    have alone : ∀ row, Goes primaryKey from_ (s.pushTruncate c row).flushAndFinish := by
      intro row
      have one : ∀ i ∈ (s.pushTruncate c row).buffer, i.change = c := by
        intro i mem
        rw [Stream.pushTruncate, empty] at mem
        rw [List.mem_singleton.mp mem]
      refine .flushAndFinish (fun _ => ⟨nofun, fun i mem => ?_, fun i mem not => ?_, ?_⟩)
        (by simpa [cursorsOf, Stream.pushTruncate] using order)
      · rw [one i mem]
        rfl
      · exact absurd (one i mem ▸ truncate) not
      · rw [Stream.pushTruncate, empty]
        exact List.pairwise_singleton _ _
    cases echo with
    | none => exact alone c.row
    | drop => exact .notePosition idle _ rfl front
    | forward row => exact alone row

/-- **What is handed over.** -/
theorem Goes.takeItem (h : s.halted = none → Gathers primaryKey s) (idle : s.task = .idle)
    {item : StreamItem γ Row} (order : (cursorsOf s.buffer ++ [item.cursor]).Sublist from_) :
    Goes primaryKey from_ (s.takeItem b item) := by
  have front : (cursorsOf s.buffer).Sublist from_ :=
    (List.sublist_append_left _ _).trans order
  have stays : Goes primaryKey from_ s := by
    refine ⟨h, by rw [TaskFits, idle]; trivial, ?_⟩
    simpa [idle, Task.cursors] using front
  cases item with
  | skip cursor => exact .notePosition h cursor idle front
  | notice cursor =>
    simp only [Stream.takeItem]
    split
    · exact stays
    · split
      · exact stays
      · exact .startFlush h trivial (by simpa [Then.cursors] using front)
  | change c =>
    simp only [Stream.takeItem]
    split
    · exact stays
    · split
      · exact stays
      · split
        · next truncate => exact .startFlush h truncate order
        · next notTruncate => exact .goto h notTruncate order

end Accept

/-!
## Runs

Behind the buffer the batches are counted: what was taken off it was handed to the sink, once.
-/

/-- The bridge, what the provider has handed over, and what `flush` has taken out of the buffer. -/
structure Recorded (γ : Type*) where
  world : World γ Row Json
  handed : List γ
  taken : List (Batch γ Row Json)

def handedBy (src : List (StreamItem γ Row)) (w : World γ Row Json) : Event Row → Option γ
  | .take => (src[w.next]?).map StreamItem.cursor
  | _ => none

/-- The delivery that a flush has begun. -/
def takenBy (after : World γ Row Json) : Event Row → Option (Batch γ Row Json)
  | .flush => (after.stream.bind Stream.inflight).map fun d => { op := d.op, items := d.items }
  | _ => none

def Recorded.step (b : Bridge γ Row Json) (src : List (StreamItem γ Row)) (s : Recorded γ)
    (e : Event Row) : Option (Recorded γ) :=
  (World.step b src s.world e).map fun w =>
    { world := w
      handed := s.handed ++ (handedBy src s.world e).toList
      taken := s.taken ++ (takenBy w e).toList }

def Recorded.fresh : Recorded γ := { world := World.fresh, handed := [], taken := [] }

/-- The change that `accept` is working on. -/
def World.examining (w : World γ Row Json) : Option (CdcChange γ Row) :=
  w.stream.bind fun s =>
    match s.task with
    | .examining c => some c
    | _ => none

/-- What is asked: that every key that is signed has a text. -/
def SignsText (b : Bridge γ Row Json) (primaryKey : List String) (s : Recorded γ) :
    Event Row → Prop
  | .examined a => ∀ c ∈ s.world.examining, KeyHasText primaryKey (signedRow b c a)
  | _ => True

instance (b : Bridge γ Row Json) (primaryKey : List String) (s : Recorded γ) (e : Event Row) :
    Decidable (SignsText b primaryKey s e) :=
  match e with
  | .examined a =>
    inferInstanceAs (Decidable (∀ c ∈ s.world.examining, KeyHasText primaryKey (signedRow b c a)))
  | .take | .recognised _ | .timer | .timedFlush | .flush | .drained | .noticed _ _ _ | .fatal
  | .attempted _ | .work _ | .checkpoint _ _ | .reconnect _ | .crash | .restart _ => .isTrue trivial

/-- The batches of a run: one operation each, no key twice, and the changes in the order in which
they were handed over. -/
structure KeepsKeysApart (primaryKey : List String) (s : Recorded γ) : Prop where
  oneOperation : ∀ batch ∈ s.taken, OneOperation batch.op batch.items
  distinct : ∀ batch ∈ s.taken, DistinctKeys primaryKey batch.items
  order : (cursorsOf (s.taken.flatMap (·.items))).Sublist s.handed

def World.cursors (w : World γ Row Json) : List γ :=
  match w.stream with
  | some s => cursorsOf s.buffer ++ s.task.cursors
  | none => []

structure Sound (primaryKey : List String) (s : Recorded γ) : Prop where
  stream : ∀ st, s.world.stream = some st →
    (st.halted = none → Gathers primaryKey st) ∧ TaskFits primaryKey st
  batches : ∀ batch ∈ s.taken,
    OneOperation batch.op batch.items ∧ DistinctKeys primaryKey batch.items
  order : (cursorsOf (s.taken.flatMap (·.items)) ++ s.world.cursors).Sublist s.handed

section Steps

variable {b : Bridge γ Row Json} {src : List (StreamItem γ Row)} {primaryKey : List String}
  {s : Recorded γ} {st st' : Stream γ Row Json} {w : World γ Row Json}

/-- A step of the chain. -/
theorem Sound.goes (h : Sound primaryKey s) (new : Option γ) (is : w.stream = some st')
    (goes : Goes primaryKey (s.world.cursors ++ new.toList) st') :
    Sound primaryKey { world := w, handed := s.handed ++ new.toList, taken := s.taken } where
  stream other at_ := by
    obtain rfl := Option.some.inj (is.symm.trans at_)
    exact ⟨goes.gathers, goes.ready⟩
  batches := h.batches
  order := by
    have grown : (cursorsOf (s.taken.flatMap (·.items)) ++ (s.world.cursors ++ new.toList)).Sublist
        (s.handed ++ new.toList) := by
      rw [← List.append_assoc]
      exact h.order.append (List.Sublist.refl _)
    simp only [World.cursors, is]
    exact ((List.Sublist.refl _).append goes.order).trans grown

/-- A step of the delivery. -/
theorem Sound.still (h : Sound primaryKey s) (was : s.world.stream = some st)
    (is : w.stream = some st') (same : SameGathered st st') (task : st'.task = st.task) :
    Sound primaryKey { s with world := w } where
  stream other at_ := by
    obtain rfl := Option.some.inj (is.symm.trans at_)
    obtain ⟨gathers, ready⟩ := h.stream st was
    refine ⟨same.gathers gathers, ?_⟩
    rw [TaskFits] at ready ⊢
    rw [task]
    cases at_task : st.task with
    | recognising c =>
      simp only [at_task] at ready ⊢
      exact ⟨ready.1, fun live => same.buffer ▸ ready.2 (same.halted live)⟩
    | _ => simp_all
  batches := h.batches
  order := by
    have order := h.order
    simp only [World.cursors, was, is, same.buffer, task] at order ⊢
    exact order

theorem Sound.more (h : Sound primaryKey s) (new : List γ) :
    Sound primaryKey { s with handed := s.handed ++ new } where
  stream := h.stream
  batches := h.batches
  order := h.order.trans (List.sublist_append_left _ _)

/-- What was gathered is gone, with the process. -/
theorem Sound.empty (h : Sound primaryKey s) (down : w.stream = none) :
    Sound primaryKey { s with world := w } where
  stream st at_ := by
    rw [down] at at_
    cases at_
  batches := h.batches
  order := by
    have front := (List.sublist_append_left _ _).trans h.order
    simpa [World.cursors, down] using front

theorem Sound.started (h : Sound primaryKey s) {cursorJson : Option γ} {cursorOffset : ℕ}
    (is : w.stream = some (Stream.start cursorJson cursorOffset)) :
    Sound primaryKey { s with world := w } where
  stream st at_ := by
    obtain rfl := Option.some.inj (is.symm.trans at_)
    exact ⟨fun _ => .empty rfl, trivial⟩
  batches := h.batches
  order := by
    have front := (List.sublist_append_left _ _).trans h.order
    simpa [World.cursors, is, Stream.start, cursorsOf, Task.cursors] using front

/-- What a flush takes is the whole batch. -/
theorem takeBatch_cases (h : st.halted = none → Gathers primaryKey st) :
    st.takeBatch = st ∧ (st.halted = none → st.buffer = []) ∨
      st.halted = none ∧ st.takeBatch.buffer = [] ∧
        ∃ d, st.takeBatch.inflight = some d ∧ d.op = st.bufferOp ∧ d.items = st.buffer := by
  unfold Stream.takeBatch
  split
  · next tail => exact .inl ⟨rfl, fun live => (h live).tail tail⟩
  · split
    · next halted => exact .inl ⟨rfl, fun live => by rw [live] at halted; cases halted⟩
    · next live => exact .inr ⟨by simpa using live, rfl, _, rfl, rfl, rfl⟩

/-- **A flush.** -/
theorem Sound.flush (h : Sound primaryKey s) {next : Then γ Row Json}
    (was : s.world.stream = some st) (task : st.task = .flushing next) (free : st.inflight = none)
    (is : w.stream = some (st.takeBatch.afterFlush b next)) :
    Sound primaryKey
      { world := w, handed := s.handed, taken := s.taken ++ (takenBy w .flush).toList } := by
  obtain ⟨gathers, ready⟩ := h.stream st was
  have ready : next.Fits primaryKey := by simpa [TaskFits, task] using ready
  have order := h.order
  have cursors : s.world.cursors = cursorsOf st.buffer ++ next.cursors := by
    simp [World.cursors, was, task, Task.cursors]
  have inflight : (st.takeBatch.afterFlush b next).inflight = st.takeBatch.inflight :=
    (Stream.sameDelivery_afterFlush st.takeBatch next).inflight
  rcases takeBatch_cases gathers with ⟨same, empty⟩ | ⟨live, emptied, d, began, op, items⟩
  · rw [same] at is inflight
    have nothing : takenBy w .flush = none := by simp [takenBy, is, inflight, free]
    have goes : Goes primaryKey (s.world.cursors ++ []) (st.afterFlush b next) := by
      rw [cursors, List.append_nil]
      exact .afterFlush gathers empty ready (List.Sublist.refl _)
    have kept := h.goes none is goes
    simpa [nothing] using kept
  · have taken : takenBy w .flush = some { op := st.bufferOp, items := st.buffer } := by
      simp [takenBy, is, inflight, began, op, items]
    have goes : Goes primaryKey next.cursors (st.takeBatch.afterFlush b next) := by
      have kept := Gathers.takeBatch gathers
      refine .afterFlush (fun live => (kept live).1) (fun live => (kept live).2) ready ?_
      rw [emptied]
      exact List.Sublist.refl _
    refine ⟨fun other at_ => ?_, fun batch mem => ?_, ?_⟩
    · obtain rfl := Option.some.inj (is.symm.trans at_)
      exact ⟨goes.gathers, goes.ready⟩
    · rcases List.mem_append.mp mem with old | new
      · exact h.batches batch old
      · rw [taken, Option.toList_some, List.mem_singleton] at new
        rw [new]
        exact ⟨(gathers live).op, (gathers live).distinct⟩
    · rw [cursors, ← List.append_assoc] at order
      simp only [taken, World.cursors, is, Option.toList_some, List.flatMap_append, List.flatMap_cons,
        List.flatMap_nil, List.append_nil, cursorsOf, List.map_append] at order ⊢
      exact ((List.Sublist.refl _).append goes.order).trans order

theorem sameGathered_deliver (st : Stream γ Row Json) (d : Option (Delivery γ Row Json)) :
    SameGathered st (st.deliver d) := ⟨rfl, rfl, rfl, rfl, id⟩

theorem SameGathered.trans {t u v : Stream γ Row Json} (h : SameGathered t u)
    (h' : SameGathered u v) : SameGathered t v :=
  ⟨h'.buffer.trans h.buffer, h'.bufferOp.trans h.bufferOp, h'.bufferKeys.trans h.bufferKeys,
    h'.tailCursor.trans h.tailCursor, fun live => h.halted (h'.halted live)⟩

/-! ### The delivery -/

/-- It may count a failure, or stop the bridge. -/
structure Beside (st st' : Stream γ Row Json) : Prop where
  gathered : SameGathered st st'
  task : st'.task = st.task

theorem beside_count (st : Stream γ Row Json) (n : ℕ) :
    Beside st { st with consecutiveFailures := n } := ⟨⟨rfl, rfl, rfl, rfl, id⟩, rfl⟩

theorem Beside.refl (st : Stream γ Row Json) : Beside st st := ⟨.refl st, rfl⟩

theorem Beside.trans {t u v : Stream γ Row Json} (h : Beside t u) (h' : Beside u v) : Beside t v :=
  ⟨h.gathered.trans h'.gathered, h'.task.trans h.task⟩

theorem beside_halt (st : Stream γ Row Json) (status : HaltStatus) : Beside st (st.halt status) :=
  ⟨sameGathered_halt st status, (Stream.sameChain_halt st status).task⟩

theorem beside_deliver (st : Stream γ Row Json) (d : Option (Delivery γ Row Json)) :
    Beside st (st.deliver d) := ⟨sameGathered_deliver st d, rfl⟩

theorem beside_stopBatch (v : World γ Row Json) (st : Stream γ Row Json) (recorded : Bool) :
    Beside st (stopBatch v st recorded).2.1 := by
  unfold stopBatch
  split
  · exact beside_halt st _
  · exact .refl st

theorem beside_settleFailed (v : World γ Row Json) (st : Stream γ Row Json)
    (d : Delivery γ Row Json) (delivered : List (Buffered γ Row Json))
    (failed : List (Failed γ Row Json)) (a : Worked) :
    Beside st (settleFailed b v st d delivered failed a).2.1 := by
  have counted : Beside st (countFailure st delivered) := beside_count st _
  unfold settleFailed
  split
  · exact beside_count st _
  · split
    · exact counted.trans (beside_stopBatch _ _ _)
    · split
      · exact counted
      · split
        · exact counted.trans (beside_stopBatch _ _ _)
        · unfold parkFailed
          split
          · exact counted
          · exact counted
          · exact counted

theorem beside_runWork (v : World γ Row Json) (st : Stream γ Row Json) (d : Delivery γ Row Json)
    (outcome : Outcome) (a : Worked) : Beside st (runWork b v st d outcome a).2.1 := by
  cases outcome with
  | nothing => exact .refl st
  | success =>
    simp only [runWork]
    split
    · exact beside_count st _
    · exact .refl st
  | failed error targets =>
    simp only [runWork, handleFailedBatch]
    split
    · exact beside_stopBatch v st _
    · split
      · split
        · exact beside_stopBatch _ st _
        · exact beside_settleFailed _ st d _ _ a
      · exact beside_settleFailed v st d _ _ a

theorem beside_of_runWork {v v' : World γ Row Json} {d : Delivery γ Row Json} {outcome : Outcome}
    {a : Worked} {r : Work} (h : runWork b v st d outcome a = (v', st', r)) : Beside st st' := by
  have beside := beside_runWork (b := b) v st d outcome a
  rw [h] at beside
  exact beside

theorem beside_settleThrew (st : Stream γ Row Json) (d : Delivery γ Row Json) (outcome : Outcome)
    (tries : ℕ) : Beside st (settleThrew st d outcome tries) := by
  unfold settleThrew
  split
  · exact beside_deliver st _
  · exact (beside_halt st _).trans (beside_deliver _ _)

/-- **Every step.** -/
theorem Sound.step (h : Sound primaryKey s) {e : Event Row} {s' : Recorded γ}
    (text : SignsText (b.keyedBy primaryKey) primaryKey s e)
    (move : s.step (b.keyedBy primaryKey) src e = some s') : Sound primaryKey s' := by
  obtain ⟨w, stepped, rfl⟩ := Option.map_eq_some_iff.mp move
  -- most steps neither read nor take anything
  have silent : ∀ {w : World γ Row Json}, Sound primaryKey { s with world := w } →
      Sound primaryKey
        { world := w, handed := s.handed ++ (none : Option γ).toList
          taken := s.taken ++ (none : Option (Batch γ Row Json)).toList } := by
    intro w sound
    simpa using sound
  have chain : ∀ {st st' : Stream γ Row Json} {w : World γ Row Json}, s.world.stream = some st →
      w.stream = some st' → Goes primaryKey (cursorsOf st.buffer ++ st.task.cursors) st' →
      Sound primaryKey { s with world := w } := by
    intro st st' w was is goes
    have cursors : s.world.cursors = cursorsOf st.buffer ++ st.task.cursors := by
      simp [World.cursors, was]
    have gone := h.goes none is (by simpa [cursors] using goes)
    simpa using gone
  have beside : ∀ {st st' : Stream γ Row Json} {w : World γ Row Json}, s.world.stream = some st →
      w.stream = some st' → Beside st st' → Sound primaryKey { s with world := w } :=
    fun was is beside => h.still was is beside.gathered beside.task
  have at_ : ∀ {st : Stream γ Row Json}, s.world.stream = some st →
      (st.halted = none → Gathers primaryKey st) ∧ TaskFits primaryKey st := fun was => h.stream _ was
  cases Moves.of_step stepped with
  | @take st item was idle hitem =>
    have order : (cursorsOf st.buffer ++ [item.cursor]).Sublist
        (s.world.cursors ++ (some item.cursor).toList) := by
      simp [World.cursors, was, idle, Task.cursors]
    let w : World γ Row Json :=
      { s.world with
        next := s.world.next + 1, stream := some (st.takeItem (b.keyedBy primaryKey) item) }
    have taken : Sound primaryKey
        { world := w, handed := s.handed ++ (some item.cursor).toList, taken := s.taken } :=
      h.goes (some item.cursor) rfl (.takeItem (at_ was).1 idle order)
    simpa [handedBy, takenBy, hitem] using taken
  | @examined st c a was task =>
    have notTruncate : c.op ≠ .truncate := by simpa [TaskFits, task] using (at_ was).2
    have text : KeyHasText primaryKey (signedRow (b.keyedBy primaryKey) c a) := by
      refine text c ?_
      simp [World.examining, was, task]
    exact silent (chain was rfl (.examine (at_ was).1 text notTruncate (by simp [task, Task.cursors])))
  | @recognised st c a was task =>
    obtain ⟨truncate, empty⟩ : c.op = .truncate ∧ (st.halted = none → st.buffer = []) := by
      simpa [TaskFits, task] using (at_ was).2
    exact silent (chain was rfl
      (.acceptTruncate (at_ was).1 truncate empty (by simp [task, Task.cursors])))
  | timer was armed => exact silent (h.still was rfl ⟨rfl, rfl, rfl, rfl, id⟩ rfl)
  | @timedFlush st n was idle fired =>
    have same : SameGathered st { st with timedFlushes := n } := ⟨rfl, rfl, rfl, rfl, id⟩
    exact silent (chain was rfl
      (.flushAndFinish (same.gathers (at_ was).1) (by simp [idle, Task.cursors])))
  | flush was task free => simpa [handedBy] using h.flush was task free rfl
  | @noticeDrained st cursor was task free =>
    by_cases halted : st.halted.isSome = true
    · rw [if_pos halted]
      exact silent (chain was rfl (.idle (at_ was).1 (List.sublist_append_left _ _)))
    · rw [if_neg halted]
      exact silent (chain was rfl (.goto (at_ was).1 trivial (by simp [task, Task.cursors])))
  | @haltDrained st status was task free =>
    have same := sameGathered_halt st status
    refine silent (chain was rfl (.idle (same.gathers (at_ was).1) ?_))
    rw [same.buffer]
    exact List.sublist_append_left _ _
  | noticeHalted was task halted =>
    exact silent (chain was rfl (.idle (at_ was).1 (List.sublist_append_left _ _)))
  | @noticed st cursor tries acked was task live =>
    let st' : Stream γ Row Json :=
      { st.goto .idle with seq := st.seq + 1, watermark := some cursor }
    have same : SameGathered st st' := ⟨rfl, rfl, rfl, rfl, id⟩
    have goes : Goes primaryKey (cursorsOf st.buffer ++ st.task.cursors) st' :=
      ⟨same.gathers (at_ was).1, trivial, by simp [st', Stream.goto, Task.cursors]⟩
    exact silent (chain was rfl goes)
  | noticeThrew was task live more =>
    refine silent (chain was rfl (.goto (at_ was).1 trivial ?_))
    simp [task, Task.cursors]
  | @noticeGivenUp st cursor tries recorded written acked was task live =>
    have same := sameGathered_halt st .failed
    refine silent (chain was rfl (.idle (same.gathers (at_ was).1) ?_))
    rw [same.buffer]
    exact List.sublist_append_left _ _
  | @fatal st was idle =>
    refine silent (chain was rfl ?_)
    split
    · exact ⟨(at_ was).1, (at_ was).2, List.Sublist.refl _⟩
    · exact .startFlush (at_ was).1 trivial (by simp [idle, Task.cursors, Then.cursors])
  | delivered was hd stage => exact silent (beside was rfl (beside_deliver _ _))
  | refused was hd stage => exact silent (beside was rfl (beside_deliver _ _))
  | @abandoned st d e was hd halted =>
    have gone : Sound primaryKey { s with world := s.world.withStream (st.deliver none) } :=
      h.still was rfl (sameGathered_deliver _ _) rfl
    have nothing : takenBy (s.world.withStream (st.deliver none)) e = none := by
      cases e <;> rfl
    rw [nothing]
    simpa using gone.more _
  | worked was hd stage live hw =>
    exact silent (beside was rfl ((beside_of_runWork hw).trans (beside_deliver _ _)))
  | workThrew was hd stage live hw =>
    exact silent (beside was rfl ((beside_of_runWork hw).trans (beside_settleThrew _ _ _ _)))
  | workStopped was hd stage live hw =>
    exact silent (beside was rfl ((beside_of_runWork hw).trans (beside_deliver _ _)))
  | checkpointed was hd stage live =>
    exact silent (h.still was rfl ⟨rfl, rfl, rfl, rfl, id⟩ rfl)
  | checkpointThrew was hd stage live =>
    exact silent (beside was rfl (beside_settleThrew _ _ _ _))
  | @reconnect st n was le => exact silent (h.still was was (.refl st) rfl)
  | crash was => exact silent (h.empty rfl)
  | restart passed => exact silent (h.started rfl)

theorem Sound.fresh (primaryKey : List String) : Sound primaryKey (Recorded.fresh : Recorded γ) where
  stream st at_ := by
    obtain rfl := Option.some.inj at_
    exact ⟨fun _ => .empty rfl, trivial⟩
  batches batch mem := by cases mem
  order := by simp [Recorded.fresh, World.fresh, World.cursors, Stream.start, cursorsOf, Task.cursors]

/-- **In every run whose keys all have a text no batch holds a key twice**, and the changes leave in
the order in which they came. -/
theorem keepsKeysApart_of_signsText {es : List (Event Row)}
    (run : Run (Recorded.step (b.keyedBy primaryKey) src)
      (SignsText (b.keyedBy primaryKey) primaryKey) Recorded.fresh es s) :
    KeepsKeysApart primaryKey s := by
  have sound : Sound primaryKey s :=
    run.invariant (.fresh primaryKey) fun _ _ _ text h move => h.step text move
  exact ⟨fun batch mem => (sound.batches batch mem).1, fun batch mem => (sound.batches batch mem).2,
    (List.sublist_append_left _ _).trans sound.order⟩

end Steps

/-! ## Two versions of a row -/

namespace TwoVersions

def bridge : Bridge ℕ Row Json where
  cursorAfter cursor mark := match mark with | some m => decide (m < cursor) | none => true
  handlesSourceFilters := true
  tracksSchema := false
  rowMatchesFilters _ _ := true
  keySignature _ := none
  columnSignature _ := ""
  hasUnchanged _ := false
  jsonLength _ := 0
  maxBatch := 2
  cdcBatchBytes := 0
  onError := .abort
  databaseDestination := true
  insertTarget := false
  maxConsecutiveFailures := 3
  deadLetterMaxRows := 1000

def version (id : Value) (name : String) : Row :=
  { columns := .cons "id" id (.cons "name" (.string name) .nil) }

/-- Two updates of one row. -/
def src (id : Value) : List (StreamItem ℕ Row) :=
  [.change { op := .update, row := version id "first", cursor := 1 },
    .change { op := .update, row := version id "second", cursor := 2 }]

def answered : Event Row :=
  .examined { completion := .stopped, drift := .clear, echo := .none }

def worked : Event Row :=
  .work { recorded := true, isolation := [], counted := true, parked := .ok, recordedAfter := true }

/-- The second update finds its key in the batch, and goes with the next. -/
theorem versions_apart : ∃ s : Recorded ℕ,
    s.taken.map (fun batch => batch.items.map (·.row)) =
      [[version (.string "5") "first"], [version (.string "5") "second"]] ∧
    KeepsKeysApart ["id"] s := by
  have shown : (runEvents (guarded (Recorded.step (bridge.keyedBy ["id"]) (src (.string "5")))
      (SignsText (bridge.keyedBy ["id"]) ["id"])) Recorded.fresh
        [.take, answered, .take, answered, .flush, .attempted .success, worked,
          .checkpoint true true, .timer, .timedFlush, .flush]).map
      (fun s => s.taken.map fun batch => batch.items.map (·.row)) =
      some [[version (.string "5") "first"], [version (.string "5") "second"]] := by
    decide +kernel
  obtain ⟨s, evaluated, taken⟩ := Option.map_eq_some_iff.mp shown
  exact ⟨s, taken, keepsKeysApart_of_signsText (run_iff_runEvents.mpr evaluated)⟩

/-- A key without a text: both versions go in one batch. -/
theorem versions_together : ∃ s,
    Run (Recorded.step (bridge.keyedBy ["id"]) (src (.bigint 5))) anyStep Recorded.fresh
      [.take, answered, .take, answered, .flush] s ∧ ¬ KeepsKeysApart ["id"] s := by
  have shown : (runEvents (Recorded.step (bridge.keyedBy ["id"]) (src (.bigint 5)))
      Recorded.fresh [.take, answered, .take, answered, .flush]).map
      (fun s => s.taken.map fun batch => batch.items.map (·.row)) =
      some [[version (.bigint 5) "first", version (.bigint 5) "second"]] := by
    decide +kernel
  obtain ⟨s, evaluated, taken⟩ := Option.map_eq_some_iff.mp shown
  refine ⟨s, run_of_eval evaluated, fun apart => ?_⟩
  obtain ⟨batch, one, rows⟩ := List.map_eq_singleton_iff.mp taken
  have distinct := apart.distinct batch (one ▸ List.mem_cons_self)
  have distinct : (batch.items.map (·.row)).Pairwise fun a b => ¬ SameKey ["id"] a b :=
    List.pairwise_map.mpr distinct
  rw [rows] at distinct
  have differ := (List.pairwise_cons.mp distinct).1 _ List.mem_cons_self
  exact differ ⟨by simp, by decide⟩

end TwoVersions

end Syncle.Cdc
