import Mathlib.Data.List.Induction
import Syncle.Mysql.Binlog

/-!
# Do the changes of the binary log replay the table?

A row image under a key puts a row there, and a delete takes it away. An update that changes the
key does both: it takes the row away from the key it leaves (`vacates`) and puts it under another.
`rowChanges` hands over the image after it, which says nothing about the key that was left. So the
destination is the source's table exactly when every vacated key is taken again (`Owed`).
-/

namespace Syncle.Mysql

open Lib Cdc

section Replays

variable {V K : Type*}

namespace RowChange

variable (key : Row V → K)

/-- What it does to the table. -/
def writes : RowChange V → List (Write K (Row V))
  | .insert row => [.upsert (key row) row]
  | .update before after => [.remove (key before), .upsert (key after) after]
  | .delete row => [.remove (key row)]

/-- What the change it is handed over as does to the destination. -/
def handed : RowChange V → Write K (Row V)
  | .insert row => .upsert (key row) row
  | .update _ after => .upsert (key after) after
  | .delete row => .remove (key row)

/-- What the server says of a row is so: the row it changes is in the table, and no other has the
key it comes to. -/
def Applies (table : K → Option (Row V)) : RowChange V → Prop
  | .insert row => table (key row) = none
  | .update before after => table (key before) = some before ∧
      (key after = key before ∨ table (key after) = none)
  | .delete row => table (key row) = some row

/-- Does it put a row under `k`? -/
def puts (k : K) : RowChange V → Prop
  | .insert row => key row = k
  | .update _ after => key after = k
  | .delete _ => False

/-- Does it take the row away from under `k`, to put it elsewhere? -/
def vacates (k : K) : RowChange V → Prop
  | .update before after => key before = k ∧ key after ≠ k
  | _ => False

end RowChange

open RowChange

variable [DecidableEq K] (key : Row V → K)

/-- The table after a history. -/
def tableAfter (table : K → Option (Row V)) (history : List (RowChange V)) : K → Option (Row V) :=
  replay table (history.flatMap (RowChange.writes key))

/-- The destination after the changes handed over. -/
def destinationAfter {γ : Type*} (table : K → Option (Row V)) (changes : List (CdcChange γ (Row V))) :
    K → Option (Row V) :=
  replay table (changes.map (CdcChange.write key))

/-- The row images of a binary log, on a table with a key. -/
def OfTable (table : K → Option (Row V)) (history : List (RowChange V)) : Prop :=
  ∀ before c after, history = before ++ c :: after → c.Applies key (tableAfter key table before)

/-- Key `k` was left by a row that changed its key, and no later row image has it. -/
def Owed (history : List (RowChange V)) (k : K) : Prop :=
  ∃ before c after, history = before ++ c :: after ∧ c.vacates key k ∧ ∀ d ∈ after, ¬ d.puts key k

/-! ## What is handed over -/

variable {key}

omit [DecidableEq K] in
theorem writes_mapIdx {stream : Stream V} {r : Reader} {nextPosition : Int} (op : CdcOperation)
    (normalized : Row V → Row V) (rows : List (Row V)) :
    (rows.mapIdx fun i row =>
      ({ op, row := normalized row, cursor := stream.cursor r nextPosition i } :
        CdcChange Cursor (Row V))).map (CdcChange.write key) =
      rows.map fun row => op.write (key (normalized row)) (normalized row) := by
  induction rows using List.reverseRecOn with
  | nil => rfl
  | append_singleton rows row ih =>
    rw [List.mapIdx_append, List.map_append, List.map_append, ih]
    rfl

omit [DecidableEq K] in
/-- **A row event is handed over image by image.** -/
theorem rowChanges_writes (stream : Stream V) (r : Reader) (t : TableMeta) (nextPosition : Int)
    (event : RowsEvent V) (ours : stream.ours t = true) :
    (stream.rowChanges r t.columns nextPosition event).map (CdcChange.write key) =
      (stream.eventChanges (.rows (some t) nextPosition event)).map (RowChange.handed key) := by
  rw [Stream.rowChanges,
    writes_mapIdx event.op fun row => normalizeBinlogRow stream.values row t.columns]
  cases event with
  | writerows rows =>
    simp [Stream.eventChanges, ours, RowsEvent.images, RowsEvent.op, RowChange.handed,
      CdcOperation.write]
  | updaterows rows =>
    simp [Stream.eventChanges, ours, RowsEvent.images, RowsEvent.op, RowChange.handed,
      CdcOperation.write]
  | deleterows rows =>
    simp [Stream.eventChanges, ours, RowsEvent.images, RowsEvent.op, RowChange.handed,
      CdcOperation.write]

/-- The bridge subscribes to what happens to rows. -/
def Stream.SubscribesAll (stream : Stream V) : Prop :=
  .insert ∈ stream.operations ∧ .update ∈ stream.operations ∧ .delete ∈ stream.operations

theorem Stream.SubscribesAll.op {stream : Stream V} (h : stream.SubscribesAll)
    (event : RowsEvent V) : event.op ∈ stream.operations := by
  obtain ⟨hi, hu, hd⟩ := h
  cases event with
  | writerows _ => exact hi
  | updaterows _ => exact hu
  | deleterows _ => exact hd

omit [DecidableEq K] in
theorem onEvent_writes {stream : Stream V} (all : stream.SubscribesAll) (r : Reader)
    (e : BinLogEvent V) : (stream.onEvent r e).2.map (CdcChange.write key) =
      (stream.eventChanges e).map (RowChange.handed key) := by
  cases e with
  | gtidlog _ => rfl
  | rotate name =>
    cases name with
    | none => rfl
    | some next =>
      simp only [Stream.onEvent]
      split <;> rfl
  | tablemap nextPosition size =>
    simp only [Stream.onEvent]
    split <;> rfl
  | rows tableMeta nextPosition event =>
    cases tableMeta with
    | none => rfl
    | some t =>
      by_cases ours : stream.ours t = true
      · simp only [Stream.onEvent, ours, if_true, if_pos (all.op event)]
        exact rowChanges_writes stream r t nextPosition event ours
      · simp [Stream.onEvent, Stream.eventChanges, ours]
  | other => rfl

omit [DecidableEq K] in
/-- Where the reader stands makes no difference to what is handed over. -/
theorem changes_writes {stream : Stream V} (all : stream.SubscribesAll) (r : Reader)
    (events : List (BinLogEvent V)) : (stream.changes r events).map (CdcChange.write key) =
      (stream.history events).map (RowChange.handed key) := by
  induction events generalizing r with
  | nil => rfl
  | cons e events ih =>
    simp only [Stream.changes, List.map_append, Stream.history, List.flatMap_cons]
    rw [onEvent_writes all, ih]
    rfl

/-! ## The table and the destination, row by row -/

section History

variable {table : K → Option (Row V)} {history : List (RowChange V)} {c : RowChange V} {k : K}

theorem tableAfter_snoc : tableAfter key table (history ++ [c]) =
    replay (tableAfter key table history) (c.writes key) := by
  simp [tableAfter, replay_append]

omit [DecidableEq K] in
theorem not_puts_of_vacates (h : c.vacates key k) : ¬ c.puts key k := by
  cases c with
  | insert row => cases h
  | update before after => exact h.2
  | delete row => exact id

omit [DecidableEq K] in
theorem owed_snoc : Owed key (history ++ [c]) k ↔
    c.vacates key k ∨ Owed key history k ∧ ¬ c.puts key k := by
  constructor
  · rintro ⟨before, d, after, heq, hv, hafter⟩
    rcases List.eq_nil_or_concat after with rfl | ⟨after', e, rfl⟩
    · obtain ⟨-, hd⟩ := List.append_inj' heq rfl
      obtain rfl : c = d := by simpa using hd
      exact .inl hv
    · have heq' : history ++ [c] = (before ++ d :: after') ++ [e] := by simpa using heq
      obtain ⟨hh, hc⟩ := List.append_inj' heq' rfl
      obtain rfl : c = e := by simpa using hc
      exact .inr ⟨⟨before, d, after', hh, hv, fun x hx => hafter x (by simp [hx])⟩,
        hafter c (by simp)⟩
  · rintro (hv | ⟨⟨before, d, after, rfl, hv, hafter⟩, hc⟩)
    · exact ⟨history, c, [], rfl, hv, nofun⟩
    · refine ⟨before, d, after ++ [c], by simp, hv, fun x hx => ?_⟩
      rcases List.mem_append.mp hx with hx | hx
      · exact hafter x hx
      · obtain rfl := List.mem_singleton.mp hx
        exact hc

theorem ofTable_nil : OfTable key table [] := by
  intro before c after heq
  simp at heq

theorem OfTable.snoc (h : OfTable key table history)
    (applies : c.Applies key (tableAfter key table history)) :
    OfTable key table (history ++ [c]) := by
  intro before d after heq
  rcases List.eq_nil_or_concat after with rfl | ⟨after', e, rfl⟩
  · obtain ⟨rfl, hd⟩ := List.append_inj' heq rfl
    obtain rfl : c = d := by simpa using hd
    exact applies
  · have heq' : history ++ [c] = (before ++ d :: after') ++ [e] := by simpa using heq
    obtain ⟨hh, -⟩ := List.append_inj' heq' rfl
    exact h before d after' hh

theorem OfTable.init (h : OfTable key table (history ++ [c])) : OfTable key table history :=
  fun before d after heq => h before d (after ++ [c]) (by simp [heq])

/-- How the destination stands to the table at one key: equal, unless the key is owed; then the row
that left it is still there. -/
def Stands (key : Row V → K) (history : List (RowChange V)) (table destination : K → Option (Row V))
    (k : K) : Prop :=
  Owed key history k ∧ table k = none ∧ destination k ≠ none ∨
    ¬ Owed key history k ∧ destination k = table k

omit [DecidableEq K] in
theorem Stands.eq_of_some {t d : K → Option (Row V)} {row : Row V} (h : Stands key history t d k)
    (hrow : t k = some row) : ¬ Owed key history k ∧ d k = some row := by
  rcases h with ⟨-, hnone, -⟩ | ⟨hn, heq⟩
  · rw [hrow] at hnone
    cases hnone
  · exact ⟨hn, heq.trans hrow⟩

omit [DecidableEq K] in
/-- A row change at keys other than `k`. -/
theorem Stands.elsewhere {t d t' d' : K → Option (Row V)} (h : Stands key history t d k)
    (hv : ¬ c.vacates key k) (hp : ¬ c.puts key k) (ht : t' k = t k) (hd : d' k = d k) :
    Stands key (history ++ [c]) t' d' k := by
  have howed : Owed key (history ++ [c]) k ↔ Owed key history k := by simp [owed_snoc, hv, hp]
  unfold Stands
  rw [howed, ht, hd]
  exact h

/-- **One row change keeps how they stand.** -/
theorem Stands.step {t d : K → Option (Row V)} (h : ∀ k, Stands key history t d k)
    (applies : c.Applies key t) (k : K) :
    Stands key (history ++ [c]) (replay t (c.writes key)) ((c.handed key).apply d) k := by
  have put {t' d' : K → Option (Row V)} (hp : c.puts key k) (heq : d' k = t' k) :
      Stands key (history ++ [c]) t' d' k := by
    refine .inr ⟨fun ho => ?_, heq⟩
    rcases owed_snoc.mp ho with hv | ⟨-, hn⟩
    · exact not_puts_of_vacates hv hp
    · exact hn hp
  cases c with
  | insert row =>
    by_cases hk : key row = k
    · refine put hk ?_
      subst hk
      simp [RowChange.writes, RowChange.handed, Write.apply]
    · refine (h k).elsewhere id hk ?_ ?_
      · exact Write.apply_of_not_touches (w := .upsert (key row) row) hk t
      · exact Write.apply_of_not_touches (w := .upsert (key row) row) hk d
  | update before after =>
    by_cases ha : key after = k
    · refine put ha ?_
      subst ha
      simp [RowChange.writes, RowChange.handed, Write.apply]
    · have hd : (RowChange.handed key (.update before after)).apply d k = d k :=
        Write.apply_of_not_touches (w := .upsert (key after) after) ha d
      by_cases hb : key before = k
      · subst hb
        obtain ⟨hn, hdk⟩ := (h _).eq_of_some applies.1
        refine .inl ⟨owed_snoc.mpr (.inl ⟨rfl, ha⟩), ?_, ?_⟩
        · simp [RowChange.writes, Write.apply, Function.update_of_ne (Ne.symm ha)]
        · rw [hd, hdk]
          exact Option.some_ne_none _
      · refine (h k).elsewhere (fun hv => hb hv.1) ha ?_ hd
        simp [RowChange.writes, Write.apply, Function.update_of_ne (Ne.symm ha),
          Function.update_of_ne (Ne.symm hb)]
  | delete row =>
    by_cases hk : key row = k
    · subst hk
      obtain ⟨hn, -⟩ := (h _).eq_of_some applies
      refine .inr ⟨fun ho => ?_, ?_⟩
      · rcases owed_snoc.mp ho with hv | ⟨ho, -⟩
        · exact hv
        · exact hn ho
      · simp [RowChange.writes, RowChange.handed, Write.apply]
    · refine (h k).elsewhere id id ?_ ?_
      · exact Write.apply_of_not_touches (w := .remove (key row)) hk t
      · exact Write.apply_of_not_touches (w := .remove (key row)) hk d

theorem stands_after (h : OfTable key table history) (k : K) :
    Stands key history (tableAfter key table history)
      (replay table (history.map (RowChange.handed key))) k := by
  induction history using List.reverseRecOn generalizing k with
  | nil =>
    refine .inr ⟨?_, rfl⟩
    rintro ⟨before, c, after, heq, -⟩
    simp at heq
  | append_singleton history c ih =>
    rw [tableAfter_snoc, List.map_append, List.map_singleton, replay_snoc]
    exact Stands.step (fun k => ih h.init k) (h history c [] (by simp)) k

end History

/-- **The changes of the binary log replay the table exactly when every key that a row leaves is
taken again.** -/
theorem replays_iff_retaken (stream : Stream V) (all : stream.SubscribesAll) (r : Reader)
    (key : Row V → K) (table : K → Option (Row V)) (events : List (BinLogEvent V))
    (rows : OfTable key table (stream.history events)) :
    destinationAfter key table (stream.changes r events) =
      tableAfter key table (stream.history events) ↔
    ∀ k, ¬ Owed key (stream.history events) k := by
  have stands := stands_after rows
  rw [destinationAfter, changes_writes all]
  constructor
  · intro heq k owed
    rcases stands k with ⟨-, hnone, hsome⟩ | ⟨hn, -⟩
    · exact hsome ((congrFun heq k).trans hnone)
    · exact hn owed
  · intro retaken
    funext k
    rcases stands k with ⟨owed, -⟩ | ⟨-, heq⟩
    · exact absurd owed (retaken k)
    · exact heq

end Replays

/-! ### A row that changes its key -/

namespace KeyLeft

def stream : Stream ℕ :=
  { db := "shop", table := "tasks", operations := [.insert, .update, .delete], useChecksum := true
    serverUuid := none, values := { text := fun _ => none, parse := fun _ => none } }

def reader : Reader :=
  { binlogName := "binlog.000001", position := 4, groupStart := -1, groupRow := 0, lastGtid := none }

def row (id : ℕ) : Row ℕ := fun c => if c = "id" then some id else none

def key (row : Row ℕ) : ℕ := (row "id").getD 0

def tasks (event : RowsEvent ℕ) : BinLogEvent ℕ :=
  .rows (some { parentSchema := "shop", tableName := "tasks", columns := none }) 900 event

def written : BinLogEvent ℕ := tasks (.writerows [row 1])

/-- `UPDATE tasks SET id = 2 WHERE id = 1` -/
def moved : BinLogEvent ℕ := tasks (.updaterows [(row 1, row 2)])

theorem written_moved : OfTable key (fun _ => none)
    ([.insert (row 1)] ++ [.update (row 1) (row 2)] : List (RowChange ℕ)) := by
  have first : OfTable key (fun _ => none) ([] ++ [.insert (row 1)] : List (RowChange ℕ)) :=
    ofTable_nil.snoc rfl
  exact first.snoc ⟨rfl, .inr rfl⟩

/-- The row that left key 1 stays there. -/
theorem left_behind : OfTable key (fun _ => none) (stream.history [written, moved]) ∧
    destinationAfter key (fun _ => none) (stream.changes reader [written, moved]) ≠
      tableAfter key (fun _ => none) (stream.history [written, moved]) := by
  refine ⟨written_moved, fun heq => ?_⟩
  have gone : tableAfter key (fun _ => none) (stream.history [written, moved]) 1 = none := rfl
  have there : destinationAfter key (fun _ => none) (stream.changes reader [written, moved]) 1 =
      some (row 1) := rfl
  rw [heq, gone] at there
  cases there

/-- With a row under key 1 again, the destination is the table. -/
theorem retaken : destinationAfter key (fun _ => none)
      (stream.changes reader [written, moved, written]) =
    tableAfter key (fun _ => none) (stream.history [written, moved, written]) := by
  have rows : OfTable key (fun _ => none) (stream.history [written, moved, written]) :=
    written_moved.snoc (c := .insert (row 1)) rfl
  refine (replays_iff_retaken stream ⟨by decide, by decide, by decide⟩ reader key _ _ rows).mpr ?_
  intro k owed
  have owed' : Owed key ([.insert (row 1)] ++ [.update (row 1) (row 2)] ++ [.insert (row 1)]) k :=
    owed
  rw [owed_snoc, owed_snoc] at owed'
  rcases owed' with hv | ⟨⟨rfl, -⟩ | ⟨⟨before, c, after, heq, hv, -⟩, -⟩, hp⟩
  · exact hv
  · exact hp rfl
  · obtain rfl : c = .insert (row 1) := by
      have hmem : c ∈ [RowChange.insert (row 1)] := heq ▸ by simp
      simpa using hmem
    exact hv

end KeyLeft

end Syncle.Mysql
