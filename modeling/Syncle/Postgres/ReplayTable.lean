import Syncle.Postgres.Replay

/-!
# The changes of a PostgreSQL table replay it

Where no two rows of the table agree in the target's key, a key has one row, and the destination
follows it: an update of a row that stays under its key is written over it, and one that moves is
taken away from where it was and written where it is.

A column that did not change is not in the message. In a row that stays the destination has it; in
a row that moved it is read back, from a row that may be newer. So a cell of the destination is the
source's, or it lies ahead of it and something that is still to come disturbs that cell
(`Disturbed`): it writes it, or takes the row away. At the end nothing is to come.
-/

namespace Syncle.Postgres.Replay

open Cdc OwnSlot

variable {V : Type*}

/-!
## What is provided for

What PostgreSQL and the bridge's configuration have to provide, and what the destination is to be.
-/

namespace Copy

variable (copy : Copy V)

/-- The key a row of the source is written under. -/
def keyFor (row : FullRow V) : List (Option V) := copy.target.key.map fun c => some (row c)

/-- No two rows of the table agree in the target's key. -/
def Unique (table : Table V) : Prop :=
  ∀ i j r r', table i = some r → table j = some r' → copy.keyFor r = copy.keyFor r' → i = j

/-- The row an operation writes. -/
def written : RowOp V → Option (FullRow V)
  | .insert _ row => some row
  | .update _ row _ => some row
  | .delete _ | .truncate => none

/-- What the query for a row by its primary key may answer, on a table. -/
def Answers (table : Table V) (row : FullRow V) : Option (FullRow V) → Prop
  | some r => (∃ i, table i = some r) ∧ ∀ c ∈ copy.source.primaryKey, r c = row c
  | none => ∀ i r, table i = some r → ∃ c ∈ copy.source.primaryKey, r c ≠ row c

/-- What holds of a row change: no two rows agree in the target's key after it, no column of the
identity is a large one that the message leaves out, the primary key is not null, and the query for
the row is answered by the table as it is at some later moment. -/
structure Provides (table : Table V) (step : Step V) (rest : List (Event V)) : Prop where
  unique : copy.Unique (step.op.apply table)
  inline : ∀ id row toast, step.op = .update id row toast → ∀ c ∈ toast, c ∉ copy.source.identity
  notNull : ∀ row, written step.op = some row → ∀ c ∈ copy.source.primaryKey, row c ≠ copy.source.null
  answers : ∀ row, written step.op = some row →
    ∃ m, copy.Answers (tableAfter (step.op.apply table) (rest.take m)) row step.found

end Copy

/-- Every row change of the stream meets `P`: the table before it, the change, what comes after. -/
def Along (P : Table V → Step V → List (Event V) → Prop) : Table V → List (Event V) → Prop
  | _, [] => True
  | table, .row step :: events => P table step events ∧ Along P (step.op.apply table) events
  | table, _ :: events => Along P table events

/-- **The destination is the table, restricted to the columns the target writes.** -/
def Copy.Replays (copy : Copy V) (table : Table V) (d : Destination V) : Prop :=
  ∀ k row, d k = some row ↔ ∃ i r, table i = some r ∧ copy.keyFor r = k ∧
    row = fun c => if copy.target.writes c ∧ c ∈ copy.source.columns then some (r c) else none

/-- The columns an update moves the row by. -/
def Copy.movedBy (copy : Copy V) : List String :=
  if copy.source.full then copy.source.columns.filter (· ∈ copy.bridge.identifying)
  else copy.source.primaryKey

/-- Does the update move the row? -/
def Copy.Moves (copy : Copy V) (old row : FullRow V) : Prop := ∃ c ∈ copy.movedBy, old c ≠ row c

/-!
## What is still to come

A cell may be ahead of the table, when it was read back from a newer row. What makes it right again is
a later change that writes the cell or takes the row away.
-/

/-- The change writes the target's cell, or takes its row away. -/
def Copy.Disturbs (copy : Copy V) (table : Table V) (k : List (Option V)) (c : String) :
    RowOp V → Prop
  | .insert id row => table id = none ∧ copy.keyFor row = k
  | .update id row _ => ∃ old, table id = some old ∧
      (copy.keyFor old = k ∨ copy.keyFor row = k) ∧ (copy.Moves old row ∨ old c ≠ row c)
  | .delete id => ∃ old, table id = some old ∧ copy.keyFor old = k
  | .truncate => True

/-- Some change of the stream does. -/
def Copy.Disturbed (copy : Copy V) (k : List (Option V)) (c : String) :
    Table V → List (Event V) → Prop
  | _, [] => False
  | table, .row step :: events =>
    copy.Disturbs table k c step.op ∨ Disturbed copy k c (step.op.apply table) events
  | table, _ :: events => Disturbed copy k c table events

section Later

variable {copy : Copy V} {table : Table V} {events : List (Event V)} {k : List (Option V)}
  {c : String} {id : ℕ} {row old : FullRow V}

theorem eq_of_not_moves (h : ¬ copy.Moves old row) : ∀ c ∈ copy.movedBy, old c = row c := by
  intro c hc
  by_contra hne
  exact h ⟨c, hc, hne⟩

theorem key_mem_movedBy (keyed : ∀ c ∈ copy.target.key, c ∈ copy.source.identity) :
    ∀ c ∈ copy.target.key, c ∈ copy.movedBy := by
  intro c hc
  have hid := keyed c hc
  unfold Source.identity at hid
  unfold Copy.movedBy
  split at hid
  · next hfull =>
    rw [if_pos hfull]
    refine List.mem_filter.mpr ⟨hid, ?_⟩
    have hmem : c ∈ copy.bridge.identifying :=
      List.mem_append_right _ (List.mem_flatMap.mpr ⟨copy.target, copy.mem, hc⟩)
    simpa using hmem
  · next hfull =>
    rw [if_neg hfull]
    exact hid

/-- A row that does not move stays under its key. -/
theorem keyFor_of_not_moves (keyed : ∀ c ∈ copy.target.key, c ∈ copy.source.identity)
    (h : ¬ copy.Moves old row) : copy.keyFor old = copy.keyFor row := by
  refine List.map_congr_left fun c hc => ?_
  rw [eq_of_not_moves h c (key_mem_movedBy keyed c hc)]

/-- **A row whose cell nothing disturbs stays where it is**, under its primary key, with that cell. -/
theorem tracked (keyed : ∀ c ∈ copy.target.key, c ∈ copy.source.identity)
    (hfull : copy.source.full = false) (hrow : table id = some row) (hk : copy.keyFor row = k)
    (quiet : ¬ copy.Disturbed k c table events) (m : ℕ) :
    ∃ r, tableAfter table (events.take m) id = some r ∧ copy.keyFor r = k ∧
      (∀ c' ∈ copy.source.primaryKey, r c' = row c') ∧ r c = row c := by
  induction events generalizing table row m with
  | nil => exact ⟨row, by simpa [tableAfter] using hrow, hk, fun _ _ => rfl, rfl⟩
  | cons e events ih =>
    cases m with
    | zero => exact ⟨row, hrow, hk, fun _ _ => rfl, rfl⟩
    | succ m =>
      cases e with
      | begin commit => exact ih hrow hk quiet m
      | commit => exact ih hrow hk quiet m
      | row step =>
        have hq : ¬ copy.Disturbs table k c step.op := fun h => quiet (.inl h)
        have hrest : ¬ copy.Disturbed k c (step.op.apply table) events := fun h => quiet (.inr h)
        show ∃ r, tableAfter (step.op.apply table) (events.take m) id = some r ∧ _
        cases hop : step.op with
        | insert j new =>
          rw [hop] at hrest
          by_cases hj : (table j).isSome = true
          · simp only [RowOp.apply, if_pos hj] at hrest ⊢
            exact ih hrow hk hrest m
          · have hne : id ≠ j := fun h => hj (by simp [← h, hrow])
            simp only [RowOp.apply, if_neg hj] at hrest ⊢
            exact ih (by rwa [Function.update_of_ne hne]) hk hrest m
        | update j new toast =>
          rw [hop] at hq hrest
          by_cases hj : (table j).isSome = true
          · simp only [RowOp.apply, if_pos hj] at hrest ⊢
            by_cases hne : id = j
            · subst hne
              have hstays : ¬ (copy.Moves row new ∨ row c ≠ new c) := fun h =>
                hq ⟨row, hrow, .inl hk, h⟩
              rw [not_or, not_not] at hstays
              have hpk := eq_of_not_moves hstays.1
              simp only [Copy.movedBy, hfull] at hpk
              have hnew : Function.update table id (some new) id = some new :=
                Function.update_self ..
              obtain ⟨r, hr, hkr, hpr, hcr⟩ := ih hnew
                ((keyFor_of_not_moves keyed hstays.1).symm.trans hk) hrest m
              exact ⟨r, hr, hkr, fun c' hc' => (hpr c' hc').trans (hpk c' hc').symm,
                hcr.trans hstays.2.symm⟩
            · exact ih (by rwa [Function.update_of_ne hne]) hk hrest m
          · simp only [RowOp.apply, if_neg hj] at hrest ⊢
            exact ih hrow hk hrest m
        | delete j =>
          rw [hop] at hq hrest
          have hne : id ≠ j := fun h => hq ⟨row, h ▸ hrow, hk⟩
          exact ih (by rwa [RowOp.apply, Function.update_of_ne hne]) hk hrest m
        | truncate =>
          rw [hop] at hq
          exact absurd trivial hq

theorem unique_after (along : Along copy.Provides table events) (h : copy.Unique table) (m : ℕ) :
    copy.Unique (tableAfter table (events.take m)) := by
  induction events generalizing table m with
  | nil => simpa [tableAfter] using h
  | cons e events ih =>
    cases m with
    | zero => exact h
    | succ m =>
      cases e with
      | begin commit => exact ih along h m
      | commit => exact ih along h m
      | row step => exact ih along.2 along.1.unique m

/-- **A row read back has the cell, or something still to come disturbs it.** -/
theorem found_or_disturbed (keyed : ∀ c ∈ copy.target.key, c ∈ copy.source.identity)
    (hfull : copy.source.full = false) (along : Along copy.Provides table events)
    (unique : copy.Unique table) (hrow : table id = some row) {m : ℕ} {found : Option (FullRow V)}
    (answers : copy.Answers (tableAfter table (events.take m)) row found) :
    (∃ current, found = some current ∧ current c = row c) ∨
      copy.Disturbed (copy.keyFor row) c table events := by
  by_cases quiet : copy.Disturbed (copy.keyFor row) c table events
  · exact .inr quiet
  · obtain ⟨r, hr, hkr, hpk, hc⟩ := tracked keyed hfull hrow rfl quiet m
    refine .inl ?_
    cases found with
    | none =>
      obtain ⟨c', hc', hne⟩ := answers id r hr
      exact absurd (hpk c' hc') hne
    | some current =>
      obtain ⟨⟨j, hj⟩, hcur⟩ := answers
      have hkey : copy.keyFor current = copy.keyFor r := by
        refine List.map_congr_left fun c' hc' => ?_
        have hmem : c' ∈ copy.source.primaryKey := by
          have := keyed c' hc'
          simpa [Source.identity, hfull] using this
        rw [hcur c' hmem, hpk c' hmem]
      obtain rfl := unique_after along unique m j id current r hj hr hkey
      obtain rfl : current = r := Option.some.inj (hj.symm.trans hr)
      exact ⟨current, rfl, hc⟩

end Later

variable [DecidableEq V]

/-!
## The messages

A message has the columns of the table, less the large ones that did not change; of the old row it has
the identity.
-/

section Messages

variable {copy : Copy V} {old row : FullRow V} {toast : List String}

omit [DecidableEq V] in
theorem tuple_of_mem {columns : List String} {c : String} (h : c ∈ columns) :
    Source.tuple columns row c = some (some (row c)) := if_pos h

theorem newTuple_of_ne {source : Source V} {c : String} (hc : c ∈ source.columns)
    (h : ¬ (source.full = false ∧ c ∈ toast ∧ old c = row c)) :
    source.newTuple old row toast c = some (some (row c)) := by
  simp only [Source.newTuple, if_pos hc, if_neg h]

theorem newTuple_of_eq {source : Source V} {c : String} (hc : c ∈ source.columns)
    (h : source.full = false ∧ c ∈ toast ∧ old c = row c) :
    source.newTuple old row toast c = some none := by
  simp only [Source.newTuple, if_pos hc, if_pos h]

theorem leaves_iff {columns : List String} {new : Tuple V} {c : String} (hc : c ∈ columns)
    (hnew : new c = some (some (row c))) :
    leaves (Source.tuple columns old) new c = true ↔ old c ≠ row c := by
  simp [leaves, tuple_of_mem hc, hnew, sameValue]

omit [DecidableEq V] in
theorem key_mem_of_servable {schema table : String} {operations : List CdcOperation}
    {targets : List Target} {identity : ReplicaIdentity}
    (h : assertServable schema table operations targets identity = none)
    (delete : .delete ∈ operations) (kind : identity.kind ≠ .f) :
    ∀ t ∈ targets, ∀ c ∈ t.key, c ∈ identity.columns := by
  have hfull : (identity.kind == IdentityKind.f) = false := by simpa using kind
  intro t ht c hc
  unfold assertServable at h
  simp only [hfull] at h
  split at h
  · cases h
  · split at h
    · cases h
    · rw [if_neg (by simp [delete]), Option.map_eq_none_iff, List.find?_eq_none] at h
      by_contra hmem
      exact h t ht (List.any_eq_true.mpr ⟨c, hc, by simpa using hmem⟩)

omit [DecidableEq V] in
/-- A target the bridge is let through with is keyed on columns of the identity. -/
theorem key_mem_identity (servable : copy.Servable)
    (carried : ∀ c ∈ copy.target.key, c ∈ copy.source.columns) :
    ∀ c ∈ copy.target.key, c ∈ copy.source.identity := by
  obtain ⟨partitioned, serverVersion, h⟩ := servable
  cases hfull : copy.source.full with
  | true => simpa [Source.identity, hfull] using carried
  | false =>
    intro c hc
    have hmem := key_mem_of_servable h (by simp [Copy.operations])
      (by simp [Copy.replicaIdentity, hfull]) copy.target copy.mem c hc
    simpa [Source.identity, Copy.replicaIdentity, hfull] using hmem

omit [DecidableEq V] in
theorem identity_mem_columns : ∀ c ∈ copy.source.identity, c ∈ copy.source.columns := by
  intro c hc
  unfold Source.identity at hc
  split at hc
  · exact hc
  · exact copy.source.mem_columns c hc

theorem newTuple_identity (inline : ∀ c ∈ toast, c ∉ copy.source.identity) {c : String}
    (hc : c ∈ copy.source.identity) :
    copy.source.newTuple old row toast c = some (some (row c)) :=
  newTuple_of_ne (identity_mem_columns c hc) fun h => inline c h.2.1 hc

theorem any_leaves {columns : List String} (cs : List String) (old row : FullRow V) (new : Tuple V)
    (sub : ∀ c ∈ cs, c ∈ columns)
    (hnew : ∀ c ∈ cs, new c = some (some (row c))) :
    cs.any (leaves (Source.tuple columns old) new) = true ↔ ∃ c ∈ cs, old c ≠ row c := by
  rw [List.any_eq_true]
  constructor
  · rintro ⟨c, hc, h⟩
    exact ⟨c, hc, (leaves_iff (sub c hc) (hnew c hc)).mp h⟩
  · rintro ⟨c, hc, h⟩
    exact ⟨c, hc, (leaves_iff (sub c hc) (hnew c hc)).mpr h⟩

omit [DecidableEq V] in
theorem ours_relation : copy.bridge.ours copy.source.relation = true := by
  simp [Bridge.ours, Copy.bridge, Source.relation]

variable (old row) in
/-- **What an update is decoded as**: a delete of the row as it was and a write of the new one where
it moves the row, one write where it does not. -/
theorem decode_update (inline : ∀ c ∈ toast, c ∉ copy.source.identity) :
    (copy.Moves old row ∧ ∃ before,
      copy.bridge.decode (.update copy.source.relation (copy.source.keyTuple old row)
        (copy.source.oldTuple old) (copy.source.newTuple old row toast)) =
        .move (present before) (withUnchanged (copy.source.newTuple old row toast)) ∧
      ∀ c ∈ copy.source.identity, before c = some (some (old c))) ∨
    ¬ copy.Moves old row ∧
      (copy.bridge.decode (.update copy.source.relation (copy.source.keyTuple old row)
        (copy.source.oldTuple old) (copy.source.newTuple old row toast)) =
        .reserve (withUnchanged (copy.source.newTuple old row toast)) ∨
      copy.bridge.decode (.update copy.source.relation (copy.source.keyTuple old row)
        (copy.source.oldTuple old) (copy.source.newTuple old row toast)) =
        .hand .update (withUnchanged (copy.source.newTuple old row toast))) := by
  have ours : (CdcOperation.update ∈ copy.bridge.operations ∧
      copy.bridge.ours copy.source.relation = true) :=
    ⟨by simp [Copy.bridge, Copy.operations], ours_relation⟩
  simp only [Bridge.decode, if_pos ours, Bridge.decodeUpdate]
  cases hfull : copy.source.full with
  | false =>
    have hid : copy.source.identity = copy.source.primaryKey := by simp [Source.identity, hfull]
    have hmoved : copy.movedBy = copy.source.primaryKey := by simp [Copy.movedBy, hfull]
    have hold : copy.source.oldTuple old = none := by simp [Source.oldTuple, hfull]
    have hany := any_leaves copy.source.primaryKey old row (copy.source.newTuple old row toast)
      (fun c hc => hc) fun c hc => newTuple_identity inline (hid.symm ▸ hc)
    by_cases hm : copy.Moves old row
    · have hm' : ∃ c ∈ copy.source.primaryKey, old c ≠ row c := hmoved ▸ hm
      have hkey : copy.source.keyTuple old row =
          some (Source.tuple copy.source.primaryKey old) := if_pos ⟨hfull, hm'⟩
      refine .inl ⟨hm, Source.tuple copy.source.primaryKey old, ?_, fun c hc => ?_⟩
      · simp [hkey, hold, reservesOldRow, rowMoved, Source.relation, hid, hany.mpr hm']
      · exact tuple_of_mem (hid ▸ hc)
    · have hkey : copy.source.keyTuple old row = none :=
        if_neg fun h => hm (by unfold Copy.Moves; rw [hmoved]; exact h.2)
      refine .inr ⟨hm, .inr ?_⟩
      simp [hkey, hold]
  | true =>
    have hid : copy.source.identity = copy.source.columns := by simp [Source.identity, hfull]
    have hmoved : copy.movedBy = copy.source.columns.filter (· ∈ copy.bridge.identifying) := by
      simp [Copy.movedBy, hfull]
    have hkey : copy.source.keyTuple old row = none := by simp [Source.keyTuple, hfull]
    have hold : copy.source.oldTuple old = some (Source.tuple copy.source.columns old) := by
      simp [Source.oldTuple, hfull]
    have hany (cs : List String) (sub : ∀ c ∈ cs, c ∈ copy.source.columns) :=
      any_leaves cs old row (copy.source.newTuple old row toast) sub fun c hc =>
        newTuple_identity inline (hid.symm ▸ sub c hc)
    have hmov := hany (copy.source.columns.filter (· ∈ copy.bridge.identifying))
      fun c hc => (List.mem_filter.mp hc).1
    by_cases hm : copy.Moves old row
    · have hm' : ∃ c ∈ copy.source.columns.filter (· ∈ copy.bridge.identifying), old c ≠ row c :=
        hmoved ▸ hm
      have reserves : reservesOldRow none (some (Source.tuple copy.source.columns old))
          (copy.source.newTuple old row toast) copy.source.columns = true := by
        obtain ⟨c, hc, hne⟩ := hm'
        exact (hany copy.source.columns fun c hc => hc).mpr ⟨c, (List.mem_filter.mp hc).1, hne⟩
      have moved : rowMoved none (some (Source.tuple copy.source.columns old))
          (copy.source.newTuple old row toast) copy.source.columns copy.bridge.identifying = true :=
        hmov.mpr hm'
      refine .inl ⟨hm, Source.tuple copy.source.columns old, ?_, fun c hc => ?_⟩
      · simp [hkey, hold, Source.relation, hid, reserves, moved]
      · exact tuple_of_mem (hid ▸ hc)
    · have stays : rowMoved none (some (Source.tuple copy.source.columns old))
          (copy.source.newTuple old row toast) copy.source.columns copy.bridge.identifying = false := by
        rw [Bool.eq_false_iff]
        intro h
        exact hm (by unfold Copy.Moves; rw [hmoved]; exact hmov.mp h)
      refine .inr ⟨hm, ?_⟩
      by_cases reserves : reservesOldRow none (some (Source.tuple copy.source.columns old))
          (copy.source.newTuple old row toast) copy.source.columns = true
      · exact .inl (by simp [hkey, hold, Source.relation, hid, reserves, stays])
      · exact .inr (by simp [hkey, hold, Source.relation, hid, reserves])

end Messages

/-!
## One write

What `completeRow` makes of a message, column by column: the message's value, the one read back for a
row that moved, or nothing to write.
-/

section Writes

variable {copy : Copy V} {step : Step V} {change : CdcChange PgCursor (Row V)} {c : String} {v : V}
  {old row : FullRow V} {toast : List String}

theorem completeRow_value (h : change.row c = some (.value v)) :
    copy.completeRow step change c = some (.value v) := by
  unfold Copy.completeRow
  split
  · cases step.found with
    | none => exact h
    | some current => simp [h]
  · exact h

theorem completeRow_none (h : change.row c = none) : copy.completeRow step change c = none := by
  unfold Copy.completeRow
  split
  · cases step.found with
    | none => exact h
    | some current => simp [h]
  · exact h

theorem completeRow_unchanged (copy : Copy V) (step : Step V)
    (h : change.row c = some .unchanged) :
    copy.completeRow step change c = some .unchanged ∨
      ∃ current, step.found = some current ∧
        copy.completeRow step change c = some (.value (current c)) := by
  unfold Copy.completeRow
  split
  · cases hf : step.found with
    | none => exact .inl h
    | some current =>
      simp only [h]
      split
      · exact .inr ⟨current, rfl, rfl⟩
      · exact .inl rfl
  · exact .inl h

/-- A row that moved is read back. -/
theorem completeRow_moved (h : change.row c = some .unchanged) (hc : c ∈ copy.source.columns)
    (moved : change.keyChanged = true) (readable : copy.readable change.row = true)
    {current : FullRow V} (found : step.found = some current) :
    copy.completeRow step change c = some (.value (current c)) := by
  simp [Copy.completeRow, moved, readable, found, h, hc]

omit [DecidableEq V] in
theorem keyOf_eq {columns : List String} {cells : Row V}
    (h : ∀ c ∈ columns, cells c = some (.value (row c))) :
    keyOf columns cells = columns.map fun c => some (row c) := by
  refine List.map_congr_left fun c hc => ?_
  rw [h c hc]
  rfl

omit [DecidableEq V] in
theorem put_value {target : Target} {cells : Row V} {kept : Option (TargetRow V)}
    (hw : target.writes c = true) (h : cells c = some (.value v)) :
    put target cells kept c = some v := by
  simp [put, hw, h]

omit [DecidableEq V] in
theorem put_unchanged {target : Target} {cells : Row V} {kept : Option (TargetRow V)}
    (hw : target.writes c = true) (h : cells c = some .unchanged) :
    put target cells kept c = kept.bind (· c) := by
  simp [put, hw, h]

omit [DecidableEq V] in
/-- Nothing is written outside of the columns the target writes and the table has. -/
theorem put_outside (columns : List String) {target : Target} {cells : Row V}
    {kept : Option (TargetRow V)} (hcells : c ∉ columns → cells c = none)
    (hkept : ∀ row, kept = some row → row c = none)
    (h : ¬ (target.writes c = true ∧ c ∈ columns)) : put target cells kept c = none := by
  unfold put
  split
  · next hw =>
    rw [hcells fun hc => h ⟨hw, hc⟩]
    cases kept with
    | none => rfl
    | some row => exact hkept row rfl
  · rfl

omit [DecidableEq V] in
theorem withUnchanged_value {tuple : Tuple V} (h : tuple c = some (some v)) :
    withUnchanged tuple c = some (.value v) := by
  simp [withUnchanged, h]

omit [DecidableEq V] in
theorem withUnchanged_none {tuple : Tuple V} (h : tuple c = none) : withUnchanged tuple c = none := by
  simp [withUnchanged, h]

omit [DecidableEq V] in
theorem withUnchanged_unchanged {tuple : Tuple V} (h : tuple c = some none) :
    withUnchanged tuple c = some .unchanged := by
  simp [withUnchanged, h]

omit [DecidableEq V] in
theorem present_value {tuple : Tuple V} (h : tuple c = some (some v)) :
    present tuple c = some (.value v) := by
  simp [present, h]

/-- The row of an update after `completeRow`: a column that is in the message has its value, one that
was left out is as it was, and has the mark or what was read back. -/
theorem completeRow_update (step : Step V)
    (hrow : change.row = withUnchanged (copy.source.newTuple old row toast))
    (hc : c ∈ copy.source.columns) :
    copy.completeRow step change c = some (.value (row c)) ∨
      copy.source.full = false ∧ old c = row c ∧ change.row c = some .unchanged := by
  by_cases h : copy.source.full = false ∧ c ∈ toast ∧ old c = row c
  · refine .inr ⟨h.1, h.2.2, ?_⟩
    rw [hrow]
    exact withUnchanged_unchanged (newTuple_of_eq hc h)
  · refine .inl (completeRow_value ?_)
    rw [hrow]
    exact withUnchanged_value (newTuple_of_ne hc h)

theorem completeRow_outside (hrow : change.row = withUnchanged (copy.source.newTuple old row toast))
    (hc : c ∉ copy.source.columns) : copy.completeRow step change c = none := by
  refine completeRow_none ?_
  rw [hrow]
  exact withUnchanged_none (if_neg hc)

theorem keyOf_update (keyed : ∀ c ∈ copy.target.key, c ∈ copy.source.identity)
    (inline : ∀ c ∈ toast, c ∉ copy.source.identity)
    (hrow : change.row = withUnchanged (copy.source.newTuple old row toast)) :
    keyOf copy.target.key (copy.completeRow step change) = copy.keyFor row := by
  refine keyOf_eq fun c hc => completeRow_value ?_
  rw [hrow]
  exact withUnchanged_value (newTuple_identity inline (keyed c hc))

theorem readable_update (hfull : copy.source.full = false)
    (inline : ∀ c ∈ toast, c ∉ copy.source.identity)
    (notNull : ∀ c ∈ copy.source.primaryKey, row c ≠ copy.source.null)
    (some_ : ∃ c, c ∈ copy.source.primaryKey)
    (hrow : change.row = withUnchanged (copy.source.newTuple old row toast)) :
    copy.readable change.row = true := by
  obtain ⟨c₀, hc₀⟩ := some_
  have hne : copy.source.primaryKey ≠ [] := List.ne_nil_of_mem hc₀
  simp only [Copy.readable, Bool.and_eq_true, Bool.not_eq_true', List.isEmpty_eq_false_iff,
    List.all_eq_true]
  refine ⟨hne, fun c hc => ?_⟩
  have hid : c ∈ copy.source.identity := by simpa [Source.identity, hfull] using hc
  have hcell : change.row c = some (.value (row c)) := by
    rw [hrow]
    exact withUnchanged_value (newTuple_identity inline hid)
  rw [hcell]
  simpa [Cell.value?] using notNull c hc

end Writes

/-!
## The destination follows the table

One lemma for each kind of change (`insert`, `stay`, `move`, and one that is not logged), made of what a
write and a removal do. The induction is on the stream, from the front: what is still to come is the
rest of it.
-/

/-- **How the destination stands to the table.** It has a row under each key that has one, with the
columns the target writes; and each cell is the source's, or is disturbed by something that is
still to come. -/
structure Ahead (copy : Copy V) (table : Table V) (events : List (Event V)) (d : Destination V) :
    Prop where
  here : ∀ k, (d k).isSome = true ↔ ∃ i r, table i = some r ∧ copy.keyFor r = k
  outside : ∀ k row c, d k = some row → ¬ (copy.target.writes c = true ∧ c ∈ copy.source.columns) →
    row c = none
  inside : ∀ i r row c, table i = some r → d (copy.keyFor r) = some row →
    copy.target.writes c = true → c ∈ copy.source.columns →
    row c = some (r c) ∨ copy.Disturbed (copy.keyFor r) c table events

section Follow

variable {copy : Copy V} {table : Table V} {events : List (Event V)} {d : Destination V}
  {step : Step V} {id : ℕ} {old row : FullRow V} {toast : List String}

omit [DecidableEq V] in
theorem Ahead.none_of_unique (h : Ahead copy table events d) {table' : Table V}
    (unique : copy.Unique table') (hrow : table' id = some row)
    (others : ∀ i, i ≠ id → table' i = table i)
    (hold : ∀ r, table id = some r → copy.keyFor r ≠ copy.keyFor row) :
    d (copy.keyFor row) = none := by
  rw [← Option.not_isSome_iff_eq_none]
  intro hsome
  obtain ⟨i, r, hr, hk⟩ := (h.here _).mp hsome
  by_cases hi : i = id
  · exact hold r (hi ▸ hr) hk
  · exact hi (unique i id r row ((others i hi).trans hr) hrow hk)

/-- **A row is written.** `d₀` is the destination before, without the row as it was where it was
taken away. -/
theorem Ahead.write (h : Ahead copy table (.row step :: events) d) {table' : Table V}
    (unique : copy.Unique table') (happly : step.op.apply table = table')
    (hrow : table' id = some row) (others : ∀ i, i ≠ id → table' i = table i) {d₀ : Destination V}
    (here : ∀ k, k ≠ copy.keyFor row →
      ((d₀ k).isSome = true ↔ ∃ i r, i ≠ id ∧ table i = some r ∧ copy.keyFor r = k))
    (same : ∀ k row', k ≠ copy.keyFor row → d₀ k = some row' → d k = some row')
    (quiet : ∀ k c, k ≠ copy.keyFor row → (d₀ k).isSome = true → ¬ copy.Disturbs table k c step.op)
    {written : TargetRow V}
    (outside : ∀ c, ¬ (copy.target.writes c = true ∧ c ∈ copy.source.columns) → written c = none)
    (inside : ∀ c, copy.target.writes c = true → c ∈ copy.source.columns →
      written c = some (row c) ∨ copy.Disturbed (copy.keyFor row) c table' events) :
    Ahead copy table' events (Function.update d₀ (copy.keyFor row) (some written)) where
  here := by
    intro k
    by_cases hk : k = copy.keyFor row
    · subst hk
      simp only [Function.update_self, Option.isSome_some, true_iff]
      exact ⟨id, row, hrow, rfl⟩
    · rw [Function.update_of_ne hk, here k hk]
      constructor
      · rintro ⟨i, r, hi, hr, hkr⟩
        exact ⟨i, r, (others i hi).trans hr, hkr⟩
      · rintro ⟨i, r, hr, hkr⟩
        have hi : i ≠ id := by
          rintro rfl
          obtain rfl : r = row := Option.some.inj (hr.symm.trans hrow)
          exact hk hkr.symm
        exact ⟨i, r, hi, (others i hi).symm.trans hr, hkr⟩
  outside := by
    intro k row' c hd hc
    by_cases hk : k = copy.keyFor row
    · subst hk
      rw [Function.update_self] at hd
      obtain rfl := Option.some.inj hd
      exact outside c hc
    · rw [Function.update_of_ne hk] at hd
      exact h.outside k row' c (same k row' hk hd) hc
  inside := by
    intro i r row' c hr hd hw hc
    by_cases hk : copy.keyFor r = copy.keyFor row
    · obtain rfl := unique i id r row hr hrow hk
      obtain rfl : r = row := Option.some.inj (hr.symm.trans hrow)
      rw [Function.update_self] at hd
      obtain rfl := Option.some.inj hd
      exact inside c hw hc
    · have hi : i ≠ id := by
        rintro rfl
        obtain rfl : r = row := Option.some.inj (hr.symm.trans hrow)
        exact hk rfl
      rw [Function.update_of_ne hk] at hd
      rcases h.inside i r row' c ((others i hi).symm.trans hr) (same _ row' hk hd) hw hc with
        heq | hnow | hlater
      · exact .inl heq
      · exact absurd hnow (quiet _ c hk (by rw [hd]; rfl))
      · exact .inr (happly ▸ hlater)

/-- A row is taken away. -/
theorem Ahead.remove (h : Ahead copy table (.row step :: events) d) (unique : copy.Unique table)
    (hop : step.op = .delete id) (hold : table id = some old) :
    Ahead copy (step.op.apply table) events (Function.update d (copy.keyFor old) none) := by
  have at_ : step.op.apply table id = none := by
    rw [hop, RowOp.apply, Function.update_self]
  have others {i : ℕ} (hi : i ≠ id) : step.op.apply table i = table i := by
    rw [hop, RowOp.apply, Function.update_of_ne hi]
  have present {i : ℕ} {r : FullRow V} (hr : step.op.apply table i = some r) : i ≠ id := by
    rintro rfl
    rw [at_] at hr
    cases hr
  have elsewhere {i : ℕ} {r : FullRow V} (hr : step.op.apply table i = some r) :
      copy.keyFor r ≠ copy.keyFor old := fun hk =>
    present hr (unique i id r old ((others (present hr)).symm.trans hr) hold hk)
  refine ⟨fun k => ?_, fun k row c hd hc => ?_, fun i r row c hr hd hw hc => ?_⟩
  · by_cases hk : k = copy.keyFor old
    · subst hk
      rw [Function.update_self]
      simp only [Option.isSome_none, Bool.false_eq_true, false_iff]
      rintro ⟨i, r, hr, hkr⟩
      exact elsewhere hr hkr
    · rw [Function.update_of_ne hk, h.here k]
      constructor
      · rintro ⟨i, r, hr, hkr⟩
        have hi : i ≠ id := by
          rintro rfl
          obtain rfl : r = old := Option.some.inj (hr.symm.trans hold)
          exact hk hkr.symm
        exact ⟨i, r, (others hi).trans hr, hkr⟩
      · rintro ⟨i, r, hr, hkr⟩
        exact ⟨i, r, (others (present hr)).symm.trans hr, hkr⟩
  · have hk : k ≠ copy.keyFor old := by
      rintro rfl
      rw [Function.update_self] at hd
      cases hd
    rw [Function.update_of_ne hk] at hd
    exact h.outside k row c hd hc
  · rw [Function.update_of_ne (elsewhere hr)] at hd
    rcases h.inside i r row c ((others (present hr)).symm.trans hr) hd hw hc with
      heq | hnow | hlater
    · exact .inl heq
    · rw [hop] at hnow
      obtain ⟨r', hr', hk⟩ := hnow
      obtain rfl : r' = old := Option.some.inj (hr'.symm.trans hold)
      exact absurd hk.symm (elsewhere hr)
    · exact .inr hlater

theorem apply_of_not_logged {op : RowOp V} (nothing : copy.source.logged table op = none) :
    op.apply table = table := by
  cases op with
  | insert id row =>
    simp only [Source.logged, ite_eq_left_iff, reduceCtorEq, imp_false, not_not] at nothing
    exact if_pos nothing
  | update id row toast =>
    have hnone : table id = none := by simpa [Source.logged] using nothing
    simp [RowOp.apply, hnone]
  | delete id =>
    have hnone : table id = none := by simpa [Source.logged] using nothing
    rw [RowOp.apply, ← hnone, Function.update_eq_self]
  | truncate => cases nothing

/-- A change of nothing. -/
theorem Ahead.pass (h : Ahead copy table (.row step :: events) d)
    (nothing : copy.source.logged table step.op = none) :
    Ahead copy (step.op.apply table) events d := by
  have same := apply_of_not_logged nothing
  refine ⟨fun k => same.symm ▸ h.here k, h.outside, fun i r row c hr hd hw hc => ?_⟩
  rw [same] at hr ⊢
  rcases h.inside i r row c hr hd hw hc with heq | hnow | hlater
  · exact .inl heq
  · refine absurd hnow ?_
    cases hop : step.op with
    | insert id row =>
      rw [hop] at nothing
      simp only [Source.logged, ite_eq_left_iff, reduceCtorEq, imp_false, not_not] at nothing
      rintro ⟨hnone, -⟩
      simp [hnone] at nothing
    | update id row toast =>
      rw [hop] at nothing
      have hnone : table id = none := by simpa [Source.logged] using nothing
      rintro ⟨old, hold, -⟩
      simp [hnone] at hold
    | delete id =>
      rw [hop] at nothing
      have hnone : table id = none := by simpa [Source.logged] using nothing
      rintro ⟨old, hold, -⟩
      simp [hnone] at hold
    | truncate =>
      rw [hop] at nothing
      cases nothing
  · exact .inr (same ▸ hlater)

section Changes

variable {change : CdcChange PgCursor (Row V)} (keyed : ∀ c ∈ copy.target.key, c ∈ copy.source.identity)
include keyed

theorem Ahead.insert (h : Ahead copy table (.row step :: events) d)
    (provides : copy.Provides table step events) (hop : step.op = .insert id row)
    (free : table id = none) (op : change.op = .insert)
    (cells : change.row = withUnchanged (Source.tuple copy.source.columns row)) :
    Ahead copy (step.op.apply table) events (copy.deliver step d change) := by
  have apply_ : step.op.apply table = Function.update table id (some row) := by
    simp [hop, RowOp.apply, free]
  have hrow : step.op.apply table id = some row := by rw [apply_, Function.update_self]
  have others : ∀ i, i ≠ id → step.op.apply table i = table i := fun i hi => by
    rw [apply_, Function.update_of_ne hi]
  have value {c : String} (hc : c ∈ copy.source.columns) :
      copy.completeRow step change c = some (.value (row c)) := by
    refine completeRow_value ?_
    rw [cells]
    exact withUnchanged_value (tuple_of_mem hc)
  have hkey : keyOf copy.target.key (copy.completeRow step change) = copy.keyFor row :=
    keyOf_eq fun c hc => value (identity_mem_columns c (keyed c hc))
  have hnone : d (copy.keyFor row) = none :=
    h.none_of_unique provides.unique hrow others fun r hr => by simp [free] at hr
  have hdeliver : copy.deliver step d change = Function.update d (copy.keyFor row)
      (some (put copy.target (copy.completeRow step change) none)) := by
    simp only [Copy.deliver, op, hkey, hnone]
  rw [hdeliver]
  refine h.write provides.unique rfl hrow others (fun k _ => ?_) (fun _ _ _ hd => hd)
    (fun k c hk _ hdist => ?_) (fun c hc => ?_) fun c hw hc => .inl (put_value hw (value hc))
  · rw [h.here k]
    constructor
    · rintro ⟨i, r, hr, hkr⟩
      refine ⟨i, r, ?_, hr, hkr⟩
      rintro rfl
      simp [free] at hr
    · rintro ⟨i, r, -, hr, hkr⟩
      exact ⟨i, r, hr, hkr⟩
  · rw [hop] at hdist
    exact hk hdist.2.symm
  · refine put_outside copy.source.columns (fun hc => completeRow_none ?_) nofun hc
    rw [cells]
    exact withUnchanged_none (if_neg hc)

omit [DecidableEq V] in
/-- The row is read back as it is, or its cell is disturbed later. -/
theorem Provides.found (provides : copy.Provides table step events)
    (along : Along copy.Provides (step.op.apply table) events) (hfull : copy.source.full = false)
    (hop : step.op = .update id row toast) (hrow : step.op.apply table id = some row) (c : String) :
    (∃ current, step.found = some current ∧ current c = row c) ∨
      copy.Disturbed (copy.keyFor row) c (step.op.apply table) events := by
  obtain ⟨m, answers⟩ := provides.answers row (by rw [hop]; rfl)
  exact found_or_disturbed keyed hfull along provides.unique hrow answers

/-- An update of a row that stays under its key. -/
theorem Ahead.stay (h : Ahead copy table (.row step :: events) d)
    (provides : copy.Provides table step events)
    (along : Along copy.Provides (step.op.apply table) events)
    (hop : step.op = .update id row toast) (hold : table id = some old)
    (stays : ¬ copy.Moves old row) (op : change.op = .update)
    (cells : change.row = withUnchanged (copy.source.newTuple old row toast)) :
    Ahead copy (step.op.apply table) events (copy.deliver step d change) := by
  have apply_ : step.op.apply table = Function.update table id (some row) := by
    simp [hop, RowOp.apply, hold]
  have hrow : step.op.apply table id = some row := by rw [apply_, Function.update_self]
  have others : ∀ i, i ≠ id → step.op.apply table i = table i := fun i hi => by
    rw [apply_, Function.update_of_ne hi]
  have inline := provides.inline id row toast hop
  have hsame : copy.keyFor old = copy.keyFor row := keyFor_of_not_moves keyed stays
  obtain ⟨kept, hkept⟩ : ∃ kept, d (copy.keyFor row) = some kept :=
    Option.isSome_iff_exists.mp ((h.here _).mpr ⟨id, old, hold, hsame⟩)
  have hdeliver : copy.deliver step d change = Function.update d (copy.keyFor row)
      (some (put copy.target (copy.completeRow step change) (some kept))) := by
    simp only [Copy.deliver, op, keyOf_update keyed inline cells, hkept]
  rw [hdeliver]
  refine h.write provides.unique rfl hrow others (fun k hk => ?_) (fun _ _ _ hd => hd)
    (fun k c hk _ hdist => ?_) (fun c hc => ?_) fun c hw hc => ?_
  · rw [h.here k]
    constructor
    · rintro ⟨i, r, hr, hkr⟩
      refine ⟨i, r, ?_, hr, hkr⟩
      rintro rfl
      obtain rfl : r = old := Option.some.inj (hr.symm.trans hold)
      exact hk (hkr.symm.trans hsame)
    · rintro ⟨i, r, -, hr, hkr⟩
      exact ⟨i, r, hr, hkr⟩
  · rw [hop] at hdist
    obtain ⟨r, hr, hkey, -⟩ := hdist
    obtain rfl : r = old := Option.some.inj (hr.symm.trans hold)
    rcases hkey with hkey | hkey
    · exact hk (hkey.symm.trans hsame)
    · exact hk hkey.symm
  · refine put_outside copy.source.columns (completeRow_outside cells) (fun r hr => ?_) hc
    obtain rfl := Option.some.inj hr
    exact h.outside _ _ c hkept hc
  · rcases completeRow_update step cells hc with hv | ⟨hfull, heq, hmark⟩
    · exact .inl (put_value hw hv)
    · rcases completeRow_unchanged copy step hmark with hv | ⟨current, hfound, hv⟩
      · -- left out: the destination has it, or is told again
        rw [put_unchanged hw hv]
        rw [← hsame] at hkept
        rcases h.inside id old kept c hold hkept hw hc with hcell | hnow | hlater
        · exact .inl (hcell.trans (congrArg some heq))
        · rw [hop] at hnow
          obtain ⟨r, hr, -, hmove | hne⟩ := hnow
          · obtain rfl : r = old := Option.some.inj (hr.symm.trans hold)
            exact absurd hmove stays
          · obtain rfl : r = old := Option.some.inj (hr.symm.trans hold)
            exact absurd heq hne
        · exact .inr (hsame ▸ hlater)
      · rcases Provides.found keyed provides along hfull hop hrow c with
          ⟨current', hfound', hcur⟩ | hlater
        · obtain rfl : current = current' := Option.some.inj (hfound.symm.trans hfound')
          exact .inl (hcur ▸ put_value hw hv)
        · exact .inr hlater

/-- An update that moves a row: a delete where it was, and the row where it is. -/
theorem Ahead.move (h : Ahead copy table (.row step :: events) d)
    (unique : copy.Unique table) (provides : copy.Provides table step events)
    (along : Along copy.Provides (step.op.apply table) events)
    (hop : step.op = .update id row toast) (hold : table id = some old) (moves : copy.Moves old row)
    {gone : CdcChange PgCursor (Row V)} (opGone : gone.op = .delete)
    (keyGone : ∀ c ∈ copy.source.identity, gone.row c = some (.value (old c)))
    (op : change.op = .update) (moved : change.keyChanged = true)
    (cells : change.row = withUnchanged (copy.source.newTuple old row toast)) :
    Ahead copy (step.op.apply table) events
      (copy.deliver step (copy.deliver step d gone) change) := by
  have apply_ : step.op.apply table = Function.update table id (some row) := by
    simp [hop, RowOp.apply, hold]
  have hrow : step.op.apply table id = some row := by rw [apply_, Function.update_self]
  have others : ∀ i, i ≠ id → step.op.apply table i = table i := fun i hi => by
    rw [apply_, Function.update_of_ne hi]
  have inline := provides.inline id row toast hop
  have hgone : copy.deliver step d gone = Function.update d (copy.keyFor old) none := by
    have hk : keyOf copy.target.key gone.row = copy.keyFor old :=
      keyOf_eq fun c hc => keyGone c (keyed c hc)
    simp only [Copy.deliver, opGone, hk]
  have hnone : Function.update d (copy.keyFor old) none (copy.keyFor row) = none := by
    by_cases hk : copy.keyFor row = copy.keyFor old
    · rw [hk, Function.update_self]
    · rw [Function.update_of_ne hk]
      refine h.none_of_unique provides.unique hrow others fun r hr => ?_
      obtain rfl : r = old := Option.some.inj (hr.symm.trans hold)
      exact fun heq => hk heq.symm
  have hdeliver : copy.deliver step (copy.deliver step d gone) change =
      Function.update (Function.update d (copy.keyFor old) none) (copy.keyFor row)
        (some (put copy.target (copy.completeRow step change) none)) := by
    rw [hgone]
    simp only [Copy.deliver, op, keyOf_update keyed inline cells, hnone]
  rw [hdeliver]
  have notOld {k : List (Option V)} (hk : (Function.update d (copy.keyFor old) none k).isSome = true) :
      k ≠ copy.keyFor old := by
    rintro rfl
    rw [Function.update_self] at hk
    cases hk
  refine h.write provides.unique rfl hrow others (fun k hk => ?_) (fun k r hk hd => ?_)
    (fun k c hk hs hdist => ?_) (fun c hc => ?_) fun c hw hc => ?_
  · constructor
    · intro hs
      have hko := notOld hs
      rw [Function.update_of_ne hko, h.here k] at hs
      obtain ⟨i, r, hr, hkr⟩ := hs
      refine ⟨i, r, ?_, hr, hkr⟩
      rintro rfl
      obtain rfl : r = old := Option.some.inj (hr.symm.trans hold)
      exact hko hkr.symm
    · rintro ⟨i, r, hi, hr, rfl⟩
      have hko : copy.keyFor r ≠ copy.keyFor old := fun heq => hi (unique i id r old hr hold heq)
      rw [Function.update_of_ne hko]
      exact (h.here _).mpr ⟨i, r, hr, rfl⟩
  · rw [Function.update_of_ne (notOld (by rw [hd]; rfl))] at hd
    exact hd
  · rw [hop] at hdist
    obtain ⟨r, hr, hkey, -⟩ := hdist
    obtain rfl : r = old := Option.some.inj (hr.symm.trans hold)
    rcases hkey with hkey | hkey
    · exact notOld hs hkey.symm
    · exact hk hkey.symm
  · exact put_outside copy.source.columns (completeRow_outside cells) nofun hc
  · rcases completeRow_update step cells hc with hv | ⟨hfull, heq, hmark⟩
    · exact .inl (put_value hw hv)
    · rcases Provides.found keyed provides along hfull hop hrow c with ⟨current, hfound, hcur⟩ | hlater
      · refine .inl (hcur ▸ put_value hw (completeRow_moved hmark hc moved ?_ hfound))
        refine readable_update hfull inline (provides.notNull row (by rw [hop]; rfl)) ?_ cells
        obtain ⟨c', hc', -⟩ := moves
        exact ⟨c', by simpa [Copy.movedBy, hfull] using hc'⟩
      · exact .inr hlater

/-- **One row change keeps how the destination stands to the table.** -/
theorem Ahead.rowChange (h : Ahead copy table (.row step :: events) d) (unique : copy.Unique table)
    (provides : copy.Provides table step events)
    (along : Along copy.Provides (step.op.apply table) events) {msg : RowMessage V}
    (logged : copy.source.logged table step.op = some msg) (txn : Option Decoding) :
    Ahead copy (step.op.apply table) events
      ((emitted txn step.lsn (copy.bridge.decode msg)).1.foldl (copy.deliver step) d) := by
  have all : ∀ op, op ∈ copy.bridge.operations := by
    intro op
    cases op <;> simp [Copy.bridge, Copy.operations]
  cases hop : step.op with
  | insert id row =>
    rw [hop] at logged
    simp only [Source.logged, Option.ite_none_left_eq_some, Option.some.injEq, Bool.not_eq_true,
      Option.isSome_eq_false_iff, Option.isNone_iff_eq_none] at logged
    obtain ⟨free, rfl⟩ := logged
    rw [Bridge.decode, if_pos ⟨all _, ours_relation⟩]
    rw [← hop]
    simp only [emitted, List.foldl_cons, List.foldl_nil]
    exact Ahead.insert keyed h provides hop free rfl rfl
  | update id row toast =>
    rw [hop] at logged
    obtain ⟨old, hold, rfl⟩ := Option.map_eq_some_iff.mp logged
    rw [← hop]
    rcases decode_update old row (provides.inline id row toast hop) with
      ⟨moves, before, hdec, hbefore⟩ | ⟨stays, hdec | hdec⟩
    · rw [hdec]
      simp only [emitted, List.foldl_cons, List.foldl_nil]
      exact Ahead.move keyed h unique provides along hop hold moves rfl
        (fun c hc => present_value (hbefore c hc)) rfl rfl rfl
    · rw [hdec]
      simp only [emitted, List.foldl_cons, List.foldl_nil]
      exact Ahead.stay keyed h provides along hop hold stays rfl rfl
    · rw [hdec]
      simp only [emitted, List.foldl_cons, List.foldl_nil]
      exact Ahead.stay keyed h provides along hop hold stays rfl rfl
  | delete id =>
    rw [hop] at logged
    obtain ⟨old, hold, rfl⟩ := Option.map_eq_some_iff.mp logged
    rw [Bridge.decode, if_pos ⟨all _, ours_relation⟩, ← hop]
    have hkey : keyOf copy.target.key (present
        ((copy.source.oldTuple old <|> if copy.source.full then none
          else some (Source.tuple copy.source.primaryKey old)).getD fun _ => none)) =
        copy.keyFor old := by
      refine keyOf_eq fun c hc => present_value ?_
      have hid := keyed c hc
      cases hfull : copy.source.full with
      | true =>
        simp only [Source.identity, hfull, if_true] at hid
        simp [Source.oldTuple, hfull, tuple_of_mem hid]
      | false =>
        have hpk : c ∈ copy.source.primaryKey := by simpa [Source.identity, hfull] using hid
        simp [Source.oldTuple, hfull, tuple_of_mem hpk]
    have hdeliver : ∀ cells cursor, keyOf copy.target.key cells = copy.keyFor old →
        copy.deliver step d { op := .delete, row := cells, cursor } =
          Function.update d (copy.keyFor old) none := fun cells cursor hk => by
      simp only [Copy.deliver, hk]
    simp only [emitted, List.foldl_cons, List.foldl_nil]
    rw [hdeliver _ _ ?_]
    · exact h.remove unique hop hold
    · refine Eq.trans ?_ hkey
      cases hfull : copy.source.full <;> simp [Source.oldTuple, hfull]
  | truncate =>
    rw [hop] at logged
    obtain rfl := Option.some.inj logged
    have ours : [copy.source.relation].any copy.bridge.ours = true := by simp [ours_relation]
    rw [Bridge.decode, if_pos ours, if_pos (all _)]
    refine ⟨fun k => ?_, nofun, nofun⟩
    simp [emitted, Copy.deliver, RowOp.apply]

/-- **The run**: the destination follows the table to the end of the stream. -/
theorem Ahead.follow (h : Ahead copy table events d) (unique : copy.Unique table)
    (along : Along copy.Provides table events) (txn : Option Decoding) :
    Ahead copy (tableAfter table events) [] (copy.follow txn table d events) := by
  induction events generalizing table d txn with
  | nil => exact h
  | cons e events ih =>
    cases e with
    | begin commit => exact ih ⟨h.here, h.outside, h.inside⟩ unique along _
    | commit => exact ih ⟨h.here, h.outside, h.inside⟩ unique along _
    | row step =>
      obtain ⟨provides, along⟩ := along
      cases hlog : copy.source.logged table step.op with
      | none =>
        have hpass := h.pass hlog
        have same := apply_of_not_logged hlog
        simp only [Copy.follow, hlog, tableAfter]
        rw [same] at along hpass ⊢
        exact ih hpass unique along txn
      | some msg =>
        simp only [Copy.follow, hlog, tableAfter]
        exact ih (Ahead.rowChange keyed h unique provides along hlog txn) provides.unique along _

end Changes

omit [DecidableEq V] in
theorem Ahead.of_replays (h : copy.Replays table d) (unique : copy.Unique table) :
    Ahead copy table events d := by
  refine ⟨fun k => ?_, fun k row c hd hc => ?_, fun i r row c hr hd hw hc => .inl ?_⟩
  · rw [Option.isSome_iff_exists]
    constructor
    · rintro ⟨row, hrow⟩
      obtain ⟨i, r, hr, hk, -⟩ := (h k row).mp hrow
      exact ⟨i, r, hr, hk⟩
    · rintro ⟨i, r, hr, hk⟩
      exact ⟨_, (h k _).mpr ⟨i, r, hr, hk, rfl⟩⟩
  · obtain ⟨i, r, hr, hk, rfl⟩ := (h k row).mp hd
    exact if_neg hc
  · obtain ⟨j, r', hr', hk, rfl⟩ := (h _ row).mp hd
    obtain rfl := unique j i r' r hr' hr hk
    obtain rfl : r' = r := Option.some.inj (hr'.symm.trans hr)
    exact if_pos ⟨hw, hc⟩

omit [DecidableEq V] in
theorem Ahead.replays (h : Ahead copy table [] d) : copy.Replays table d := by
  have cells {i : ℕ} {r : FullRow V} {row : TargetRow V} (hr : table i = some r)
      (hd : d (copy.keyFor r) = some row) :
      row = fun c => if copy.target.writes c ∧ c ∈ copy.source.columns then some (r c) else none := by
    funext c
    split
    · next hc => exact (h.inside i r row c hr hd hc.1 hc.2).resolve_right id
    · next hc => exact h.outside _ row c hd hc
  intro k row
  constructor
  · intro hd
    obtain ⟨i, r, hr, rfl⟩ := (h.here k).mp (by rw [hd]; rfl)
    exact ⟨i, r, hr, rfl, cells hr hd⟩
  · rintro ⟨i, r, hr, rfl, rfl⟩
    obtain ⟨row, hrow⟩ := Option.isSome_iff_exists.mp ((h.here _).mpr ⟨i, r, hr, rfl⟩)
    rw [hrow, cells hr hrow]

/-- **The changes decoded for a bridge replay the table**, for each of its targets. -/
theorem follow_replays (servable : copy.Servable)
    (carried : ∀ c ∈ copy.target.key, c ∈ copy.source.columns) (unique : copy.Unique table)
    (start : copy.Replays table d) (along : Along copy.Provides table events) :
    copy.Replays (tableAfter table events) (copy.follow none table d events) :=
  (Ahead.follow (key_mem_identity servable carried) (Ahead.of_replays start unique) unique along
    none).replays

end Follow

/-! ### A key that two rows have for a moment -/

namespace ShiftedKeys

/-- REPLICA IDENTITY FULL, and a constraint on `id` that is checked when the transaction ends. -/
def source : Source ℕ :=
  { schema := "public", table := "tasks", columns := ["id"], primaryKey := ["id"]
    mem_columns := fun _ h => h, full := true, null := 0 }

def target : Target := { table := "tasks", keyColumns := ["id"], mapping := [] }

def copy : Copy ℕ :=
  { source, targets := [target], target, mem := List.mem_singleton_self _ }

def row (id : ℕ) : FullRow ℕ := fun _ => id

def step (op : RowOp ℕ) : Event ℕ := .row { lsn := 0, op, needed := false, found := none }

/-- `UPDATE tasks SET id = id + 1`, on the rows 1 and 2. -/
def events : List (Event ℕ) :=
  [.begin 10, step (.insert 0 (row 1)), step (.insert 1 (row 2)), .commit,
    .begin 20, step (.update 0 (row 2) []), step (.update 1 (row 3) []), .commit]

/-- The delete of the second row's old key takes the first row away. -/
theorem shifted_lost : copy.Servable ∧ (∀ c ∈ copy.target.key, c ∈ copy.source.columns) ∧
    copy.Replays (fun _ => none) (fun _ => none) ∧
    ¬ copy.Replays (tableAfter (fun _ => none) events)
      (copy.follow none (fun _ => none) (fun _ => none) events) := by
  refine ⟨⟨false, 160000, by decide⟩, by decide, fun k row => ?_, fun h => ?_⟩
  · simp
  · have there := (h [some 2] _).mpr ⟨0, row 2, rfl, rfl, rfl⟩
    have gone : copy.follow none (fun _ => none) (fun _ => none) events [some 2] = none := by decide
    rw [gone] at there
    cases there

end ShiftedKeys

/-! ### A row that moves with a large column it keeps -/

namespace LargeColumnMoves

def source : Source ℕ :=
  { schema := "public", table := "docs", columns := ["id", "doc"], primaryKey := ["id"]
    mem_columns := by decide, full := false, null := 0 }

def target : Target := { table := "docs", keyColumns := ["id"], mapping := [] }

def copy : Copy ℕ :=
  { source, targets := [target], target, mem := List.mem_singleton_self _ }

def row (id doc : ℕ) : FullRow ℕ := fun c => if c = "id" then id else doc

def written : Step ℕ :=
  { lsn := 8, op := .insert 0 (row 1 7), needed := false, found := some (row 1 7) }

/-- The update leaves `doc` out, and it is read back. -/
def moved : Step ℕ :=
  { lsn := 18, op := .update 0 (row 2 7) ["doc"], needed := false, found := some (row 2 7) }

def events : List (Event ℕ) := [.begin 10, .row written, .commit, .begin 20, .row moved, .commit]

theorem one_row (r : FullRow ℕ) : copy.Unique (Function.update (fun _ => none) 0 (some r)) := by
  intro i j s s' hi hj _
  have at_zero {i : ℕ} {s : FullRow ℕ} (h : Function.update (fun _ => none) 0 (some r) i = some s) :
      i = 0 := by
    by_contra hne
    rw [Function.update_of_ne hne] at h
    cases h
  rw [at_zero hi, at_zero hj]

theorem notNull {id doc : ℕ} (h : id ≠ 0) : ∀ c ∈ copy.source.primaryKey, row id doc c ≠ copy.source.null := by
  intro c hc
  obtain rfl : c = "id" := List.mem_singleton.mp hc
  exact h

theorem moved_replayed : copy.Replays (tableAfter (fun _ => none) events)
    (copy.follow none (fun _ => none) (fun _ => none) events) := by
  have first : copy.Provides (fun _ => none) written [.commit, .begin 20, .row moved, .commit] := by
    refine ⟨one_row _, nofun, fun r hr => ?_, fun r hr => ?_⟩
    · obtain rfl := Option.some.inj hr
      exact notNull (by decide)
    · obtain rfl := Option.some.inj hr
      exact ⟨0, ⟨0, rfl⟩, fun _ _ => rfl⟩
  have second : copy.Provides (written.op.apply fun _ => none) moved [.commit] := by
    refine ⟨?_, fun id r toast hop c hc => ?_, fun r hr => ?_, fun r hr => ?_⟩
    · have happly : moved.op.apply (written.op.apply fun _ => none) =
          Function.update (fun _ => none) 0 (some (row 2 7)) := Function.update_idem _ _ _
      rw [happly]
      exact one_row _
    · obtain ⟨rfl, rfl, rfl⟩ : 0 = id ∧ row 2 7 = r ∧ ["doc"] = toast := by
        simpa [moved] using hop
      obtain rfl : c = "doc" := List.mem_singleton.mp hc
      decide
    · obtain rfl := Option.some.inj hr
      exact notNull (by decide)
    · obtain rfl := Option.some.inj hr
      exact ⟨0, ⟨0, rfl⟩, fun _ _ => rfl⟩
  refine follow_replays ⟨false, 160000, by decide⟩ (by decide) nofun (fun k row => ?_)
    ⟨first, second, trivial⟩
  simp

end LargeColumnMoves

end Syncle.Postgres.Replay
