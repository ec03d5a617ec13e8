import Syncle.Secrets.Rotation

/-!
# A change of key loses no secret

What a pass has behind it is under the current key or is among those it counts as unreadable, and
what it has before it is as it has read it. That outlives every save and every other pass; what does
not is a save of the very secret whose row has been read and is to be written back: the update is by
id alone, and puts the older secret in the place of the newer (`MeetsRotation`).
-/

namespace Syncle.Secrets

open Lib

variable {K : Type*}

/-- What a phase has before it. -/
def Phase.Ahead : Phase K → Place → Stored K → Prop
  | .finding columns, place, _ => place.column ∈ columns
  | .turning column rows columns, place, x =>
    place.column ∈ columns ∨
      place.column = column ∧ ∃ row ∈ rows, row.id = place.id ∧ row.stored = x

/-- What is stored is under the current key, is counted as unreadable, or lies ahead. -/
structure Pass.Accounts (s : Store K) (pass : Pass) (ahead : Place → Stored K → Prop) : Prop where
  count : pass.report.unreadable = pass.unread.length
  each : ∀ place x, s.stored place = some x →
    x.key = s.keys.current ∨ (x.key ∉ s.keys ∧ place ∈ pass.unread) ∨ ahead place x

/-- A row that has been read holds the secret of its place, for as long as none is saved there. -/
structure ReadRow.Holds (gcm : Gcm K) (s : Store K) (column : Column) (row : ReadRow K) : Prop where
  encrypts : Encrypts gcm row.stored.key row.stored.value row.stored.plaintext
  count : row.count ≤ (s.saved ⟨column, row.id⟩).count
  saved : (s.saved ⟨column, row.id⟩).count = row.count →
    (s.saved ⟨column, row.id⟩).secret = some row.stored.plaintext

def Phase.Reads (gcm : Gcm K) (s : Store K) : Phase K → Prop
  | .finding _ => True
  | .turning column rows _ => ∀ row ∈ rows, row.Holds gcm s column

structure Store.Sound (gcm : Gcm K) (s : Store K) : Prop where
  housed : ∀ place, s.stored place ≠ none → place.id ∈ s.rows place.column.table
  encrypts : ∀ place x, s.stored place = some x → Encrypts gcm x.key x.value x.plaintext
  kept : ∀ place, (s.stored place).map Stored.plaintext = (s.saved place).secret.filter (· ≠ "")
  missing : ∀ place x, s.stored place = some x → x.key ∉ s.keys → x.value = x.original
  passed : ∀ pass ∈ s.last, pass.Accounts s fun _ _ => False

/-- What a task of this start may go by. -/
def Task.Knows (gcm : Gcm K) (s : Store K) : Task K → Prop
  | .called _ => True
  | .rotating start pass phase =>
    start ≤ s.starts ∧ (start = s.starts → pass.Accounts s phase.Ahead ∧ phase.Reads gcm s)
  | .copying start stored _ =>
    start ≤ s.starts ∧ ∀ x ∈ stored, Encrypts gcm x.key x.value x.plaintext

/-- A secret that can be read, but not with the current key. -/
def Keys.Previous (keys : Keys K) (key : K) : Prop := key ∈ keys ∧ key ≠ keys.current

instance [DecidableEq K] (keys : Keys K) (key : K) : Decidable (keys.Previous key) :=
  inferInstanceAs (Decidable (_ ∧ _))

/-- What is asked of a step: that a row that is written back has not been saved since it was read,
that no update of a job's snapshot is refused, and that what a request copies is under the current
key. -/
def Task.Undisturbed (s : Store K) (task : Task K) (answer : Answer) : Prop :=
  match task with
  | .rotating _ _ (.turning column (row :: _) _) =>
    s.keys.Previous row.stored.key → row.id ∈ s.rows column.table →
      (s.saved ⟨column, row.id⟩).count = row.count ∧
        (column = .snapshotAuthEnc → answer.fails = false)
  | .copying _ stored _ => ∀ x ∈ stored, x.key = s.keys.current
  | _ => True

instance [DecidableEq K] (s : Store K) (task : Task K) (answer : Answer) :
    Decidable (task.Undisturbed s answer) :=
  match task with
  | .called _ => .isTrue trivial
  | .rotating _ _ (.finding _) => .isTrue trivial
  | .rotating _ _ (.turning _ [] _) => .isTrue trivial
  | .rotating _ _ (.turning column (row :: _) _) =>
    inferInstanceAs (Decidable (s.keys.Previous row.stored.key → row.id ∈ s.rows column.table →
      (s.saved ⟨column, row.id⟩).count = row.count ∧
        (column = .snapshotAuthEnc → answer.fails = false)))
  | .copying _ stored _ => inferInstanceAs (Decidable (∀ x ∈ stored, x.key = s.keys.current))

def MeetsRotation (w : Tasks (Store K) (Task K)) : TaskEvent Request Answer (World K) → Prop :=
  onGo Task.Undisturbed w

instance [DecidableEq K] (w : Tasks (Store K) (Task K))
    (e : TaskEvent Request Answer (World K)) : Decidable (MeetsRotation w e) :=
  inferInstanceAs (Decidable (onGo _ w e))

/-!
## Steps that leave a pass what it goes by

A pass reads a page and writes it back row by row, and others create, save and delete meanwhile.
-/

/-- What is stored is as it was, or is under the current key now; and a save is counted. -/
structure Store.Leaves (s s' : Store K) : Prop where
  starts : s'.starts = s.starts
  keys : s'.keys = s.keys
  stored : ∀ place x, s'.stored place = some x →
    x.key = s.keys.current ∨ s.stored place = some x
  saved : ∀ place, (s.saved place).count < (s'.saved place).count ∨ s'.saved place = s.saved place

variable {gcm : Gcm K} {s s' : Store K}

theorem Pass.Accounts.leaves {pass : Pass} {ahead : Place → Stored K → Prop}
    (h : pass.Accounts s ahead) (leaves : s.Leaves s') : pass.Accounts s' ahead where
  count := h.count
  each place x there := by
    rw [leaves.keys]
    rcases leaves.stored place x there with current | was
    · exact .inl current
    · exact h.each place x was

theorem ReadRow.Holds.leaves {column : Column} {row : ReadRow K} (h : row.Holds gcm s column)
    (leaves : s.Leaves s') : row.Holds gcm s' column := by
  have le := h.count
  rcases leaves.saved ⟨column, row.id⟩ with more | same
  · exact ⟨h.encrypts, by omega, fun unsaved => by omega⟩
  · exact ⟨h.encrypts, same ▸ le, same ▸ h.saved⟩

theorem Phase.Reads.leaves {phase : Phase K} (h : phase.Reads gcm s) (leaves : s.Leaves s') :
    phase.Reads gcm s' := by
  cases phase with
  | finding columns => trivial
  | turning column rows columns => exact fun row mem => (h row mem).leaves leaves

theorem Task.Knows.leaves {task : Task K} (h : task.Knows gcm s) (leaves : s.Leaves s') :
    task.Knows gcm s' := by
  cases task with
  | called request => trivial
  | rotating start pass phase =>
    obtain ⟨le, knows⟩ := h
    rw [Knows, leaves.starts]
    exact ⟨le, fun now => ⟨(knows now).1.leaves leaves, (knows now).2.leaves leaves⟩⟩
  | copying start stored place =>
    rw [Knows, leaves.starts]
    exact h

namespace Store

theorem Leaves.refl (s : Store K) : s.Leaves s :=
  ⟨rfl, rfl, fun _ _ there => .inr there, fun _ => .inr rfl⟩

theorem Leaves.last {s' : Store K} (leaves : s.Leaves s') (pass : Option Pass) :
    s.Leaves { s' with last := pass } :=
  ⟨leaves.starts, leaves.keys, leaves.stored, leaves.saved⟩

theorem leaves_setStored {place : Place} {stored : Option (Stored K)} {save : Save}
    (current : ∀ x ∈ stored, x.key = s.keys.current)
    (saved : (s.saved place).count < save.count ∨ save = s.saved place) :
    s.Leaves (s.setStored place stored save) where
  starts := rfl
  keys := rfl
  stored other x there := by
    by_cases same : other = place
    · subst same
      simp only [setStored, Function.update_self] at there
      exact .inl (current x there)
    · exact .inr (by simpa [setStored, same] using there)
  saved other := by
    by_cases same : other = place
    · subst same
      simpa [setStored] using saved
    · simp [setStored, same]

theorem leaves_addRow (table : Table) (id : ℕ) : s.Leaves (s.addRow table id) :=
  ⟨rfl, rfl, fun _ _ there => .inr there, fun _ => .inr rfl⟩

theorem leaves_deleteRow (table : Table) (id : ℕ) : s.Leaves (s.deleteRow table id) where
  starts := rfl
  keys := rfl
  stored place x there := by
    by_cases gone : place.column.table = table ∧ place.id = id
    · simp [deleteRow, gone] at there
    · exact .inr (by simpa [deleteRow, gone] using there)
  saved place := by
    by_cases gone : place.column.table = table ∧ place.id = id
    · simp [deleteRow, gone]
    · simp [deleteRow, gone]

/-!
## What the steps keep of the store

What is stored was encrypted from what was last saved; under a key that is not at hand any more, it
has not been touched.
-/

theorem Sound.empty (keys : Keys K) : (Store.empty keys).Sound gcm where
  housed place there := absurd rfl there
  encrypts place x there := by cases there
  kept place := rfl
  missing place x there := by cases there
  passed pass mem := by cases mem

theorem Sound.setStored {place : Place} {stored : Option (Stored K)} {save : Save}
    (h : s.Sound gcm) (row : place.id ∈ s.rows place.column.table)
    (encrypts : ∀ x ∈ stored, Encrypts gcm x.key x.value x.plaintext)
    (current : ∀ x ∈ stored, x.key = s.keys.current)
    (kept : stored.map Stored.plaintext = save.secret.filter (· ≠ ""))
    (saved : (s.saved place).count < save.count ∨ save = s.saved place) :
    (s.setStored place stored save).Sound gcm := by
  have at_place : ∀ {other x}, (s.setStored place stored save).stored other = some x →
      other = place ∧ x ∈ stored ∨ s.stored other = some x := by
    intro other x there
    by_cases same : other = place
    · subst same
      exact .inl ⟨rfl, by simpa [Store.setStored] using there⟩
    · exact .inr (by simpa [Store.setStored, same] using there)
  constructor
  · intro other there
    obtain ⟨x, there⟩ := Option.ne_none_iff_exists'.mp there
    rcases at_place there with ⟨rfl, _⟩ | was
    · exact row
    · exact h.housed other (by simp [was])
  · intro other x there
    rcases at_place there with ⟨rfl, new⟩ | was
    · exact encrypts x new
    · exact h.encrypts other x was
  · intro other
    by_cases same : other = place
    · subst same
      simpa [Store.setStored] using kept
    · simpa [Store.setStored, same] using h.kept other
  · intro other x there missing
    rcases at_place there with ⟨rfl, new⟩ | was
    · exact absurd (current x new) (Keys.ne_current missing)
    · exact h.missing other x was missing
  · intro pass mem
    exact (h.passed pass mem).leaves (leaves_setStored current saved)

theorem Sound.addRow (h : s.Sound gcm) (table : Table) (id : ℕ) : (s.addRow table id).Sound gcm where
  housed place there := by
    have row := h.housed place there
    by_cases same : place.column.table = table
    · subst same
      simp [Store.addRow, row]
    · simpa [Store.addRow, same] using row
  encrypts := h.encrypts
  kept := h.kept
  missing := h.missing
  passed pass mem := (h.passed pass mem).leaves (leaves_addRow table id)

theorem Sound.deleteRow (h : s.Sound gcm) (table : Table) (id : ℕ) :
    (s.deleteRow table id).Sound gcm := by
  have was : ∀ {place x}, (s.deleteRow table id).stored place = some x →
      ¬ (place.column.table = table ∧ place.id = id) ∧ s.stored place = some x := by
    intro place x there
    by_cases gone : place.column.table = table ∧ place.id = id
    · simp [Store.deleteRow, gone] at there
    · exact ⟨gone, by simpa [Store.deleteRow, gone] using there⟩
  constructor
  · intro place there
    obtain ⟨x, there⟩ := Option.ne_none_iff_exists'.mp there
    obtain ⟨stays, there⟩ := was there
    have row := h.housed place (by simp [there])
    by_cases same : place.column.table = table
    · subst same
      have other : place.id ≠ id := fun is => stays ⟨rfl, is⟩
      simp [Store.deleteRow, row, other]
    · simpa [Store.deleteRow, same] using row
  · exact fun place x there => h.encrypts place x (was there).2
  · intro place
    by_cases gone : place.column.table = table ∧ place.id = id
    · simp [Store.deleteRow, gone]
    · simpa [Store.deleteRow, gone] using h.kept place
  · exact fun place x there missing => h.missing place x (was there).2 missing
  · exact fun pass mem => (h.passed pass mem).leaves (leaves_deleteRow table id)

theorem Sound.startWith (h : s.Sound gcm) (keys : Keys K) : (s.startWith keys).Sound gcm := by
  have was : ∀ {place x}, (s.startWith keys).stored place = some x →
      x.original = x.value ∧ ∃ y, s.stored place = some y ∧ y.value = x.value ∧ y.key = x.key ∧
        y.plaintext = x.plaintext := by
    intro place x there
    obtain ⟨y, stored, rfl⟩ := Option.map_eq_some_iff.mp there
    exact ⟨rfl, y, stored, rfl, rfl, rfl⟩
  constructor
  · intro place there
    exact h.housed place fun none' => there (by simp [Store.startWith, none'])
  · intro place x there
    obtain ⟨_, y, there, value, key, plaintext⟩ := was there
    rw [← value, ← key, ← plaintext]
    exact h.encrypts place y there
  · intro place
    simpa [Store.startWith, Function.comp_def] using h.kept place
  · intro place x there _
    exact (was there).1.symm
  · intro pass mem
    cases mem

theorem Sound.write (h : s.Sound gcm) {place : Place} {stored : Option (Stored K)}
    {secret : Option String} (row : place.id ∈ s.rows place.column.table)
    (encrypts : ∀ x ∈ stored, Encrypts gcm x.key x.value x.plaintext)
    (current : ∀ x ∈ stored, x.key = s.keys.current)
    (kept : stored.map Stored.plaintext = secret.filter (· ≠ "")) :
    (s.write place stored secret).Sound gcm ∧ s.Leaves (s.write place stored secret) :=
  ⟨h.setStored row encrypts current kept (.inl (Nat.lt_succ_self _)),
    leaves_setStored current (.inl (Nat.lt_succ_self _))⟩

/-- A row that was not saved since it was read is written back with the secret it had. -/
theorem Sound.update (h : s.Sound gcm) {column : Column} {row : ReadRow K} {next : Payload}
    (mem : row.id ∈ s.rows column.table) (holds : row.Holds gcm s column)
    (unsaved : (s.saved ⟨column, row.id⟩).count = row.count)
    (encrypts : Encrypts gcm s.keys.current next row.stored.plaintext) :
    (s.update column row next).Sound gcm ∧ s.Leaves (s.update column row next) ∧
      ∀ x, (s.update column row next).stored ⟨column, row.id⟩ = some x →
        x.key = s.keys.current := by
  let x : Stored K :=
    { value := next
      key := s.keys.current
      plaintext := row.stored.plaintext
      original := ((s.stored ⟨column, row.id⟩).map Stored.original).getD next }
  have current : ∀ y ∈ some x, y.key = s.keys.current := by
    intro y is
    obtain rfl := Option.some.inj is
    rfl
  have encrypts' : ∀ y ∈ some x, Encrypts gcm y.key y.value y.plaintext := by
    intro y is
    obtain rfl := Option.some.inj is
    exact encrypts
  have kept : (some x).map Stored.plaintext =
      (s.saved ⟨column, row.id⟩).secret.filter (· ≠ "") := by
    simp [holds.saved unsaved, x, Option.filter, encrypts.1]
  refine ⟨h.setStored mem encrypts' current kept (.inr rfl),
    leaves_setStored current (.inr rfl), fun y there => ?_⟩
  simp only [Store.update, Store.setStored, Function.update_self] at there
  exact current y there

theorem Sound.copy (h : s.Sound gcm) {stored : Option (Stored K)} (place : Place)
    (encrypts : ∀ x ∈ stored, Encrypts gcm x.key x.value x.plaintext)
    (current : ∀ x ∈ stored, x.key = s.keys.current) :
    (s.copy stored place).Sound gcm ∧ s.Leaves (s.copy stored place) := by
  have copied : ∀ x ∈ stored.map fun stored => { stored with original := stored.value },
      Encrypts gcm x.key x.value x.plaintext ∧ x.key = s.keys.current := by
    intro x mem
    obtain ⟨y, read, rfl⟩ := Option.map_eq_some_iff.mp mem
    exact ⟨encrypts y read, current y read⟩
  have kept : (stored.map fun stored => { stored with original := stored.value }).map
      Stored.plaintext = (stored.map Stored.plaintext).filter (· ≠ "") := by
    cases stored with
    | none => rfl
    | some x => simp [Option.filter, (encrypts x rfl).1]
  simp only [Store.copy]
  split
  · next row => exact h.write row (fun x mem => (copied x mem).1) (fun x mem => (copied x mem).2) kept
  · split
    · next snapshot =>
      have row : place.id ∈ (s.addRow .bridgeJob place.id).rows place.column.table := by
        simp [Store.addRow, snapshot, Column.table]
      obtain ⟨sound, leaves⟩ := (h.addRow .bridgeJob place.id).write row
        (fun x mem => (copied x mem).1) (fun x mem => (copied x mem).2) kept
      exact ⟨sound, leaves.starts, leaves.keys, leaves.stored, leaves.saved⟩
    · exact ⟨h, .refl s⟩

end Store

/-!
## A pass

Page by page and row by row: what is behind the pass is moved or counted, what is ahead it will come
to.
-/

/-- A row that a column is found with holds what is stored there. -/
theorem mem_findMany {column : Column} {row : ReadRow K} :
    row ∈ s.findMany column ↔ row.id ∈ s.rows column.table ∧
      s.stored ⟨column, row.id⟩ = some row.stored ∧
        row.count = (s.saved ⟨column, row.id⟩).count := by
  simp only [Store.findMany, List.mem_filterMap, Option.map_eq_some_iff]
  constructor
  · rintro ⟨id, mem, x, there, rfl⟩
    exact ⟨mem, there, rfl⟩
  · rintro ⟨mem, there, count⟩
    exact ⟨row.id, mem, row.stored, there, by rw [← count]⟩

theorem holds_of_mem_findMany (sound : s.Sound gcm) {column : Column} {row : ReadRow K}
    (mem : row ∈ s.findMany column) : row.Holds gcm s column := by
  obtain ⟨_, there, count⟩ := mem_findMany.mp mem
  have encrypts := sound.encrypts _ _ there
  have kept := sound.kept ⟨column, row.id⟩
  rw [there, Option.map_some] at kept
  exact ⟨encrypts, Nat.le_of_eq count, fun _ => (Option.filter_eq_some_iff.mp kept.symm).1⟩

/-- The columns of a pass are all there are. -/
theorem mem_columns (column : Column) : column ∈ ENCRYPTED_COLUMNS ++ [.snapshotAuthEnc] := by
  cases column <;> decide

theorem Pass.accounts_begin (s : Store K) (previousKeys : ℕ) :
    (Pass.begin previousKeys).Accounts s
      (Phase.Ahead (.finding (ENCRYPTED_COLUMNS ++ [.snapshotAuthEnc]))) where
  count := rfl
  each place _ _ := .inr (.inr (mem_columns place.column))

theorem Pass.Accounts.countReencrypted {pass : Pass} {ahead : Place → Stored K → Prop}
    (h : pass.Accounts s ahead) : pass.countReencrypted.Accounts s ahead :=
  ⟨h.count, h.each⟩

theorem Pass.Accounts.ahead {pass : Pass} {ahead ahead' : Place → Stored K → Prop}
    (h : pass.Accounts s ahead)
    (past : ∀ place x, s.stored place = some x → ahead place x →
      x.key = s.keys.current ∨ (x.key ∉ s.keys ∧ place ∈ pass.unread) ∨ ahead' place x) :
    pass.Accounts s ahead' where
  count := h.count
  each place x there := by
    rcases h.each place x there with current | unread | was
    · exact .inl current
    · exact .inr (.inl unread)
    · exact past place x there was

/-- A column has been found: what is stored in it is in a row that was read. -/
theorem Pass.Accounts.found (sound : s.Sound gcm) {pass : Pass} {column : Column}
    {columns : List Column} (h : pass.Accounts s (Phase.Ahead (.finding (column :: columns)))) :
    pass.Accounts s (Phase.Ahead (.turning column (s.findMany column) columns)) := by
  refine h.ahead fun place x there was => .inr (.inr ?_)
  rcases List.mem_cons.mp was with is | later
  · subst is
    have read : { id := place.id, stored := x, count := (s.saved place).count } ∈
        s.findMany place.column :=
      mem_findMany.mpr ⟨sound.housed place (by simp [there]), there, rfl⟩
    exact .inr ⟨rfl, _, read, rfl, rfl⟩
  · exact .inl later

/-- A row has been turned, and what is in its place need not be ahead any more. -/
theorem Pass.Accounts.turned {pass : Pass} {column : Column} {row : ReadRow K}
    {rows : List (ReadRow K)} {columns : List Column}
    (h : pass.Accounts s (Phase.Ahead (.turning column (row :: rows) columns)))
    (past : s.stored ⟨column, row.id⟩ = some row.stored → row.stored.key = s.keys.current ∨
      row.stored.key ∉ s.keys ∧ ⟨column, row.id⟩ ∈ pass.unread) :
    pass.Accounts s (Phase.Ahead (.turning column rows columns)) := by
  refine h.ahead fun place x there was => ?_
  rcases was with later | ⟨is, row', mem, id, stored⟩
  · exact .inr (.inr (.inl later))
  · rcases List.mem_cons.mp mem with rfl | rest
    · subst is stored
      rw [id] at past
      exact (past there).imp_right .inl
    · exact .inr (.inr (.inr ⟨is, row', rest, id, stored⟩))

theorem Pass.Accounts.countUnreadable {pass : Pass} {ahead : Place → Stored K → Prop}
    (h : pass.Accounts s ahead) (place : Place) : (pass.countUnreadable place).Accounts s ahead where
  count := by simp [Pass.countUnreadable, h.count]
  each other x there := by
    rcases h.each other x there with current | ⟨missing, mem⟩ | was
    · exact .inl current
    · exact .inr (.inl ⟨missing, List.mem_append_left _ mem⟩)
    · exact .inr (.inr was)

theorem knows_readFor (sound : s.Sound gcm) {source place : Place} {task : Task K}
    (h : s.readFor source place = some task) : task.Knows gcm s := by
  rw [Store.readFor] at h
  split at h
  · obtain rfl := Option.some.inj h
    exact ⟨Nat.le_refl _, fun x mem => sound.encrypts source x mem⟩
  · cases h

/-- **What the world's step keeps**: a start is the end of every task. -/
theorem world_keeps (sound : s.Sound gcm) {e : World K} (moved : world gcm s e = some s') :
    s'.Sound gcm ∧ ∀ task : Task K, task.Knows gcm s → task.Knows gcm s' := by
  cases e with
  | create table id =>
    simp only [world] at moved
    split at moved
    · cases moved
    · obtain rfl := Option.some.inj moved
      exact ⟨sound.addRow table id, fun task knows => knows.leaves (Store.leaves_addRow table id)⟩
  | delete table id =>
    obtain rfl := Option.some.inj moved
    exact ⟨sound.deleteRow table id,
      fun task knows => knows.leaves (Store.leaves_deleteRow table id)⟩
  | save place secret iv =>
    simp only [world] at moved
    split at moved
    · next row =>
      obtain rfl := Option.some.inj moved
      have kept : (storedOf gcm s secret iv).map Stored.plaintext =
          (some secret).filter (· ≠ "") := by
        by_cases empty : secret = ""
        · simp [storedOf, empty, Option.filter]
        · simp [storedOf, empty, Option.filter]
      have new : ∀ x ∈ storedOf gcm s secret iv,
          Encrypts gcm x.key x.value x.plaintext ∧ x.key = s.keys.current := by
        intro x mem
        by_cases empty : secret = ""
        · simp [storedOf, empty] at mem
        · simp only [storedOf, if_neg empty, Option.mem_def, Option.some.injEq] at mem
          subst mem
          exact ⟨⟨empty, iv, rfl⟩, rfl⟩
      obtain ⟨sound', leaves⟩ := sound.write row.1 (fun x mem => (new x mem).1)
        (fun x mem => (new x mem).2) kept
      exact ⟨sound', fun task knows => knows.leaves leaves⟩
    · cases moved
  | start keys =>
    obtain rfl := Option.some.inj moved
    refine ⟨sound.startWith keys, fun task knows => ?_⟩
    cases task with
    | called request => trivial
    | rotating start pass phase =>
      have le := knows.1
      refine ⟨Nat.le_succ_of_le le, fun now => ?_⟩
      simp only [Store.startWith] at now
      omega
    | copying start stored place => exact ⟨Nat.le_succ_of_le knows.1, knows.2⟩

variable [DecidableEq K]

/-- **A turn of a row.** -/
theorem turnRow_keeps (lawful : gcm.Lawful) (sound : s.Sound gcm) {start : ℕ} {pass : Pass}
    {column : Column} {row : ReadRow K} {rows : List (ReadRow K)} {columns : List Column}
    {answer : Answer}
    (accounts : pass.Accounts s (Phase.Ahead (.turning column (row :: rows) columns)))
    (reads : Phase.Reads gcm s (.turning column (row :: rows) columns))
    (undisturbed :
      Task.Undisturbed s (.rotating start pass (.turning column (row :: rows) columns)) answer)
    {next : Option (Task K)}
    (turned : turnRow gcm s pass column row rows columns answer = (s', next)) :
    s'.Sound gcm ∧ s.Leaves s' ∧ ∀ n, next = some n → n.Knows gcm s' := by
  have holds := reads row List.mem_cons_self
  have rest : Phase.Reads gcm s (.turning column rows columns) :=
    fun row mem => reads row (List.mem_cons_of_mem _ mem)
  -- nothing is written
  have goesOn : ∀ {pass' : Pass}, pass'.Accounts s (Phase.Ahead (.turning column rows columns)) →
      s.Sound gcm ∧ s.Leaves s ∧
        ∀ n : Task K, some (.rotating s.starts pass' (.turning column rows columns)) = some n →
          n.Knows gcm s := by
    intro pass' accounts'
    refine ⟨sound, .refl s, fun n same => ?_⟩
    obtain rfl := Option.some.inj same
    exact ⟨Nat.le_refl _, fun _ => ⟨accounts', rest⟩⟩
  rw [turnRow, reencrypt_encrypts lawful holds.encrypts] at turned
  by_cases current : row.stored.key = s.keys.current
  · rw [if_pos current] at turned
    obtain ⟨rfl, rfl⟩ := Prod.mk.inj turned
    exact goesOn (accounts.turned fun _ => .inl current)
  · rw [if_neg current] at turned
    by_cases mem : row.stored.key ∈ s.keys
    · rw [if_pos mem] at turned
      have undisturbed := undisturbed ⟨mem, current⟩
      simp only at turned
      split at turned
      · next refused =>
        obtain ⟨rfl, rfl⟩ := Prod.mk.inj turned
        split
        · next snapshot =>
          refine goesOn ?_
          refine accounts.countReencrypted.turned fun there => ?_
          -- the row is there, so it is the database that refused the update
          have row := sound.housed ⟨column, row.id⟩ (by simp [there])
          have fine := (undisturbed row).2 snapshot
          simp [fine, row] at refused
        · exact ⟨sound, .refl s, fun n ended => by cases ended⟩
      · next written =>
        obtain ⟨rfl, rfl⟩ := Prod.mk.inj turned
        have row' : row.id ∈ s.rows column.table := by
          by_contra gone
          exact written (.inr gone)
        obtain ⟨sound', leaves, current'⟩ := sound.update row' holds (undisturbed row').1
          ⟨holds.encrypts.1, answer.iv, rfl⟩
        refine ⟨sound', leaves, fun n same => ?_⟩
        obtain rfl := Option.some.inj same
        refine ⟨Nat.le_refl _, fun _ => ⟨?_, Phase.Reads.leaves rest leaves⟩⟩
        exact (accounts.countReencrypted.leaves leaves).turned fun there => .inl (current' _ there)
    · rw [if_neg mem] at turned
      obtain ⟨rfl, rfl⟩ := Prod.mk.inj turned
      refine goesOn ((accounts.countUnreadable ⟨column, row.id⟩).turned fun _ => ?_)
      exact .inr ⟨mem, List.mem_append_right _ (List.mem_singleton_self _)⟩

/-- A pass begins with every column before it. -/
theorem knows_rotate (gcm : Gcm K) (s : Store K) : (rotate s).Knows gcm s :=
  ⟨Nat.le_refl _, fun _ => ⟨Pass.accounts_begin s _, trivial⟩⟩

/-- **What a task's step keeps.** -/
theorem resume_keeps (lawful : gcm.Lawful) (sound : s.Sound gcm) {task : Task K} {answer : Answer}
    {next : Option (Task K)} (knows : task.Knows gcm s) (undisturbed : task.Undisturbed s answer)
    (resumed : resume gcm s task answer = some (s', next)) :
    s'.Sound gcm ∧ s.Leaves s' ∧ ∀ n, next = some n → n.Knows gcm s' := by
  have quiet : ∀ {next : Option (Task K)}, (∀ n, next = some n → n.Knows gcm s) →
      s.Sound gcm ∧ s.Leaves s ∧ ∀ n, next = some n → n.Knows gcm s :=
    fun own => ⟨sound, .refl s, own⟩
  cases task with
  | called request =>
    cases request with
    | onApplicationBootstrap =>
      obtain ⟨rfl, rfl⟩ := Prod.mk.inj (Option.some.inj resumed)
      refine quiet fun n same => ?_
      split at same
      · cases same
      · obtain rfl := Option.some.inj same
        exact knows_rotate gcm s
    | rotate =>
      obtain ⟨rfl, rfl⟩ := Prod.mk.inj (Option.some.inj resumed)
      refine quiet fun n same => ?_
      obtain rfl := Option.some.inj same
      exact knows_rotate gcm s
    | keep place =>
      obtain ⟨rfl, rfl⟩ := Prod.mk.inj (Option.some.inj resumed)
      exact quiet fun n same => knows_readFor sound same
    | snapshot bridge job =>
      obtain ⟨rfl, rfl⟩ := Prod.mk.inj (Option.some.inj resumed)
      exact quiet fun n same => knows_readFor sound same
  | rotating start pass phase =>
    simp only [resume] at resumed
    split at resumed
    · cases resumed
    · next now =>
      obtain rfl := Decidable.not_not.mp now
      obtain ⟨accounts, reads⟩ := knows.2 rfl
      cases phase with
      | finding columns =>
        cases columns with
        | nil =>
          obtain ⟨rfl, rfl⟩ := Prod.mk.inj (Option.some.inj resumed)
          have leaves := (Store.Leaves.refl s).last (some pass)
          refine ⟨⟨sound.housed, sound.encrypts, sound.kept, sound.missing, ?_⟩, leaves,
            fun n ended => by cases ended⟩
          intro done is
          obtain rfl := Option.some.inj is
          refine (accounts.ahead fun place x there ahead => ?_).leaves leaves
          cases ahead
        | cons column columns =>
          obtain ⟨rfl, rfl⟩ := Prod.mk.inj (Option.some.inj resumed)
          refine quiet fun n same => ?_
          obtain rfl := Option.some.inj same
          exact ⟨Nat.le_refl _, fun _ =>
            ⟨accounts.found sound, fun row mem => holds_of_mem_findMany sound mem⟩⟩
      | turning column rows columns =>
        cases rows with
        | nil =>
          obtain ⟨rfl, rfl⟩ := Prod.mk.inj (Option.some.inj resumed)
          refine quiet fun n same => ?_
          obtain rfl := Option.some.inj same
          refine ⟨Nat.le_refl _, fun _ => ⟨accounts.ahead fun place x there ahead => ?_, trivial⟩⟩
          rcases ahead with later | ⟨_, row, mem, _⟩
          · exact .inr (.inr later)
          · cases mem
        | cons row rows =>
          exact turnRow_keeps lawful sound accounts reads undisturbed (Option.some.inj resumed)
  | copying start stored place =>
    simp only [resume] at resumed
    split at resumed
    · cases resumed
    · obtain ⟨rfl, rfl⟩ := Prod.mk.inj (Option.some.inj resumed)
      obtain ⟨sound', leaves⟩ := sound.copy place knows.2 undisturbed
      exact ⟨sound', leaves, fun n ended => by cases ended⟩

theorem keepsSecrets (lawful : gcm.Lawful) :
    (service gcm).Keeps MeetsRotation (Store.Sound gcm) (Task.Knows gcm) where
  begins _ _ := trivial
  goes allowed holds running resumed := by
    obtain ⟨sound, _, own⟩ := resume_keeps lawful holds.shared (holds.tasks _ _ running)
      (allowed _ running) resumed
    exact ⟨sound, own⟩
  stays allowed holds running resumed _ other := by
    obtain ⟨_, leaves, _⟩ := resume_keeps lawful holds.shared (holds.tasks _ _ running)
      (allowed _ running) resumed
    exact (holds.tasks _ _ other).leaves leaves
  world _ holds moved := by
    obtain ⟨sound, stay⟩ := world_keeps holds.shared moved
    exact ⟨sound, fun t task running => stay task (holds.tasks t task running)⟩

/-! ## What a change of key preserves -/

structure Store.Preserved (gcm : Gcm K) (s : Store K) : Prop where
  /-- nothing is stored where nothing was saved, or the empty string was -/
  kept : ∀ place, s.stored place = none ↔
    (s.saved place).secret = none ∨ (s.saved place).secret = some ""
  /-- a secret whose key is there is read as it was last saved -/
  read : ∀ place x, s.stored place = some x → x.key ∈ s.keys →
    decrypt gcm s.keys x.value = (s.saved place).secret
  /-- after a rotation there is nothing left for another to do -/
  settled : s.last.isSome → ∀ place x, s.stored place = some x → ∀ iv next,
    reencrypt gcm s.keys iv x.value ≠ some (some next)
  /-- a secret whose key is missing is left as it was, and reported -/
  missing : ∀ place x, s.stored place = some x → x.key ∉ s.keys →
    x.value = x.original ∧ ∀ pass ∈ s.last,
      place ∈ pass.unread ∧ pass.report.unreadable = pass.unread.length

theorem Store.Sound.preserved (lawful : gcm.Lawful) (sound : s.Sound gcm) : s.Preserved gcm := by
  constructor
  · intro place
    have kept := sound.kept place
    cases there : s.stored place with
    | none =>
      rw [there] at kept
      cases secret : (s.saved place).secret with
      | none => simp
      | some text => simpa [secret, Option.filter] using kept
    | some x =>
      rw [there, Option.map_some] at kept
      obtain ⟨secret, _⟩ := Option.filter_eq_some_iff.mp kept.symm
      simp [secret, (sound.encrypts place x there).1]
  · intro place x there mem
    have kept := sound.kept place
    rw [there, Option.map_some] at kept
    rw [decrypt_encrypts lawful (sound.encrypts place x there) mem]
    exact (Option.filter_eq_some_iff.mp kept.symm).1.symm
  · intro done place x there iv next
    obtain ⟨pass, last⟩ := Option.isSome_iff_exists.mp done
    rw [reencrypt_encrypts lawful (sound.encrypts place x there)]
    rcases (sound.passed pass last).each place x there with current | ⟨missing, _⟩ | none'
    · simp [current]
    · rw [if_neg (Keys.ne_current missing), if_neg missing]
      simp
    · exact none'.elim
  · intro place x there missing
    refine ⟨sound.missing place x there missing, fun pass last => ?_⟩
    have accounts := sound.passed pass last
    rcases accounts.each place x there with current | ⟨_, mem⟩ | none'
    · exact absurd current (Keys.ne_current missing)
    · exact ⟨mem, accounts.count⟩
    · exact none'.elim

/-- **A change of key loses no secret**, whatever starts, interruptions and requests there are, as
long as no secret is saved between the read and the write of its row. -/
theorem preserved_of_meetsRotation (lawful : gcm.Lawful) {keys : Keys K}
    {es : List (TaskEvent Request Answer (World K))} {w : Tasks (Store K) (Task K)}
    (run : Run (service gcm).step MeetsRotation (Tasks.idle (Store.empty keys)) es w) :
    w.shared.Preserved gcm :=
  ((keepsSecrets lawful).run run (.idle (.empty keys))).shared.preserved lawful

/-! ## Two runs -/

/-- A password is saved under one key, and the service is started with another. -/
def keyChanged : List (TaskEvent Request Answer (World (BitVec 8))) :=
  [.world (.create .connection 0), .world (.save ⟨.passwordEnc, 0⟩ "old" zeroIv),
    .world (.start { current := 2, configured := [1] }), .begin 0 .onApplicationBootstrap]

/-- The whole pass runs. -/
theorem one_secret_moved : ∃ w,
    Run (service openGcm).step MeetsRotation
      (Tasks.idle (Store.empty { current := 1, configured := [] }))
      (keyChanged ++ List.replicate 17 (.go 0 { iv := zeroIv, fails := false })) w ∧
    w.shared.last.map Pass.report = some { previousKeys := 1, reencrypted := 1, unreadable := 0 } ∧
    w.shared.Preserved openGcm := by
  have runs : ((runEvents (guarded (service openGcm).step MeetsRotation)
      (Tasks.idle (Store.empty { current := 1, configured := [] }))
      (keyChanged ++ List.replicate 17 (.go 0 { iv := zeroIv, fails := false }))).map
      fun w => w.shared.last.map Pass.report) =
      some (some { previousKeys := 1, reencrypted := 1, unreadable := 0 }) := by
    decide +kernel
  obtain ⟨w, ends, report⟩ := Option.map_eq_some_iff.mp runs
  have run := run_iff_runEvents.mpr ends
  exact ⟨w, run, report, preserved_of_meetsRotation openGcm_lawful run⟩

/-- The password is saved again while its row waits to be written back: the pass writes the older
one. -/
theorem older_secret_written_back : ∃ es w,
    Run (service openGcm).step anyStep
      (Tasks.idle (Store.empty { current := 1, configured := [] })) es w ∧
    ¬ w.shared.Preserved openGcm := by
  let es := keyChanged ++
    [.go 0 { iv := zeroIv, fails := false }, .go 0 { iv := zeroIv, fails := false },
      .world (.save ⟨.passwordEnc, 0⟩ "new" zeroIv), .go 0 { iv := zeroIv, fails := false }]
  have runs : ((runEvents (service openGcm).step
      (Tasks.idle (Store.empty { current := 1, configured := [] })) es).map fun w =>
        ((w.shared.stored ⟨.passwordEnc, 0⟩).map fun x =>
          (decide (x.key ∈ w.shared.keys), decrypt openGcm w.shared.keys x.value),
        (w.shared.saved ⟨.passwordEnc, 0⟩).secret)) =
      some (some (true, some "old"), some "new") := by
    decide +kernel
  obtain ⟨w, ends, reads⟩ := Option.map_eq_some_iff.mp runs
  obtain ⟨stored, saved⟩ := Prod.mk.inj reads
  obtain ⟨x, there, is⟩ := Option.map_eq_some_iff.mp stored
  obtain ⟨mem, old⟩ := Prod.mk.inj is
  refine ⟨es, w, run_of_eval ends, fun preserved => ?_⟩
  have new := preserved.read _ x there (of_decide_eq_true mem)
  rw [old, saved] at new
  exact absurd new (by decide)

end Syncle.Secrets
