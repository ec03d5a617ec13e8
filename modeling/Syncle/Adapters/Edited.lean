import Syncle.Adapters.Pool

/-!
# An operation runs on its connection as it was last saved

The row is read before the pool is looked at, an edit saves first and evicts afterwards, and opens
are shared by key alone. What is asked for is that a call joins no open made from an older edit than
the row it has read, and that no edit is saved while a jump host's key is being pinned
(`MeetsEdits`): the pin writes back the `updatedAt` and the ssh block it has read.
-/

namespace Syncle.Adapters

open Lib

namespace Pool

/-- A configuration is an edit's as a whole, and that edit was saved. -/
structure Known (p : Pool) (id : ℕ) (config : ConnectionConfig) : Prop where
  updatedAt : config.updatedAt = config.edit
  sshEdit : config.sshEdit = config.edit
  saved : ∃ s ∈ p.saves, s.id = id ∧ s.edit = config.edit ∧ s.readOnly = config.readOnly

/-- What an open makes is of the call's connection, from what was saved when the call began or from
a later edit. -/
structure HandedFrom (p : Pool) (o : ℕ) (call : Call) : Prop where
  started : o < p.started
  id : (p.opens o).key.id = call.id
  begun : call.begun ≤ (p.opens o).config.edit

/-- Some edit since then has not made the connection read-only. -/
def Writable (p : Pool) (call : Call) : Prop :=
  ∃ s ∈ p.saves, s.id = call.id ∧ call.begun ≤ s.edit ∧ s.readOnly = false

structure Edited (p : Pool) : Prop where
  rows : ∀ id config, p.rows id = some config → p.Known id config ∧ config.edit = p.lastSaved id
  opens : ∀ o < p.started, p.Known (p.opens o).key.id (p.opens o).config
  entries : ∀ e ∈ p.entries, e.opened < p.started ∧ (p.opens e.opened).key = e.key ∧
    e.revision.1 = (p.opens e.opened).config.updatedAt
  pending : ∀ q ∈ p.pending, q.2 < p.started ∧ (p.opens q.2).key = q.1
  reached : ∀ r ∈ p.reached, r.method ∈ WRITING_METHODS → p.Writable r.call

/-- What every step keeps: what was saved, and what the opens are made from. -/
structure Grows (p p' : Pool) : Prop where
  saves : ∀ s ∈ p.saves, s ∈ p'.saves
  started : p.started ≤ p'.started
  opens : ∀ o < p.started,
    (p'.opens o).key = (p.opens o).key ∧ (p'.opens o).config = (p.opens o).config

variable {p p' : Pool}

theorem Known.grows {id : ℕ} {config : ConnectionConfig} (h : p.Known id config)
    (grows : Grows p p') : p'.Known id config where
  updatedAt := h.updatedAt
  sshEdit := h.sshEdit
  saved := by
    obtain ⟨s, mem, is⟩ := h.saved
    exact ⟨s, grows.saves s mem, is⟩

theorem HandedFrom.grows {o : ℕ} {call : Call} (h : p.HandedFrom o call) (grows : Grows p p') :
    p'.HandedFrom o call := by
  obtain ⟨key, config⟩ := grows.opens o h.started
  exact ⟨Nat.lt_of_lt_of_le h.started grows.started, key ▸ h.id, config ▸ h.begun⟩

theorem Writable.grows {call : Call} (h : p.Writable call) (grows : Grows p p') :
    p'.Writable call := by
  obtain ⟨s, mem, is⟩ := h
  exact ⟨s, grows.saves s mem, is⟩

/-!
## Steps that save nothing and start nothing

Most steps: they write an open's own record, or take entries out. Whatever a configuration was made
from stays what it was.
-/

/-- Nothing is saved and nothing is started. -/
structure Quiet (p p' : Pool) : Prop where
  rows : p'.rows = p.rows
  saves : p'.saves = p.saves
  reached : p'.reached = p.reached
  started : p'.started = p.started
  opens : ∀ o, (p'.opens o).key = (p.opens o).key ∧ (p'.opens o).config = (p.opens o).config
  /-- an entry was there, or is that of an open that has finished -/
  entries : ∀ e ∈ p'.entries,
    (∃ was ∈ p.entries, e.opened = was.opened ∧ e.key = was.key ∧ e.revision = was.revision) ∨
      e.opened < p.started ∧ (p.opens e.opened).key = e.key ∧
        e.revision.1 = (p.opens e.opened).config.updatedAt
  pending : ∀ q ∈ p'.pending, q ∈ p.pending

theorem Quiet.grows (h : Quiet p p') : Grows p p' :=
  ⟨fun _ mem => h.saves ▸ mem, h.started ▸ Nat.le_refl _, fun o _ => h.opens o⟩

theorem Edited.quiet (h : p.Edited) (quiet : Quiet p p') : p'.Edited where
  rows id config row := by
    obtain ⟨known, last⟩ := h.rows id config (quiet.rows ▸ row)
    refine ⟨known.grows quiet.grows, ?_⟩
    rw [last, lastSaved, lastSaved, quiet.saves]
  opens o lt := by
    obtain ⟨key, config⟩ := quiet.opens o
    rw [key, config]
    exact (h.opens o (quiet.started ▸ lt)).grows quiet.grows
  entries e mem := by
    obtain ⟨key, config⟩ := quiet.opens e.opened
    rw [key, config, quiet.started]
    rcases quiet.entries e mem with ⟨was, mem, opened, key', revision⟩ | new
    · rw [opened, key', revision]
      exact h.entries was mem
    · exact new
  pending q mem := by
    rw [quiet.started, (quiet.opens q.2).1]
    exact h.pending q (quiet.pending q mem)
  reached r mem writes := (h.reached r (quiet.reached ▸ mem) writes).grows quiet.grows

theorem Quiet.refl (p : Pool) : Quiet p p where
  rows := rfl
  saves := rfl
  reached := rfl
  started := rfl
  opens _ := ⟨rfl, rfl⟩
  entries e mem := .inl ⟨e, mem, rfl, rfl, rfl⟩
  pending _ mem := mem

theorem Quiet.trans {p'' : Pool} (h : Quiet p p') (h' : Quiet p' p'') : Quiet p p'' where
  rows := h'.rows.trans h.rows
  saves := h'.saves.trans h.saves
  reached := h'.reached.trans h.reached
  started := h'.started.trans h.started
  opens o := ⟨(h'.opens o).1.trans (h.opens o).1, (h'.opens o).2.trans (h.opens o).2⟩
  entries e mem := by
    rcases h'.entries e mem with ⟨was, mem, opened, key, revision⟩ | ⟨lt, key, revision⟩
    · rcases h.entries was mem with ⟨first, mem, opened', key', revision'⟩ | new
      · exact .inl ⟨first, mem, opened.trans opened', key.trans key', revision.trans revision'⟩
      · rw [opened, key, revision]
        exact .inr new
    · rw [h.started, (h.opens e.opened).1, (h.opens e.opened).2] at *
      exact .inr ⟨lt, key, revision⟩
  pending q mem := h.pending q (h'.pending q mem)

theorem quiet_setOpened {o : ℕ} {opened : Opened} (key : opened.key = (p.opens o).key)
    (config : opened.config = (p.opens o).config) : Quiet p (p.setOpened o opened) where
  rows := rfl
  saves := rfl
  reached := rfl
  started := rfl
  opens o' := by
    by_cases same : o' = o
    · subst same
      simp [setOpened, key, config]
    · simp [setOpened, same]
  entries e mem := .inl ⟨e, mem, rfl, rfl, rfl⟩
  pending _ mem := mem

theorem quiet_closeEntries (which : Entry → Bool) (by_ : Closer) :
    Quiet p (p.closeEntries which by_) where
  rows := rfl
  saves := rfl
  reached := rfl
  started := rfl
  opens o := by
    simp only [closeEntries]
    split <;> exact ⟨rfl, rfl⟩
  entries e mem := .inl ⟨e, (List.mem_filter.mp mem).1, rfl, rfl, rfl⟩
  pending _ mem := mem

theorem quiet_settle (o : ℕ) (ok : Bool) : Quiet p (p.settle o ok) := by
  have quiet : Quiet p (p.setOpened o { p.opens o with ended := some ok }) :=
    quiet_setOpened rfl rfl
  exact { quiet with pending := fun q mem => (List.mem_filter.mp mem).1 }

theorem quiet_finish {o : ℕ} (started : o < p.started) : Quiet p (p.finish o) := by
  have quiet : Quiet p (p.setOpened o { p.opens o with listens := true, ended := some true }) :=
    quiet_setOpened rfl rfl
  refine { quiet with
    entries := fun e mem => ?_
    pending := fun q mem => (List.mem_filter.mp mem).1 }
  rcases List.mem_append.mp mem with mem | mem
  · exact .inl ⟨e, (List.mem_filter.mp mem).1, rfl, rfl, rfl⟩
  · obtain rfl := List.mem_singleton.mp mem
    exact .inr ⟨started, rfl, rfl⟩

/-!
## Steps that do

A save, a pin and a new open, one lemma each. A pin is the step that could bring back an older edit.
-/

theorem lastSaved_save (p : Pool) (id id' : ℕ) (input : ConnectionInput) :
    (p.save id input).lastSaved id' = if id' = id then p.edits + 1 else p.lastSaved id' := by
  by_cases same : id' = id
  · simp [lastSaved, save, same]
  · simp [lastSaved, save, same, Ne.symm same]

theorem grows_save (p : Pool) (id : ℕ) (input : ConnectionInput) : Grows p (p.save id input) :=
  ⟨fun _ mem => List.mem_append_left _ mem, Nat.le_refl _, fun _ _ => ⟨rfl, rfl⟩⟩

theorem Edited.save (h : p.Edited) (id : ℕ) (input : ConnectionInput) :
    (p.save id input).Edited where
  rows id' config row := by
    rw [lastSaved_save]
    by_cases same : id' = id
    · subst same
      have made : some ({ input with
          updatedAt := p.edits + 1, edit := p.edits + 1, sshEdit := p.edits + 1 } :
            ConnectionConfig) = some config := by
        simpa [Pool.save] using row
      obtain rfl := Option.some.inj made
      refine ⟨⟨rfl, rfl, ?_⟩, by simp⟩
      exact ⟨_, List.mem_append_right _ (List.mem_singleton.mpr rfl), rfl, rfl, rfl⟩
    · have was : p.rows id' = some config := by simpa [Pool.save, same] using row
      obtain ⟨known, last⟩ := h.rows id' config was
      rw [if_neg same]
      exact ⟨known.grows (grows_save p id input), last⟩
  opens o lt := (h.opens o lt).grows (grows_save p id input)
  entries := h.entries
  pending := h.pending
  reached r mem writes := (h.reached r mem writes).grows (grows_save p id input)

theorem grows_pin (p : Pool) (id : ℕ) (read : ConnectionConfig) (hostKey : String) :
    Grows p (p.pin id read hostKey) :=
  ⟨fun _ mem => mem, Nat.le_refl _, fun _ _ => ⟨rfl, rfl⟩⟩

/-- A pin, where no edit was saved since it read the row. -/
theorem Edited.pin (h : p.Edited) {id : ℕ} {read : ConnectionConfig} (known : p.Known id read)
    (still : ∀ row ∈ p.rows id, row.edit = read.edit) (hostKey : String) :
    (p.pin id read hostKey).Edited where
  rows id' config row := by
    by_cases same : id' = id
    · subst same
      have pinned : (p.rows id').map (fun row => ({ row with
          ssh := read.ssh.map fun ssh => { ssh with hostKey := some hostKey }
          updatedAt := read.updatedAt
          sshEdit := read.sshEdit } : ConnectionConfig)) = some config := by
        simpa [Pool.pin] using row
      obtain ⟨was, stored, rfl⟩ := Option.map_eq_some_iff.mp pinned
      obtain ⟨ofEdit, last⟩ := h.rows id' was stored
      have edit := still was stored
      refine ⟨⟨known.updatedAt.trans edit.symm, known.sshEdit.trans edit.symm, ?_⟩, last⟩
      exact ofEdit.saved
    · obtain ⟨ofEdit, last⟩ := h.rows id' config (by simpa [Pool.pin, same] using row)
      exact ⟨ofEdit.grows (grows_pin p id read hostKey), last⟩
  opens o lt := (h.opens o lt).grows (grows_pin p id read hostKey)
  entries := h.entries
  pending := h.pending
  reached r mem writes := (h.reached r mem writes).grows (grows_pin p id read hostKey)

theorem grows_invoke (p : Pool) (o : ℕ) (call : Call) (method : Method) (has : Bool) :
    Grows p (p.invoke o call method has) := by
  rcases invoke_cases p o call method has with same | ⟨_, reached⟩
  · rw [same]
    exact (Quiet.refl p).grows
  · rw [reached]
    exact ⟨fun _ mem => mem, Nat.le_refl _, fun _ _ => ⟨rfl, rfl⟩⟩

/-- What an operation calls, on an adapter made from what was saved when it began or later. -/
theorem Edited.invoke (h : p.Edited) {o : ℕ} {call : Call} (handed : p.HandedFrom o call)
    (method : Method) (has : Bool) : (p.invoke o call method has).Edited := by
  have grows := grows_invoke p o call method has
  rcases invoke_cases p o call method has with same | ⟨writable, reached⟩
  · rwa [same]
  · rw [reached] at grows ⊢
    constructor
    · intro id config row
      obtain ⟨known, last⟩ := h.rows id config row
      exact ⟨known.grows grows, last⟩
    · exact fun o lt => (h.opens o lt).grows grows
    · exact h.entries
    · exact h.pending
    · intro r mem writes
      rcases List.mem_append.mp mem with was | mem
      · exact (h.reached r was writes).grows grows
      · obtain rfl := List.mem_singleton.mp mem
        obtain ⟨s, mem, id, edit, readOnly⟩ := (h.opens o handed.started).saved
        exact ⟨s, mem, id.trans handed.id, edit ▸ handed.begun, readOnly.trans (writable writes)⟩

theorem grows_start (p : Pool) (key : Key) (config : ConnectionConfig) (cap : ℕ) :
    Grows p (p.start key config cap).1 where
  saves _ mem := mem
  started := Nat.le_succ _
  opens o lt := by
    have ne : o ≠ p.started := Nat.ne_of_lt lt
    simpa [start, setOpened, ne] using
      (quiet_closeEntries (fun e : Entry => e.key = key) Closer.reopen (p := p)).opens o

theorem start_opened (p : Pool) (key : Key) (config : ConnectionConfig) (cap : ℕ) :
    ((p.start key config cap).1.opens p.started).key = key ∧
      ((p.start key config cap).1.opens p.started).config = config := by
  simp [start, setOpened]

theorem Edited.start (h : p.Edited) {key : Key} {config : ConnectionConfig}
    (known : p.Known key.id config) (cap : ℕ) : (p.start key config cap).1.Edited := by
  have grows := grows_start p key config cap
  obtain ⟨newKey, newConfig⟩ := start_opened p key config cap
  constructor
  · intro id config' row
    obtain ⟨known', last⟩ := h.rows id config' row
    exact ⟨known'.grows grows, last⟩
  · intro o lt
    rcases Nat.lt_succ_iff_lt_or_eq.mp lt with was | rfl
    · obtain ⟨key', config'⟩ := grows.opens o was
      rw [key', config']
      exact (h.opens o was).grows grows
    · rw [newKey, newConfig]
      exact known.grows grows
  · intro e mem
    obtain ⟨lt, key', revision⟩ := h.entries e (List.mem_filter.mp mem).1
    obtain ⟨sameKey, sameConfig⟩ := grows.opens e.opened lt
    exact ⟨Nat.lt_succ_of_lt lt, sameKey.trans key', sameConfig ▸ revision⟩
  · intro q mem
    rcases List.mem_append.mp mem with was | mem
    · obtain ⟨lt, key'⟩ := h.pending q was
      exact ⟨Nat.lt_succ_of_lt lt, (grows.opens q.2 lt).1.trans key'⟩
    · obtain rfl := List.mem_singleton.mp mem
      exact ⟨Nat.lt_succ_self _, newKey⟩
  · intro r mem writes
    exact (h.reached r mem writes).grows grows

/-!
## Calls

What a call has in hand is from its own time or later: the row it has read, the open it waits for, the
adapter it was handed.
-/

/-- A call joins no open made from an older edit than the row it has read, and no edit is saved
between a pin's read of the row and its write. -/
def MeetsEdits (p : Pool) : PoolTask → PoolAnswer → Prop
  | .looking call database config, .looks setting =>
    p.match_ (keyOf call database config) config (config.queryCap setting) = none →
      ∀ o ∈ p.inFlight (keyOf call database config), config.edit ≤ (p.opens o).config.edit
  | .opening o _ (.pinWriting _ read), .did ok =>
    ok = true → ∀ row ∈ p.rows (p.opens o).key.id, row.edit = read.edit
  | _, _ => True

instance (p : Pool) (task : PoolTask) (answer : PoolAnswer) :
    Decidable (p.MeetsEdits task answer) := by
  unfold MeetsEdits
  split <;> infer_instance

/-- What a call goes by. -/
def KnowsEdits (p : Pool) : PoolTask → Prop
  | .looking call _ config => p.Known call.id config ∧ call.begun ≤ config.edit
  | .waiting o call | .running o call _ => p.HandedFrom o call
  | .opening o call (.pinWriting _ read) =>
    p.HandedFrom o call ∧ p.Known (p.opens o).key.id read
  | .opening o call _ => p.HandedFrom o call
  | .resolving _ _ | .saving _ _ | .toEvict _ | .evicting _ _ => True

theorem KnowsEdits.handed {o : ℕ} {call : Call} {at_ : Opening}
    (h : p.KnowsEdits (.opening o call at_)) : p.HandedFrom o call := by
  cases at_ with
  | pinWriting hostKey read => exact h.1
  | _ => exact h

theorem KnowsEdits.grows {task : PoolTask} (h : p.KnowsEdits task) (grows : Grows p p') :
    p'.KnowsEdits task := by
  cases task with
  | looking call database config => exact ⟨h.1.grows grows, h.2⟩
  | waiting o call => exact HandedFrom.grows h grows
  | running o call dropped => exact HandedFrom.grows h grows
  | opening o call at_ =>
    have handed := h.handed
    cases at_ with
    | pinWriting hostKey read =>
      refine ⟨handed.grows grows, ?_⟩
      rw [(grows.opens o handed.started).1]
      exact h.2.grows grows
    | _ => exact handed.grows grows
  | _ => trivial

/-- What a step leads to. -/
structure LedEdits (p p' : Pool) (next : Option PoolTask) : Prop where
  edited : p'.Edited
  grows : Grows p p'
  knows : ∀ n, next = some n → p'.KnowsEdits n

theorem Edited.led (h : p.Edited) (quiet : Quiet p p') {next : Option PoolTask}
    (knows : ∀ n, next = some n → p.KnowsEdits n) : LedEdits p p' next :=
  ⟨h.quiet quiet, quiet.grows, fun n same => (knows n same).grows quiet.grows⟩

theorem mem_pending_of_inFlight {key : Key} {o : ℕ} (h : p.inFlight key = some o) :
    (key, o) ∈ p.pending := by
  obtain ⟨q, found, rfl⟩ := Option.map_eq_some_iff.mp h
  have same : q.1 = key := by simpa using List.find?_some found
  exact same ▸ List.mem_of_find?_eq_some found

theorem match_eq_some {key : Key} {config : ConnectionConfig} {cap : ℕ} {e : Entry}
    (h : p.match_ key config cap = some e) :
    e ∈ p.entries ∧ e.key = key ∧ e.revision = config.revision cap := by
  obtain ⟨found, revision⟩ := Option.filter_eq_some_iff.mp h
  exact ⟨List.mem_of_find?_eq_some found, by simpa using List.find?_some found,
    by simpa using revision⟩

theorem quiet_used (p : Pool) (key : Key) :
    Quiet p { p with entries := p.entries.map fun e =>
      if e.key = key then { e with lastUsedAt := p.now } else e } := by
  refine { Quiet.refl p with entries := fun e used => .inl ?_ }
  obtain ⟨was, mem, rfl⟩ := List.mem_map.mp used
  refine ⟨was, mem, ?_⟩
  split <;> exact ⟨rfl, rfl, rfl⟩

/-- `acquire`, once the row is read. -/
theorem Edited.look (h : p.Edited) {call : Call} {database : String} {config : ConnectionConfig}
    {setting : ℕ} (knows : p.KnowsEdits (.looking call database config))
    (meets : p.MeetsEdits (.looking call database config) (.looks setting)) :
    LedEdits p (p.look call database config setting).1
      (some (p.look call database config setting).2) := by
  obtain ⟨known, begun⟩ := knows
  simp only [MeetsEdits] at meets
  unfold Pool.look
  simp only
  cases matches_ : p.match_ (keyOf call database config) config (config.queryCap setting) with
  | some e =>
    obtain ⟨mem, key, revision⟩ := match_eq_some matches_
    obtain ⟨started, same, made⟩ := h.entries e mem
    refine h.led (quiet_used p _) fun n is => ?_
    obtain rfl := Option.some.inj is
    refine ⟨started, ?_, ?_⟩
    · rw [same, key]
      rfl
    · calc call.begun ≤ config.edit := begun
        _ = (p.opens e.opened).config.updatedAt := by
          rw [← known.updatedAt, ← made, revision]
          rfl
        _ = (p.opens e.opened).config.edit := (h.opens e.opened started).updatedAt
  | none =>
    simp only
    cases inFlight : p.inFlight (keyOf call database config) with
    | some o =>
      obtain ⟨started, key⟩ := h.pending _ (mem_pending_of_inFlight inFlight)
      refine h.led (.refl p) fun n is => ?_
      obtain rfl := Option.some.inj is
      refine ⟨started, ?_, Nat.le_trans begun (meets matches_ o inFlight)⟩
      rw [key]
      rfl
    | none =>
      have grows := grows_start p (keyOf call database config) config (config.queryCap setting)
      obtain ⟨key, made⟩ :=
        start_opened p (keyOf call database config) config (config.queryCap setting)
      refine ⟨h.start known _, grows, fun n is => ?_⟩
      obtain rfl := Option.some.inj is
      have handed : HandedFrom
          (p.start (keyOf call database config) config (config.queryCap setting)).1
          p.started call := by
        refine ⟨Nat.lt_succ_self _, ?_, ?_⟩
        · rw [key]
          rfl
        · rw [made]
          exact begun
      rcases opening_start p (keyOf call database config) config (config.queryCap setting) with
        first | ⟨stale, first⟩
      all_goals
        rw [first]
        exact handed

/-- The rest of an open. -/
theorem Edited.open_ (h : p.Edited) {o : ℕ} {call : Call} {at_ : Opening} {answer : PoolAnswer}
    (knows : p.KnowsEdits (.opening o call at_))
    (meets : p.MeetsEdits (.opening o call at_) answer) {next : Option PoolTask}
    (resumed : p.open_ o call at_ answer = some (p', next)) : LedEdits p p' next := by
  have handed := knows.handed
  have finished : LedEdits p (p.finish o) (some (.running o call false)) := by
    refine h.led (quiet_finish handed.started) fun n same => ?_
    obtain rfl := Option.some.inj same
    exact handed
  have waits : ∀ n, (p.KnowsEdits n) → LedEdits p p (some n) := by
    intro n knows
    refine h.led (.refl p) fun n' same => ?_
    obtain rfl := Option.some.inj same
    exact knows
  unfold Pool.open_ at resumed
  split at resumed
  · next stale _ =>
    split at resumed
    · cases resumed
    · obtain ⟨rfl, rfl⟩ := Prod.mk.inj (Option.some.inj resumed)
      exact waits _ handed
  · next tunnel presented driver =>
    have quiet : ∀ x, Quiet p (p.setOpened o { p.opens o with tunnel := x }) :=
      fun x => quiet_setOpened rfl rfl
    simp only at resumed
    split at resumed
    · obtain ⟨rfl, rfl⟩ := Prod.mk.inj (Option.some.inj resumed)
      exact h.led (quiet_settle o false) (by simp)
    · split at resumed <;> obtain ⟨rfl, rfl⟩ := Prod.mk.inj (Option.some.inj resumed)
      · refine h.led ?_ fun n same => ?_
        · exact quiet_setOpened rfl rfl
        · obtain rfl := Option.some.inj same
          exact handed
      · exact h.led ((quiet _).trans (quiet_settle o false)) (by simp)
  · next presented ok =>
    simp only at resumed
    split at resumed
    · split at resumed
      · split at resumed <;> obtain ⟨rfl, rfl⟩ := Prod.mk.inj (Option.some.inj resumed)
        · exact waits _ handed
        · exact finished
      · obtain ⟨rfl, rfl⟩ := Prod.mk.inj (Option.some.inj resumed)
        exact finished
    · obtain ⟨rfl, rfl⟩ := Prod.mk.inj (Option.some.inj resumed)
      refine h.led ?_ fun n same => ?_
      · exact quiet_setOpened rfl rfl
      · obtain rfl := Option.some.inj same
        exact handed
  · obtain ⟨rfl, rfl⟩ := Prod.mk.inj (Option.some.inj resumed)
    have quiet : Quiet p (p.closeTunnel o) := quiet_setOpened rfl rfl
    exact h.led (quiet.trans (quiet_settle o false)) (by simp)
  · next hostKey ok =>
    cases found : (if ok then p.rows (p.opens o).key.id else none) with
    | some row =>
      simp only [found] at resumed
      split at resumed <;> obtain ⟨rfl, rfl⟩ := Prod.mk.inj (Option.some.inj resumed)
      · refine waits _ ⟨handed, (h.rows _ row ?_).1⟩
        cases ok with
        | true => exact found
        | false => simp at found
      · exact waits _ handed
    | none =>
      simp only [found] at resumed
      obtain ⟨rfl, rfl⟩ := Prod.mk.inj (Option.some.inj resumed)
      exact waits _ handed
  · next hostKey read ok =>
    obtain ⟨rfl, rfl⟩ := Prod.mk.inj (Option.some.inj resumed)
    cases ok with
    | false => exact waits _ handed
    | true =>
      have grows := grows_pin p (p.opens o).key.id read hostKey
      refine ⟨h.pin knows.2 (meets rfl) hostKey, grows, fun n same => ?_⟩
      obtain rfl := Option.some.inj same
      exact handed.grows grows
  · obtain ⟨rfl, rfl⟩ := Prod.mk.inj (Option.some.inj resumed)
    exact finished
  · cases resumed

theorem Edited.resume (h : p.Edited) {task : PoolTask} {answer : PoolAnswer}
    (knows : p.KnowsEdits task) (meets : p.MeetsEdits task answer) {next : Option PoolTask}
    (resumed : p.resume task answer = some (p', next)) : LedEdits p p' next := by
  unfold Pool.resume at resumed
  split at resumed
  · next id database ok =>
    obtain ⟨rfl, rfl⟩ := Prod.mk.inj (Option.some.inj resumed)
    refine h.led (.refl p) fun n same => ?_
    obtain ⟨config, found, rfl⟩ := Option.map_eq_some_iff.mp same
    cases ok with
    | false => simp at found
    | true =>
      obtain ⟨known, last⟩ := h.rows id config (by simpa using found)
      exact ⟨known, Nat.le_of_eq last.symm⟩
  · obtain ⟨rfl, rfl⟩ := Prod.mk.inj (Option.some.inj resumed)
    exact h.look knows meets
  · next o call ok =>
    obtain ⟨done, _, same⟩ := Option.map_eq_some_iff.mp resumed
    obtain ⟨rfl, rfl⟩ := Prod.mk.inj same
    refine h.led (.refl p) fun n is => ?_
    cases done with
    | false => simp at is
    | true =>
      obtain rfl := Option.some.inj is
      exact knows
  · exact h.open_ knows meets resumed
  · next o call dropped method has =>
    obtain ⟨rfl, rfl⟩ := Prod.mk.inj (Option.some.inj resumed)
    have grows := grows_invoke p o call method has
    refine ⟨h.invoke knows method has, grows, fun n same => ?_⟩
    obtain rfl := Option.some.inj same
    exact HandedFrom.grows knows grows
  · obtain ⟨rfl, rfl⟩ := Prod.mk.inj (Option.some.inj resumed)
    exact h.led (.refl p) (by simp)
  · next id input ok =>
    split at resumed <;> obtain ⟨rfl, rfl⟩ := Prod.mk.inj (Option.some.inj resumed)
    · refine ⟨h.save id input, grows_save p id input, fun n same => ?_⟩
      obtain rfl := Option.some.inj same
      trivial
    · exact h.led (.refl p) (by simp)
  · obtain ⟨rfl, rfl⟩ := Prod.mk.inj (Option.some.inj resumed)
    refine h.led (.refl p) fun n same => ?_
    obtain rfl := Option.some.inj same
    trivial
  · split at resumed
    · obtain ⟨rfl, rfl⟩ := Prod.mk.inj (Option.some.inj resumed)
      exact h.led (quiet_closeEntries _ _) (by simp)
    · cases resumed
  · cases resumed

theorem Edited.world (h : p.Edited) {e : Happens} (moved : p.world e = some p') :
    p'.Edited ∧ Grows p p' := by
  have quiet : Quiet p p' → p'.Edited ∧ Grows p p' := fun q => ⟨h.quiet q, q.grows⟩
  cases e with
  | tick ms =>
    obtain rfl := Option.some.inj moved
    exact quiet { Quiet.refl p with }
  | sweep poolIdleMs =>
    obtain rfl := Option.some.inj moved
    exact quiet (quiet_closeEntries _ _)
  | drop o =>
    simp only [Pool.world] at moved
    have dropped : Quiet p (p.setOpened o { p.opens o with tunnel := .dropped }) :=
      quiet_setOpened rfl rfl
    split at moved
    · split at moved <;> obtain rfl := Option.some.inj moved
      · exact quiet (dropped.trans (quiet_closeEntries _ _))
      · exact quiet dropped
    · cases moved
  | tunnelClosed o =>
    simp only [Pool.world] at moved
    split at moved
    · obtain rfl := Option.some.inj moved
      have closed : Quiet p (p.closeTunnel o) := quiet_setOpened rfl rfl
      exact quiet { closed with }
    · cases moved
  | create id input =>
    simp only [Pool.world] at moved
    split at moved
    · obtain rfl := Option.some.inj moved
      exact ⟨h.save id input, grows_save p id input⟩
    · cases moved
  | delete id =>
    obtain rfl := Option.some.inj moved
    have grows : Grows p { p with rows := Function.update p.rows id none } :=
      ⟨fun _ mem => mem, Nat.le_refl _, fun _ _ => ⟨rfl, rfl⟩⟩
    refine ⟨⟨fun id' config row => ?_, fun o lt => (h.opens o lt).grows grows, h.entries, h.pending,
      fun r mem writes => (h.reached r mem writes).grows grows⟩, grows⟩
    by_cases same : id' = id
    · subst same
      simp at row
    · obtain ⟨known, last⟩ := h.rows id' config (by simpa [same] using row)
      exact ⟨known.grows grows, last⟩

end Pool

/-!
## Runs

The invariant, of every run that meets the conditions; and at the end two runs, one in which edits are
passed over where it does not, and one that edits and evicts.
-/

/-- **An operation is handed an adapter made from the last edit that was saved before it began, or
from a later one.** -/
structure UpToDate (w : Tasks Pool PoolTask) : Prop where
  handed : ∀ t o call dropped, w.running t = some (.running o call dropped) →
    (w.shared.opens o).key.id = call.id ∧ call.begun ≤ (w.shared.opens o).config.edit ∧
      call.begun ≤ (w.shared.opens o).config.sshEdit
  /-- what writes has reached an adapter only where some edit since did not say read-only -/
  readOnly : ∀ r ∈ w.shared.reached, r.method ∈ WRITING_METHODS → w.shared.Writable r.call

theorem poolSystem_keepsEdits :
    poolSystem.Keeps (onGo Pool.MeetsEdits) Pool.Edited Pool.KnowsEdits where
  begins {_ _ request} _ _ := by cases request <;> trivial
  goes {w t answer task s next} meets holds running resumed := by
    have led := holds.shared.resume (holds.tasks t task running) (meets task running) resumed
    exact ⟨led.edited, led.knows⟩
  stays {w t answer task s next u other} meets holds running resumed _ hu := by
    have led := holds.shared.resume (holds.tasks t task running) (meets task running) resumed
    exact (holds.tasks u other hu).grows led.grows
  world {w e s} _ holds moved := by
    obtain ⟨edited, grows⟩ := holds.shared.world moved
    exact ⟨edited, fun t task running => (holds.tasks t task running).grows grows⟩

theorem edited_empty : Pool.empty.Edited where
  rows id config row := by simp [Pool.empty] at row
  opens o lt := absurd lt (Nat.not_lt_zero o)
  entries e mem := by simp [Pool.empty] at mem
  pending q mem := by simp [Pool.empty] at mem
  reached r mem := by simp [Pool.empty] at mem

theorem upToDate_of_meetsEdits {es : List (TaskEvent PoolRequest PoolAnswer Pool.Happens)}
    {w : Tasks Pool PoolTask}
    (run : Run poolSystem.step (onGo Pool.MeetsEdits) (Tasks.idle .empty) es w) : UpToDate w := by
  have holds := poolSystem_keepsEdits.run run (.idle edited_empty)
  refine ⟨fun t o call dropped running => ?_, holds.shared.reached⟩
  have handed : w.shared.HandedFrom o call := holds.tasks t _ running
  refine ⟨handed.id, handed.begun, ?_⟩
  rw [(holds.shared.opens o handed.started).sshEdit]
  exact handed.begun

/-- An open is in progress; the connection is saved as read-only; a call reads that row, joins the
open, and inserts. And: an open is pinning the jump host's key; an edit is saved, and the pin writes
the ssh block and the `updatedAt` it has read over it, which the next call's adapter is made from. -/
theorem edits_passed_over :
    (∃ w, Run poolSystem.step anyStep (Tasks.idle .empty)
        [.world (.create 1 (connection false none)), .begin 0 (.withAdapter 1 ""),
          .go 0 (.did true), .go 0 (.looks 5000), .begin 1 (.update 1 (connection true none)),
          .go 1 (.did true), .begin 2 (.withAdapter 1 ""), .go 2 (.did true), .go 2 (.looks 5000),
          .go 0 (.dialled true none true), .go 0 (.did true), .go 2 (.did true),
          .go 2 (.calls .insertRow true)] w ∧
      ¬ UpToDate w) ∧
    ∃ w, Run poolSystem.step anyStep (Tasks.idle .empty)
        [.world (.create 1 (connection false (some unpinned))), .begin 0 (.withAdapter 1 ""),
          .go 0 (.did true), .go 0 (.looks 5000), .go 0 (.dialled true (some "SHA256:k") true),
          .go 0 (.did true), .go 0 (.did true), .begin 1 (.update 1 (connection false none)),
          .go 1 (.did true), .go 0 (.did true), .go 0 (.did true), .go 1 (.did true),
          .go 1 (.did true), .begin 2 (.withAdapter 1 ""), .go 2 (.did true), .go 2 (.looks 5000),
          .go 2 (.dialled true (some "SHA256:k") true), .go 2 (.did true)] w ∧
      ¬ UpToDate w := by
  refine ⟨⟨_, run_of_eval rfl, fun upToDate => ?_⟩, ⟨_, run_of_eval rfl, fun upToDate => ?_⟩⟩
  · obtain ⟨s, mem, rest⟩ :=
      upToDate.readOnly { call := { id := 1, begun := 2 }, method := .insertRow } (by decide)
        (by decide)
    revert rest
    revert s
    decide
  · exact absurd (upToDate.handed 2 1 { id := 1, begun := 2 } false rfl).2.2 (by decide)

/-- An edit, its eviction, and operations before and after it, one of which joins another's open. -/
theorem edited_and_evicted :
    ∃ w, Run poolSystem.step (onGo Pool.MeetsEdits) (Tasks.idle .empty)
        [.world (.create 1 (connection false none)), .begin 0 (.withAdapter 1 ""),
          .go 0 (.did true), .go 0 (.looks 5000), .go 0 (.dialled true none true), .go 0 (.did true),
          .go 0 (.calls .insertRow true), .begin 1 (.update 1 (connection true none)),
          .go 1 (.did true), .go 1 (.did true), .go 1 (.did true), .begin 2 (.withAdapter 1 ""),
          .begin 3 (.withAdapter 1 ""), .go 2 (.did true), .go 3 (.did true), .go 2 (.looks 5000),
          .go 3 (.looks 5000), .go 2 (.dialled true none true), .go 2 (.did true), .go 3 (.did true),
          .go 3 (.calls .insertRow true), .go 3 (.calls .browse true)] w ∧
      UpToDate w := by
  have run : ∃ w, Run poolSystem.step (onGo Pool.MeetsEdits) (Tasks.idle .empty)
      [.world (.create 1 (connection false none)), .begin 0 (.withAdapter 1 ""),
        .go 0 (.did true), .go 0 (.looks 5000), .go 0 (.dialled true none true), .go 0 (.did true),
        .go 0 (.calls .insertRow true), .begin 1 (.update 1 (connection true none)),
        .go 1 (.did true), .go 1 (.did true), .go 1 (.did true), .begin 2 (.withAdapter 1 ""),
        .begin 3 (.withAdapter 1 ""), .go 2 (.did true), .go 3 (.did true), .go 2 (.looks 5000),
        .go 3 (.looks 5000), .go 2 (.dialled true none true), .go 2 (.did true), .go 3 (.did true),
        .go 3 (.calls .insertRow true), .go 3 (.calls .browse true)] w :=
    ⟨_, run_iff_runEvents.mpr rfl⟩
  obtain ⟨w, run⟩ := run
  exact ⟨w, run, upToDate_of_meetsEdits run⟩

end Syncle.Adapters
